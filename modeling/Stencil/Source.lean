/-!
# Source text

Byte ranges of a text and the lines and columns they stand for in messages.
-/
namespace Stencil

/-- A half-open range of bytes. -/
structure Span where
  start : Nat
  stop : Nat
  deriving DecidableEq, Repr, Inhabited

namespace Span

/-- The same range after `base` more bytes. -/
def shift (base : Nat) (s : Span) : Span := ⟨s.start + base, s.stop + base⟩

def length (s : Span) : Nat := s.stop - s.start

def isEmpty (s : Span) : Bool := s.length = 0

end Span

/-- The number of bytes of a text in UTF-8. -/
def byteLength : List Char → Nat
  | [] => 0
  | c :: cs => c.utf8Size + byteLength cs

@[simp] theorem byteLength_nil : byteLength [] = 0 := rfl

@[simp] theorem byteLength_cons (c : Char) (cs : List Char) :
    byteLength (c :: cs) = c.utf8Size + byteLength cs := rfl

@[simp] theorem byteLength_append (cs ds : List Char) :
    byteLength (cs ++ ds) = byteLength cs + byteLength ds := by
  induction cs with
  | nil => simp
  | cons c cs ih =>
    rw [List.cons_append, byteLength_cons, byteLength_cons, ih]
    omega

theorem utf8ByteSize_ofList (cs : List Char) :
    (String.ofList cs).utf8ByteSize = byteLength cs := by
  induction cs with
  | nil => rfl
  | cons c cs ih => rw [String.ofList_cons, String.utf8ByteSize_append, ih]; simp

theorem byteLength_toList (s : String) : byteLength s.toList = s.utf8ByteSize := by
  rw [← utf8ByteSize_ofList, String.ofList_toList]

/-- What is left after the first `n` bytes. -/
def dropBytes : Nat → List Char → List Char
  | 0, cs => cs
  | _ + 1, [] => []
  | n + 1, c :: cs => dropBytes (n + 1 - c.utf8Size) cs

/-- The first `n` bytes. -/
def takeBytes : Nat → List Char → List Char
  | 0, _ => []
  | _ + 1, [] => []
  | n + 1, c :: cs => c :: takeBytes (n + 1 - c.utf8Size) cs

/-- What the range holds of a text. -/
def Span.slice (s : Span) (cs : List Char) : List Char := takeBytes s.length (dropBytes s.start cs)

/-- No character is cut after the first `n` bytes. -/
def isCharBoundary : Nat → List Char → Bool
  | 0, _ => true
  | _ + 1, [] => false
  | n + 1, c :: cs => c.utf8Size ≤ n + 1 && isCharBoundary (n + 1 - c.utf8Size) cs

/-- The last boundary up to an offset. -/
def floorBoundary (cs : List Char) : Nat → Nat
  | 0 => 0
  | n + 1 => if isCharBoundary (n + 1) cs then n + 1 else floorBoundary cs n

/-- The first position between `low` and `high` with a number that is not less than `n`. -/
def lowerBound (ns : List Nat) (n low high : Nat) : Nat :=
  if low < high then
    let middle := low + (high - low) / 2
    if ns.getD middle 0 < n then lowerBound ns n (middle + 1) high
    else lowerBound ns n low middle
  else low
termination_by high - low

/-- The position of a number in an ascending list, or that at which it would be inserted. -/
def binarySearch (ns : List Nat) (n : Nat) : Except Nat Nat :=
  let i := lowerBound ns n 0 ns.length
  if ns[i]? = some n then .ok i else .error i

/-- A place in a template, for messages. -/
structure Location where
  /-- The name of the template, if it has one. -/
  template : Option String
  /-- From 1. -/
  line : Nat
  /-- In characters, from 1. -/
  column : Nat
  /-- In bytes, from 0. -/
  offset : Nat
  deriving DecidableEq, Repr

def Location.text (l : Location) : String :=
  match l.template with
  | some name => s!"{name}:{l.line}:{l.column}"
  | none => s!"line {l.line}, column {l.column}"

/-- A text with the name of the template it belongs to. -/
structure SourceText where
  text : String
  name : Option String := none
  deriving DecidableEq, Repr

namespace SourceText

def byteLength (s : SourceText) : Nat := s.text.utf8ByteSize

/-- Where lines start after the newlines of a text that stands at `offset`. -/
def lineStartsFrom (offset : Nat) : List Char → List Nat
  | [] => []
  | c :: cs =>
    let next := offset + c.utf8Size
    if c = '\n' then next :: lineStartsFrom next cs else lineStartsFrom next cs

/-- The line index. -/
def lineStarts (s : SourceText) : List Nat := 0 :: lineStartsFrom 0 s.text.toList

/-- The line of an offset, counted from 0: the one that starts there, or the one before the next to
start. -/
def lineIndex (starts : List Nat) (offset : Nat) : Nat :=
  match binarySearch starts offset with
  | .ok i => i
  | .error i => i - 1

/-- The place of a byte. Inside a character it is that of the character, past the end that of the
end. -/
def location (s : SourceText) (offset : Nat) : Location :=
  let offset := floorBoundary s.text.toList (min offset s.byteLength)
  let line := lineIndex s.lineStarts offset
  let start := s.lineStarts.getD line 0
  ⟨s.name, line + 1, (Span.slice ⟨start, offset⟩ s.text.toList).length + 1, offset⟩

end SourceText

end Stencil
