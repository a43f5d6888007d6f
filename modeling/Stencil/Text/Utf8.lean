/-!
# UTF-8

Decoding of bytes. A text that is not well formed is described by the offset of its first bad
byte and by the number of bytes that no continuation can make well formed; the lenient decoder
puts U+FFFD for each such run.
-/
namespace Stencil.Text.Utf8

/-- Where and how bytes stop being UTF-8. -/
structure Fault where
  /-- Number of bytes before the fault. -/
  offset : Nat
  /-- Length of the bad run; absent when the bytes end inside a character. -/
  width : Option Nat
  deriving DecidableEq, Repr

def Fault.message (f : Fault) : String :=
  match f.width with
  | some n => s!"invalid utf-8 sequence of {n} bytes from index {f.offset}"
  | none => s!"incomplete utf-8 byte sequence from index {f.offset}"

/-- How a sequence of bytes begins. -/
inductive Head where
  /-- A whole character of so many bytes. -/
  | character (width : Nat)
  /-- So many bytes that begin no character. -/
  | invalid (width : Nat)
  /-- The bytes end before the character does. -/
  | incomplete
  deriving DecidableEq, Repr

def isTail (b : UInt8) : Bool := 0x80 ≤ b && b ≤ 0xBF

/-- The second byte that may follow `first` in a character of three bytes. -/
def secondOfThree (first second : UInt8) : Bool :=
  if first = 0xE0 then 0xA0 ≤ second && second ≤ 0xBF
  else if first = 0xED then 0x80 ≤ second && second ≤ 0x9F
  else isTail second

/-- The second byte that may follow `first` in a character of four bytes. -/
def secondOfFour (first second : UInt8) : Bool :=
  if first = 0xF0 then 0x90 ≤ second && second ≤ 0xBF
  else if first = 0xF4 then 0x80 ≤ second && second ≤ 0x8F
  else isTail second

/-- So many tail bytes, the first at position `seen` of its character. -/
def tails (seen : Nat) : Nat → List UInt8 → Head
  | 0, _ => .character seen
  | _ + 1, [] => .incomplete
  | n + 1, b :: rest => if isTail b then tails (seen + 1) n rest else .invalid seen

def head (first : UInt8) (rest : List UInt8) : Head :=
  if first < 0x80 then .character 1
  else if 0xC2 ≤ first && first ≤ 0xDF then tails 1 1 rest
  else if 0xE0 ≤ first && first ≤ 0xEF then
    match rest with
    | [] => .incomplete
    | second :: rest => if secondOfThree first second then tails 2 1 rest else .invalid 1
  else if 0xF0 ≤ first && first ≤ 0xF4 then
    match rest with
    | [] => .incomplete
    | second :: rest => if secondOfFour first second then tails 2 2 rest else .invalid 1
  else .invalid 1

/-- The first fault, `offset` bytes having been read. -/
def findFault (offset : Nat) : List UInt8 → Option Fault
  | [] => none
  | b :: rest =>
    match head b rest with
    | .character width => findFault (offset + width) (rest.drop (width - 1))
    | .invalid width => some ⟨offset, some width⟩
    | .incomplete => some ⟨offset, none⟩
termination_by bytes => bytes.length
decreasing_by simp only [List.length_drop, List.length_cons]; omega

/-- The text, or where it stops being one. -/
def decode (bytes : ByteArray) : Except Fault String :=
  match String.fromUTF8? bytes with
  | some s => .ok s
  | none => .error ((findFault 0 bytes.toList).getD ⟨0, some 1⟩)

theorem fromUTF8?_toUTF8 (s : String) : String.fromUTF8? s.toUTF8 = some s := by
  simp [String.fromUTF8?, String.fromUTF8, s.isValidUTF8]

theorem decode_toUTF8 (s : String) : decode s.toUTF8 = .ok s := by
  simp only [decode, fromUTF8?_toUTF8]

/-- The bytes with every bad run replaced by those of U+FFFD. -/
def repair : List UInt8 → List UInt8
  | [] => []
  | b :: rest =>
    match head b rest with
    | .character width => b :: rest.take (width - 1) ++ repair (rest.drop (width - 1))
    | .invalid width => [0xEF, 0xBF, 0xBD] ++ repair (rest.drop (width - 1))
    | .incomplete => [0xEF, 0xBF, 0xBD]
termination_by bytes => bytes.length
decreasing_by all_goals simp only [List.length_drop, List.length_cons]; omega

/-- The text, with U+FFFD for whatever is not UTF-8. -/
def decodeLenient (bytes : ByteArray) : String :=
  match String.fromUTF8? bytes with
  | some s => s
  | none => (String.fromUTF8? ⟨(repair bytes.toList).toArray⟩).getD ""

theorem decodeLenient_toUTF8 (s : String) : decodeLenient s.toUTF8 = s := by
  simp only [decodeLenient, fromUTF8?_toUTF8]

end Stencil.Text.Utf8
