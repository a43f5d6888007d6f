/-!
# HTML text

Escaping of the five characters that HTML gives a meaning, decoding of character references, and
removal of tags. A tag is the shortest stretch from `<` to `>` within one line.
-/
namespace Stencil.Text.Html

def escapeChar (c : Char) : List Char :=
  if c = '&' then "&amp;".toList
  else if c = '\'' then "&#39;".toList
  else if c = '<' then "&lt;".toList
  else if c = '>' then "&gt;".toList
  else if c = '"' then "&#34;".toList
  else [c]

def escape (cs : List Char) : List Char := cs.flatMap escapeChar

/-- A character reference between `&` and `;`. -/
inductive Reference where
  | decimal (digits : List Char)
  | hexadecimal (digits : List Char)
  | named (letters : List Char)
  deriving DecidableEq, Repr

def isHexDigit (c : Char) : Bool :=
  c.isDigit || ('a' ≤ c && c ≤ 'f') || ('A' ≤ c && c ≤ 'F')

def digitValue (c : Char) : Nat :=
  if c.isDigit then c.toNat - '0'.toNat
  else if 'a' ≤ c && c ≤ 'f' then c.toNat - 'a'.toNat + 10
  else c.toNat - 'A'.toNat + 10

/-- The leading characters of one class and what follows, when that is a semicolon. -/
def runToSemicolon? (p : Char → Bool) (cs : List Char) : Option (List Char × List Char) :=
  match cs.takeWhile p, cs.dropWhile p with
  | c :: run, ';' :: rest => some (c :: run, rest)
  | _, _ => none

/-- The reference that a text begins with, its `&` already read. -/
def reference? (cs : List Char) : Option (Reference × List Char) :=
  match cs with
  | '#' :: digits =>
    match runToSemicolon? Char.isDigit digits with
    | some (run, rest) => some (.decimal run, rest)
    | none => match digits with
      | x :: digits =>
        if x = 'x' || x = 'X' then
          (runToSemicolon? isHexDigit digits).map fun (run, rest) => (.hexadecimal run, rest)
        else none
      | [] => none
  | letters => (runToSemicolon? Char.isAlpha letters).map fun (run, rest) => (.named run, rest)

theorem length_runToSemicolon? {p : Char → Bool} {cs run rest : List Char}
    (h : runToSemicolon? p cs = some (run, rest)) : rest.length < cs.length := by
  have hcs : (cs.takeWhile p).length + (cs.dropWhile p).length = cs.length := by
    rw [← List.length_append, List.takeWhile_append_dropWhile]
  simp only [runToSemicolon?] at h
  split at h
  · rename_i c r q _ hd
    simp only [Option.some.injEq, Prod.mk.injEq] at h
    obtain ⟨_, rfl⟩ := h
    rw [hd, List.length_cons] at hcs
    omega
  · cases h

theorem length_reference? {cs rest : List Char} {r : Reference}
    (h : reference? cs = some (r, rest)) : rest.length < cs.length := by
  unfold reference? at h
  split at h
  · rename_i digits
    split at h
    · rename_i hr
      simp only [Option.some.injEq, Prod.mk.injEq] at h
      obtain ⟨_, rfl⟩ := h
      have := length_runToSemicolon? hr
      simp only [List.length_cons]
      omega
    · split at h
      · split at h
        · simp only [Option.map_eq_some_iff, Prod.exists, Prod.mk.injEq] at h
          obtain ⟨_, b, hb, _, rfl⟩ := h
          have := length_runToSemicolon? hb
          simp only [List.length_cons]
          omega
        · cases h
      · cases h
  · simp only [Option.map_eq_some_iff, Prod.exists, Prod.mk.injEq] at h
    obtain ⟨_, b, hb, _, rfl⟩ := h
    exact length_runToSemicolon? hb

/-- The number that digits write in the given base. -/
def number (base : Nat) (digits : List Char) : Nat :=
  digits.foldl (fun n c => n * base + digitValue c) 0

def charOfCode? (n : Nat) : Option Char :=
  if Nat.isValidChar n then some (Char.ofNat n) else none

/-- The character a reference stands for, if there is one. -/
def Reference.char? : Reference → Option Char
  | .decimal digits => charOfCode? (number 10 digits)
  | .hexadecimal digits => charOfCode? (number 16 digits)
  | .named letters =>
    if letters = "amp".toList then some '&'
    else if letters = "lt".toList then some '<'
    else if letters = "gt".toList then some '>'
    else if letters = "quot".toList then some '"'
    else if letters = "apos".toList then some '\''
    else if letters = "nbsp".toList then some '\xa0'
    else none

/-- Decode character references, leaving what stands for no character. -/
def unescape : List Char → List Char
  | [] => []
  | c :: cs =>
    if c = '&' then
      match _h : reference? cs with
      | some (r, rest) =>
        match r.char? with
        | some d => d :: unescape rest
        | none => c :: cs.take (cs.length - rest.length) ++ unescape rest
      | none => c :: unescape cs
    else c :: unescape cs
termination_by cs => cs.length
decreasing_by
  all_goals simp only [List.length_cons]
  all_goals first
    | omega
    | exact Nat.lt_succ_of_lt (length_reference? _h)

/-- Decode and escape again, so that what was escaped already stays as it is. -/
def escapeOnce (cs : List Char) : List Char := escape (unescape cs)

/-- What follows the next `>` on this line. -/
def afterTag? : List Char → Option (List Char)
  | [] => none
  | c :: cs => if c = '>' then some cs else if c = '\n' then none else afterTag? cs

theorem length_afterTag? {cs rest : List Char} (h : afterTag? cs = some rest) :
    rest.length < cs.length := by
  induction cs with
  | nil => cases h
  | cons c cs ih =>
    simp only [afterTag?] at h
    split at h
    · cases h; simp
    · split at h
      · cases h
      · have := ih h; simp only [List.length_cons]; omega

def stripTags : List Char → List Char
  | [] => []
  | c :: cs =>
    if c = '<' then
      match _h : afterTag? cs with
      | some rest => stripTags rest
      | none => c :: stripTags cs
    else c :: stripTags cs
termination_by cs => cs.length
decreasing_by
  all_goals simp only [List.length_cons]
  all_goals first
    | omega
    | exact Nat.lt_succ_of_lt (length_afterTag? _h)

end Stencil.Text.Html
