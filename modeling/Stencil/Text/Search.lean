/-!
# Searching text

Leftmost, non-overlapping search for a fixed piece of text, and splitting and replacing by it.
Everything rests on `cut`, which divides a text at the first occurrence.
-/
namespace Stencil.Text

/-- What follows `piece` at the start of the text, if the text starts with it. -/
def dropPiece? : List Char → List Char → Option (List Char)
  | [], cs => some cs
  | _ :: _, [] => none
  | p :: piece, c :: cs => if p = c then dropPiece? piece cs else none

theorem dropPiece?_eq_some_iff {piece cs rest : List Char} :
    dropPiece? piece cs = some rest ↔ cs = piece ++ rest := by
  induction piece generalizing cs with
  | nil => simp [dropPiece?, eq_comm]
  | cons p piece ih =>
    cases cs with
    | nil => simp [dropPiece?]
    | cons c cs =>
      by_cases h : p = c
      · simp [dropPiece?, h, ih]
      · simp [dropPiece?, h, Ne.symm h]

/-- The text before and after the first occurrence of `piece`. -/
def cut (piece : List Char) : List Char → Option (List Char × List Char)
  | [] => match piece with
    | [] => some ([], [])
    | _ :: _ => none
  | c :: cs => match dropPiece? piece (c :: cs) with
    | some rest => some ([], rest)
    | none => (cut piece cs).map fun (before, after) => (c :: before, after)

theorem cut_eq_append {piece cs before after : List Char}
    (h : cut piece cs = some (before, after)) : cs = before ++ piece ++ after := by
  induction cs generalizing before with
  | nil => cases piece <;> simp_all [cut]
  | cons c cs ih =>
    simp only [cut] at h
    split at h
    · rename_i rest hd
      simp only [Option.some.injEq, Prod.mk.injEq] at h
      obtain ⟨rfl, rfl⟩ := h
      simpa using dropPiece?_eq_some_iff.1 hd
    · simp only [Option.map_eq_some_iff, Prod.mk.injEq, Prod.exists] at h
      obtain ⟨b, a, hb, rfl, rfl⟩ := h
      simp [ih hb]

def occurs (piece cs : List Char) : Bool := (cut piece cs).isSome

theorem length_after_cut_lt {p : Char} {piece cs before after : List Char}
    (h : cut (p :: piece) cs = some (before, after)) : after.length < cs.length := by
  have := congrArg List.length (cut_eq_append h)
  simp only [List.length_append, List.length_cons] at this
  omega

/-- The pieces of the text between the occurrences of the separator `p :: piece`. -/
def splitAt (p : Char) (piece : List Char) (cs : List Char) : List (List Char) :=
  match _h : cut (p :: piece) cs with
  | none => [cs]
  | some (before, after) => before :: splitAt p piece after
termination_by cs.length
decreasing_by exact length_after_cut_lt _h

/-- Put `new` for every occurrence of `old`. An empty `old` occurs before every character and at
the end. -/
def replace (old new cs : List Char) : List Char :=
  match old with
  | [] => new ++ cs.flatMap fun c => c :: new
  | p :: piece => List.intercalate new (splitAt p piece cs)

def replaceFirst (old new cs : List Char) : List Char :=
  match cut old cs with
  | none => cs
  | some (before, after) => before ++ new ++ after

end Stencil.Text
