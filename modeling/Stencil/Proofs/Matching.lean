import Mathlib.Data.List.Infix
import Stencil.Text.Search

/-!
# Matches of a pattern

A pattern is given by the texts that it matches. A search takes the leftmost match, of those that
begin there the shortest, and goes on behind it, so it divides a text in one way only, and none of
the parts holds a match. The search for a fixed piece of text is such a search.
-/
namespace Stencil.Text

/-- No match of a pattern stands in a text. -/
def Unmatched (P : List Char → Prop) (cs : List Char) : Prop := ∀ m, P m → ¬ m <:+: cs

/-- Between these texts stands the leftmost match, and the shortest that begins there. -/
structure FirstMatch (P : List Char → Prop) (before m after : List Char) : Prop where
  isMatch : P m
  leftmost : ∀ b m' a, P m' → before ++ m ++ after = b ++ m' ++ a → before.length ≤ b.length
  shortest : ∀ m', P m' → m' <+: m ++ after → m.length ≤ m'.length

/-- The parts of a text between the matches that are found one after the other, each search starting
behind the match before. -/
inductive Divided (P : List Char → Prop) : List Char → List (List Char) → Prop where
  | whole {cs : List Char} (h : Unmatched P cs) : Divided P cs [cs]
  | cut {cs before m after : List Char} {parts : List (List Char)} (hcs : cs = before ++ m ++ after)
    (hfirst : FirstMatch P before m after) (hafter : Divided P after parts) :
    Divided P cs (before :: parts)

variable {P : List Char → Prop}

theorem Unmatched.cons {c : Char} {cs : List Char} (hc : ∀ m, P m → ¬ m <+: c :: cs)
    (h : Unmatched P cs) : Unmatched P (c :: cs) := by
  intro m hm hinfix
  rcases List.infix_cons_iff.mp hinfix with hbegin | hlater
  · exact hc m hm hbegin
  · exact h m hm hlater

namespace FirstMatch

variable {before m after : List Char}

theorem at_front (hm : P m) (h : ∀ m', P m' → m' <+: m ++ after → m.length ≤ m'.length) :
    FirstMatch P [] m after :=
  ⟨hm, fun _ _ _ _ _ => Nat.zero_le _, h⟩

/-- A character at which no match begins does not change which match is the first. -/
theorem cons {c : Char} (hc : ∀ m', P m' → ¬ m' <+: c :: (before ++ m ++ after))
    (h : FirstMatch P before m after) : FirstMatch P (c :: before) m after := by
  refine ⟨h.isMatch, fun b m' a hm' heq => ?_, h.shortest⟩
  simp only [List.cons_append] at heq
  cases b with
  | nil => exact absurd ⟨a, heq.symm⟩ (hc m' hm')
  | cons d b =>
    have hlater : before ++ m ++ after = b ++ m' ++ a := (List.cons.inj heq).2
    simpa using h.leftmost b m' a hm' hlater

/-- What stands before the first match holds no match. -/
theorem unmatched (h : FirstMatch P before m after) (hne : ∀ m, P m → m ≠ []) :
    Unmatched P before := by
  rintro m' hm' ⟨b, a, hbefore⟩
  have heq : before ++ m ++ after = b ++ m' ++ (a ++ m ++ after) := by
    simp only [← hbefore, List.append_assoc]
  have hleft : before.length ≤ b.length := h.leftmost b m' _ hm' heq
  have hpos : 0 < m'.length := List.length_pos_iff.mpr (hne m' hm')
  have hlength := congrArg List.length hbefore
  simp only [List.length_append] at hlength
  omega

theorem unique {b m' a : List Char} (h : FirstMatch P before m after) (h' : FirstMatch P b m' a)
    (heq : before ++ m ++ after = b ++ m' ++ a) : before = b ∧ m = m' ∧ after = a := by
  have hlength : before.length = b.length :=
    Nat.le_antisymm (h.leftmost b m' a h'.isMatch heq)
      (h'.leftmost before m after h.isMatch heq.symm)
  rw [List.append_assoc, List.append_assoc] at heq
  obtain ⟨rfl, hrest⟩ := List.append_inj heq hlength
  have hwidth : m.length = m'.length :=
    Nat.le_antisymm (h.shortest m' h'.isMatch ⟨a, hrest.symm⟩)
      (h'.shortest m h.isMatch ⟨after, hrest⟩)
  obtain ⟨rfl, rfl⟩ := List.append_inj hrest hwidth
  exact ⟨rfl, rfl, rfl⟩

end FirstMatch

namespace Divided

variable {cs : List Char} {parts : List (List Char)}

theorem ne_nil (h : Divided P cs parts) : parts ≠ [] := by
  cases h <;> simp

/-- A character at which no match begins belongs to the first part. -/
theorem cons {c : Char} {part : List Char} (hc : ∀ m, P m → ¬ m <+: c :: cs)
    (h : Divided P cs (part :: parts)) : Divided P (c :: cs) ((c :: part) :: parts) := by
  cases h with
  | whole h => exact .whole (h.cons hc)
  | cut hcs hfirst hafter =>
    subst hcs
    exact .cut (by simp) (hfirst.cons hc) hafter

theorem unmatched (h : Divided P cs parts) (hne : ∀ m, P m → m ≠ []) :
    ∀ part ∈ parts, Unmatched P part := by
  induction h with
  | whole h => simpa using h
  | cut _ hfirst _ ih => exact List.forall_mem_cons.mpr ⟨hfirst.unmatched hne, ih⟩

/-- There is one way to divide a text. -/
theorem unique {parts' : List (List Char)} (h : Divided P cs parts) (h' : Divided P cs parts') :
    parts = parts' := by
  induction h generalizing parts' with
  | whole h =>
    cases h' with
    | whole => rfl
    | cut hcs hfirst => exact absurd (hcs ▸ List.infix_append ..) (h _ hfirst.isMatch)
  | cut hcs hfirst _ ih =>
    cases h' with
    | whole h' => exact absurd (hcs ▸ List.infix_append ..) (h' _ hfirst.isMatch)
    | cut hcs' hfirst' hafter' =>
      obtain ⟨rfl, rfl, rfl⟩ := hfirst.unique hfirst' (hcs.symm.trans hcs')
      rw [ih hafter']

/-- Between the parts that a fixed piece divides a text into stands that piece. -/
theorem intercalate {piece : List Char} (h : Divided (· = piece) cs parts) :
    piece.intercalate parts = cs := by
  induction h with
  | whole => rw [List.intercalate_singleton]
  | cut hcs hfirst hafter ih =>
    rw [List.intercalate_cons_of_ne_nil hafter.ne_nil, ih, hcs, hfirst.isMatch]

end Divided

/-! ### Search for a piece -/

theorem dropPiece?_eq_none {piece cs : List Char} (h : dropPiece? piece cs = none) :
    ¬ piece <+: cs := by
  rintro ⟨rest, rfl⟩
  rw [dropPiece?_eq_some_iff.mpr rfl] at h
  cases h

theorem unmatched_of_cut {piece cs : List Char} (h : cut piece cs = none) :
    Unmatched (· = piece) cs := by
  induction cs with
  | nil =>
    cases piece with
    | nil => cases h
    | cons p piece =>
      rintro _ rfl hinfix
      cases List.eq_nil_of_infix_nil hinfix
  | cons c cs ih =>
    simp only [cut] at h
    split at h
    · cases h
    · rename_i hnone
      refine .cons ?_ (ih (Option.map_eq_none_iff.mp h))
      rintro _ rfl
      exact dropPiece?_eq_none hnone

theorem firstMatch_nil (piece after : List Char) : FirstMatch (· = piece) [] piece after := by
  refine .at_front rfl ?_
  rintro _ rfl -
  exact le_rfl

/-- What is cut out is the first occurrence. -/
theorem firstMatch_of_cut {piece cs before after : List Char}
    (h : cut piece cs = some (before, after)) : FirstMatch (· = piece) before piece after := by
  induction cs generalizing before with
  | nil =>
    cases piece with
    | nil =>
      cases h
      exact firstMatch_nil [] []
    | cons p piece => cases h
  | cons c cs ih =>
    simp only [cut] at h
    split at h
    · cases h
      exact firstMatch_nil piece after
    · rename_i hnone
      simp only [Option.map_eq_some_iff, Prod.mk.injEq, Prod.exists] at h
      obtain ⟨b, a, hcut, rfl, rfl⟩ := h
      refine (ih hcut).cons ?_
      rintro _ rfl
      rw [← cut_eq_append hcut]
      exact dropPiece?_eq_none hnone

/-- A text is taken apart at the occurrences of a piece from left to right. -/
theorem divided_splitAt (p : Char) (piece cs : List Char) :
    Divided (· = p :: piece) cs (splitAt p piece cs) := by
  fun_induction splitAt p piece cs with
  | case1 cs hnone => exact .whole (unmatched_of_cut hnone)
  | case2 cs before after hcut ih => exact .cut (cut_eq_append hcut) (firstMatch_of_cut hcut) ih

/-! ### Search for a character -/

theorem unmatched_singleton_iff {p : Char} {cs : List Char} :
    Unmatched (· = [p]) cs ↔ p ∉ cs := by
  simp only [Unmatched, forall_eq, List.singleton_infix_iff]

theorem firstMatch_singleton {p : Char} {before after : List Char} (h : p ∉ before) :
    FirstMatch (· = [p]) before [p] after := by
  induction before with
  | nil => exact firstMatch_nil [p] after
  | cons c before ih =>
    obtain ⟨hc, hbefore⟩ := not_or.mp (mt List.mem_cons.mpr h)
    refine (ih hbefore).cons ?_
    rintro _ rfl ⟨_, heq⟩
    exact hc (List.cons.inj heq).1

end Stencil.Text
