import Stencil.Source

/-!
# Ranges of a text

What the bytes between two offsets are, when the offsets stand between characters, and what place is
stated for an offset.
-/
namespace Stencil

theorem dropBytes_add_utf8Size (c : Char) (n : Nat) (cs : List Char) :
    dropBytes (c.utf8Size + n) (c :: cs) = dropBytes n cs := by
  have hpos : 0 < c.utf8Size := c.utf8Size_pos
  obtain ⟨k, hk⟩ : ∃ k, c.utf8Size + n = k + 1 := ⟨c.utf8Size + n - 1, by omega⟩
  rw [hk, dropBytes]
  congr 1
  omega

theorem takeBytes_add_utf8Size (c : Char) (n : Nat) (cs : List Char) :
    takeBytes (c.utf8Size + n) (c :: cs) = c :: takeBytes n cs := by
  have hpos : 0 < c.utf8Size := c.utf8Size_pos
  obtain ⟨k, hk⟩ : ∃ k, c.utf8Size + n = k + 1 := ⟨c.utf8Size + n - 1, by omega⟩
  rw [hk, takeBytes]
  congr 2
  omega

theorem dropBytes_append (cs ds : List Char) : dropBytes (byteLength cs) (cs ++ ds) = ds := by
  induction cs with
  | nil => simp [dropBytes]
  | cons c cs ih => rw [byteLength_cons, List.cons_append, dropBytes_add_utf8Size, ih]

theorem takeBytes_append (cs ds : List Char) : takeBytes (byteLength cs) (cs ++ ds) = cs := by
  induction cs with
  | nil => simp [takeBytes]
  | cons c cs ih => rw [byteLength_cons, List.cons_append, takeBytes_add_utf8Size, ih]

theorem eq_nil_of_byteLength {cs : List Char} (h : byteLength cs = 0) : cs = [] := by
  rw [← dropBytes_append cs [], h, List.append_nil, dropBytes]

namespace Span

/-- The range lies within the text, between characters, and `part` is what it holds. -/
def Covers (s : Span) (cs part : List Char) : Prop :=
  ∃ before after, cs = before ++ part ++ after ∧
    byteLength before = s.start ∧ byteLength (before ++ part) = s.stop

variable {s : Span} {cs part : List Char}

theorem covers_append (before part after : List Char) :
    Covers ⟨byteLength before, byteLength before + byteLength part⟩ (before ++ part ++ after)
      part :=
  ⟨before, after, rfl, rfl, byteLength_append before part⟩

theorem Covers.slice_eq (h : s.Covers cs part) : s.slice cs = part := by
  obtain ⟨before, after, rfl, hstart, hstop⟩ := h
  have hlength : s.length = byteLength part := by
    rw [byteLength_append] at hstop
    simp only [Span.length]
    omega
  rw [slice, ← hstart, List.append_assoc, dropBytes_append, hlength, takeBytes_append]

theorem Covers.stop_eq (h : s.Covers cs part) : s.stop = s.start + byteLength part := by
  obtain ⟨before, after, -, hstart, hstop⟩ := h
  rw [← hstop, byteLength_append, hstart]

end Span

/-- A number of bytes after which no character is cut. -/
def IsBoundary (cs : List Char) (n : Nat) : Prop :=
  ∃ before after, cs = before ++ after ∧ byteLength before = n

theorem isCharBoundary_iff {n : Nat} {cs : List Char} :
    isCharBoundary n cs = true ↔ IsBoundary cs n := by
  induction cs generalizing n with
  | nil =>
    cases n with
    | zero => exact ⟨fun _ => ⟨[], [], rfl, rfl⟩, fun _ => rfl⟩
    | succ n => simp [isCharBoundary, IsBoundary]
  | cons c cs ih =>
    cases n with
    | zero => exact ⟨fun _ => ⟨[], c :: cs, rfl, rfl⟩, fun _ => rfl⟩
    | succ n =>
      simp only [isCharBoundary, Bool.and_eq_true, decide_eq_true_eq, ih]
      constructor
      · rintro ⟨hsize, before, after, rfl, hbefore⟩
        exact ⟨c :: before, after, rfl, by rw [byteLength_cons]; omega⟩
      · rintro ⟨before, after, hcs, hbefore⟩
        cases before with
        | nil => cases hbefore
        | cons d before =>
          obtain ⟨rfl, rfl⟩ := List.cons.inj hcs
          rw [byteLength_cons] at hbefore
          exact ⟨by omega, before, after, rfl, by omega⟩

theorem floorBoundary_le (cs : List Char) (n : Nat) : floorBoundary cs n ≤ n := by
  induction n with
  | zero => exact Nat.le_refl 0
  | succ n ih =>
    rw [floorBoundary]
    split
    · exact Nat.le_refl _
    · exact Nat.le_succ_of_le ih

theorem isBoundary_floorBoundary (cs : List Char) (n : Nat) :
    IsBoundary cs (floorBoundary cs n) := by
  induction n with
  | zero => exact ⟨[], cs, rfl, rfl⟩
  | succ n ih =>
    rw [floorBoundary]
    split
    · exact isCharBoundary_iff.mp ‹_›
    · exact ih

theorem le_floorBoundary {cs : List Char} {m n : Nat} (hm : IsBoundary cs m) (h : m ≤ n) :
    m ≤ floorBoundary cs n := by
  induction n with
  | zero => exact h
  | succ n ih =>
    rw [floorBoundary]
    split
    · exact h
    · rename_i hnot
      have hne : m ≠ n + 1 := fun heq => hnot (isCharBoundary_iff.mpr (heq ▸ hm))
      exact ih (by omega)

namespace SourceText

/-- The place of a byte is not beyond it. -/
theorem location_offset_le (s : SourceText) (target : Nat) : (s.location target).offset ≤ target :=
  Nat.le_trans (floorBoundary_le _ _) (Nat.min_le_left _ _)

/-- No character starts between a byte and its place. -/
theorem le_location_offset (s : SourceText) {target : Nat} {before after : List Char}
    (hs : s.text.toList = before ++ after) (h : Stencil.byteLength before ≤ target) :
    Stencil.byteLength before ≤ (s.location target).offset := by
  have hlength : s.byteLength = Stencil.byteLength before + Stencil.byteLength after := by
    rw [byteLength, ← byteLength_toList, hs, byteLength_append]
  exact le_floorBoundary ⟨before, after, hs, rfl⟩ (Nat.le_min.mpr ⟨h, by omega⟩)

theorem location_template (s : SourceText) (target : Nat) :
    (s.location target).template = s.name := rfl

end SourceText

end Stencil
