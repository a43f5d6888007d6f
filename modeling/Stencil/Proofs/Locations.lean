import Mathlib.Data.List.GetD
import Mathlib.Data.List.Induction
import Mathlib.Data.Prod.Lex
import Mathlib.Order.Bounds.Basic
import Mathlib.Order.MinMax
import Stencil.Proofs.Spans

/-!
# Places of bytes

The place that is stated for a byte is the last character boundary up to it, with the newlines
before that boundary and the characters since the last of them counted. The line is searched for in
the index, which holds the starts of the lines in their order. Line and column name the boundary,
and they are ordered like the boundaries.
-/
namespace Stencil

/-! ### Binary search -/

section

variable {before later : List Nat} {n last : Nat}

theorem getD_append_lt_iff (hbefore : ∀ m ∈ before, m < n) (hlater : ∀ m ∈ later, n ≤ m) {i : Nat}
    (h : i < (before ++ later).length) : (before ++ later).getD i 0 < n ↔ i < before.length := by
  rw [List.getD_eq_getElem _ _ h, List.getElem_append]
  split
  · rename_i hi
    exact iff_of_true (hbefore _ (List.getElem_mem _)) hi
  · rename_i hi
    exact iff_of_false (not_lt.mpr (hlater _ (List.getElem_mem _))) hi

/-- The limits stay on both sides of the place at which the lesser numbers end, and meet there. -/
theorem lowerBound_append (hbefore : ∀ m ∈ before, m < n) (hlater : ∀ m ∈ later, n ≤ m)
    {low high : Nat} (hlow : low ≤ before.length) (hhigh : before.length ≤ high)
    (hlength : high ≤ (before ++ later).length) :
    lowerBound (before ++ later) n low high = before.length := by
  fun_induction lowerBound (before ++ later) n low high with
  | case1 low high hlt middle hless ih =>
    have hmiddle : middle < before.length :=
      (getD_append_lt_iff hbefore hlater (by omega)).mp hless
    exact ih hmiddle hhigh hlength
  | case2 low high hlt middle hnot ih =>
    have hmiddle : ¬ middle < before.length :=
      (getD_append_lt_iff hbefore hlater (by omega)).not.mp hnot
    exact ih hlow (not_lt.mp hmiddle) (by omega)
  | case3 low high hge => omega

theorem binarySearch_eq_ok (hbefore : ∀ m ∈ before, m < n) (hlater : ∀ m ∈ later, n < m) :
    binarySearch (before ++ n :: later) n = .ok before.length := by
  have hbound : lowerBound (before ++ n :: later) n 0 (before ++ n :: later).length =
      before.length :=
    lowerBound_append hbefore (List.forall_mem_cons.mpr ⟨le_rfl, fun m hm => (hlater m hm).le⟩)
      (Nat.zero_le _) (by simp) le_rfl
  have hfound : (before ++ n :: later)[before.length]? = some n := by simp
  simp only [binarySearch, hbound, if_pos hfound]

theorem binarySearch_eq_error (hbefore : ∀ m ∈ before, m < n) (hlater : ∀ m ∈ later, n < m) :
    binarySearch (before ++ later) n = .error before.length := by
  have hbound : lowerBound (before ++ later) n 0 (before ++ later).length = before.length :=
    lowerBound_append hbefore (fun m hm => (hlater m hm).le) (Nat.zero_le _) (by simp) le_rfl
  have hmissing : (before ++ later)[before.length]? ≠ some n := by
    intro hfound
    rw [List.getElem?_append_right le_rfl] at hfound
    exact lt_irrefl n (hlater n (List.mem_of_getElem? hfound))
  simp only [binarySearch, hbound, if_neg hmissing]

/-- Both outcomes of the search give the last line that starts up to an offset. -/
theorem lineIndex_append (hsorted : (before ++ last :: later).Pairwise (· < ·)) (hlast : last ≤ n)
    (hlater : ∀ m ∈ later, n < m) :
    SourceText.lineIndex (before ++ last :: later) n = before.length := by
  have hbefore : ∀ m ∈ before, m < last := fun m hm =>
    (List.pairwise_append.mp hsorted).2.2 m hm last List.mem_cons_self
  rcases Nat.eq_or_lt_of_le hlast with rfl | hlt
  · rw [SourceText.lineIndex, binarySearch_eq_ok hbefore hlater]
  · have hupto : ∀ m ∈ before ++ [last], m < n := by
      intro m hm
      rcases List.mem_append.mp hm with hm | hm
      · exact (hbefore m hm).trans hlt
      · rwa [List.mem_singleton.mp hm]
    rw [SourceText.lineIndex, List.append_cons, binarySearch_eq_error hupto hlater]
    simp

end

/-! ### The line index -/

/-- The characters after the last newline. -/
def lastLine (cs : List Char) : List Char := (cs.reverse.takeWhile (· ≠ '\n')).reverse

theorem lastLine_newline (cs : List Char) : lastLine (cs ++ ['\n']) = [] := by simp [lastLine]

theorem lastLine_append {cs ds : List Char} (h : '\n' ∉ ds) :
    lastLine (cs ++ ds) = lastLine cs ++ ds := by
  have hds : ∀ c ∈ ds.reverse, decide (c ≠ '\n') = true := by
    intro c hc
    have hne : c ≠ '\n' := fun hc' => h (hc' ▸ List.mem_reverse.mp hc)
    simp [hne]
  rw [lastLine, List.reverse_append, List.takeWhile_append_of_pos hds, List.reverse_append,
    List.reverse_reverse, lastLine]

namespace SourceText

theorem lineStartsFrom_append (offset : Nat) (cs ds : List Char) :
    lineStartsFrom offset (cs ++ ds) =
      lineStartsFrom offset cs ++ lineStartsFrom (offset + Stencil.byteLength cs) ds := by
  induction cs generalizing offset with
  | nil => rfl
  | cons c cs ih =>
    simp only [List.cons_append, lineStartsFrom, ih, byteLength_cons, Nat.add_assoc]
    split <;> rfl

theorem mem_lineStartsFrom {offset m : Nat} {cs : List Char} (h : m ∈ lineStartsFrom offset cs) :
    offset < m ∧ m ≤ offset + Stencil.byteLength cs := by
  induction cs generalizing offset with
  | nil => cases h
  | cons c cs ih =>
    have hsize : 0 < c.utf8Size := c.utf8Size_pos
    simp only [lineStartsFrom] at h
    rw [byteLength_cons]
    split at h
    · rcases List.mem_cons.mp h with rfl | h
      · omega
      · have := ih h
        omega
    · have := ih h
      omega

theorem pairwise_lineStartsFrom (offset : Nat) (cs : List Char) :
    (offset :: lineStartsFrom offset cs).Pairwise (· < ·) := by
  refine List.pairwise_cons.mpr ⟨fun m hm => (mem_lineStartsFrom hm).1, ?_⟩
  induction cs generalizing offset with
  | nil => exact .nil
  | cons c cs ih =>
    simp only [lineStartsFrom]
    split
    · exact List.pairwise_cons.mpr ⟨fun m hm => (mem_lineStartsFrom hm).1, ih _⟩
    · exact ih _

theorem length_lineStartsFrom (offset : Nat) (cs : List Char) :
    (lineStartsFrom offset cs).length = cs.count '\n' := by
  induction cs generalizing offset with
  | nil => rfl
  | cons c cs ih =>
    simp only [lineStartsFrom]
    split
    · rename_i hc
      simp [ih, hc]
    · rename_i hc
      simp [ih, hc]

/-- The last start of a line is that of the last line. -/
theorem exists_lineStart (cs : List Char) : ∃ lines starts, cs = lines ++ lastLine cs ∧
    0 :: lineStartsFrom 0 cs = starts ++ [Stencil.byteLength lines] := by
  induction cs using List.reverseRecOn with
  | nil => exact ⟨[], [], rfl, rfl⟩
  | append_singleton cs c ih =>
    obtain ⟨lines, starts, hcs, hstarts⟩ := ih
    by_cases hc : c = '\n'
    · subst hc
      refine ⟨cs ++ ['\n'], 0 :: lineStartsFrom 0 cs, by simp [lastLine_newline], ?_⟩
      simp [lineStartsFrom_append, lineStartsFrom]
    · have hlast : lastLine (cs ++ [c]) = lastLine cs ++ [c] :=
        lastLine_append (by simpa [eq_comm] using hc)
      refine ⟨lines, starts, by rw [hlast, ← List.append_assoc, ← hcs], ?_⟩
      simp [lineStartsFrom_append, lineStartsFrom, hc, hstarts]

/-- The place of a byte is the end of a part of the text. -/
theorem location_eq (s : SourceText) (target : Nat) :
    ∃ before after, s.text.toList = before ++ after ∧ s.location target =
      ⟨s.name, 1 + before.count '\n', 1 + (lastLine before).length,
        Stencil.byteLength before⟩ := by
  obtain ⟨before, after, htext, hoffset⟩ :=
    isBoundary_floorBoundary s.text.toList (min target s.byteLength)
  refine ⟨before, after, htext, ?_⟩
  obtain ⟨lines, starts, hbefore, hstarts⟩ := exists_lineStart before
  have hindex : s.lineStarts = starts ++ Stencil.byteLength lines ::
      lineStartsFrom (Stencil.byteLength before) after := by
    rw [lineStarts, htext, lineStartsFrom_append, ← List.cons_append, hstarts, Nat.zero_add,
      List.append_assoc, List.singleton_append]
  have hline : lineIndex s.lineStarts (Stencil.byteLength before) = starts.length := by
    have hsorted : s.lineStarts.Pairwise (· < ·) := pairwise_lineStartsFrom 0 s.text.toList
    rw [hindex] at hsorted ⊢
    refine lineIndex_append hsorted ?_ fun m hm => (mem_lineStartsFrom hm).1
    rw [hbefore, byteLength_append]
    exact Nat.le_add_right _ _
  have hcount : starts.length = before.count '\n' := by
    have hlength := congrArg List.length hstarts
    simpa [length_lineStartsFrom] using hlength.symm
  have hstart : s.lineStarts.getD starts.length 0 = Stencil.byteLength lines := by
    simp [hindex]
  have hcolumn : Span.slice ⟨Stencil.byteLength lines, Stencil.byteLength before⟩ s.text.toList =
      lastLine before := by
    have hcovers := Span.covers_append lines (lastLine before) after
    rw [← hbefore, ← htext, ← byteLength_append, ← hbefore] at hcovers
    exact hcovers.slice_eq
  simp only [location, ← hoffset, hline, hstart, hcolumn]
  rw [hcount, Nat.add_comm 1, Nat.add_comm 1]

end SourceText

/-! ### Order -/

def Location.coordinates (l : Location) : Nat ×ₗ Nat := toLex (l.line, l.column)

theorem coordinates_lt {p r : List Char} (h : r ≠ []) :
    toLex (1 + p.count '\n', 1 + (lastLine p).length) <
      toLex (1 + (p ++ r).count '\n', 1 + (lastLine (p ++ r)).length) := by
  rw [Prod.Lex.toLex_lt_toLex]
  by_cases hr : '\n' ∈ r
  · left
    have hcount : 0 < r.count '\n' := List.count_pos_iff.mpr hr
    simp only [List.count_append]
    omega
  · right
    have hcount : r.count '\n' = 0 := List.count_eq_zero.mpr hr
    have hlength : 0 < r.length := List.length_pos_iff.mpr h
    simp only [List.count_append, lastLine_append hr, List.length_append]
    omega

namespace SourceText

theorem isGreatest_location_offset (s : SourceText) (target : Nat) :
    IsGreatest {n | IsBoundary s.text.toList n ∧ n ≤ min target s.byteLength}
      (s.location target).offset :=
  ⟨⟨isBoundary_floorBoundary _ _, floorBoundary_le _ _⟩, fun _ hn => le_floorBoundary hn.1 hn.2⟩

theorem location_offset_mono (s : SourceText) {t u : Nat} (h : t ≤ u) :
    (s.location t).offset ≤ (s.location u).offset := by
  obtain ⟨hboundary, ht⟩ := (s.isGreatest_location_offset t).1
  exact (s.isGreatest_location_offset u).2
    ⟨hboundary, le_trans ht (min_le_min_right s.byteLength h)⟩

theorem coordinates_lt_of_offset_lt (s : SourceText) {t u : Nat}
    (h : (s.location t).offset < (s.location u).offset) :
    (s.location t).coordinates < (s.location u).coordinates := by
  obtain ⟨p, p', hp, ht⟩ := s.location_eq t
  obtain ⟨q, q', hq, hu⟩ := s.location_eq u
  have hbytes : Stencil.byteLength p < Stencil.byteLength q := by rwa [ht, hu] at h
  rw [ht, hu]
  rcases List.append_eq_append_iff.mp (hp.symm.trans hq) with ⟨r, rfl, -⟩ | ⟨r, rfl, -⟩
  · apply coordinates_lt
    rintro rfl
    rw [List.append_nil] at hbytes
    exact lt_irrefl _ hbytes
  · rw [byteLength_append] at hbytes
    omega

theorem location_eq_of_offset_eq (s : SourceText) {t u : Nat}
    (h : (s.location t).offset = (s.location u).offset) : s.location t = s.location u := by
  obtain ⟨p, p', hp, ht⟩ := s.location_eq t
  obtain ⟨q, q', hq, hu⟩ := s.location_eq u
  have hbytes : Stencil.byteLength p = Stencil.byteLength q := by simpa [ht, hu] using h
  have hpq : p = q := by
    calc p = takeBytes (Stencil.byteLength p) s.text.toList := by rw [hp, takeBytes_append]
      _ = takeBytes (Stencil.byteLength q) s.text.toList := by rw [hbytes]
      _ = q := by rw [hq, takeBytes_append]
  rw [ht, hu, hpq]

/-- Boundaries are ordered like the lines and columns that name them. -/
theorem coordinates_lt_iff (s : SourceText) (t u : Nat) :
    (s.location t).coordinates < (s.location u).coordinates ↔
      (s.location t).offset < (s.location u).offset := by
  refine ⟨fun h => ?_, s.coordinates_lt_of_offset_lt⟩
  rcases lt_trichotomy (s.location t).offset (s.location u).offset with hlt | heq | hgt
  · exact hlt
  · rw [s.location_eq_of_offset_eq heq] at h
    exact (lt_irrefl _ h).elim
  · exact (lt_asymm h (s.coordinates_lt_of_offset_lt hgt)).elim

/-- A byte is placed at the last boundary up to it. The line counts the newlines before this
boundary, the column the characters after the last of them, so that both together name the boundary
and are ordered as it is. -/
theorem location_exact (s : SourceText) :
    (∀ target, ∃ before after, s.text.toList = before ++ after ∧
      IsGreatest {n | IsBoundary s.text.toList n ∧ n ≤ min target s.byteLength}
        (Stencil.byteLength before) ∧
      s.location target = ⟨s.name, 1 + before.count '\n', 1 + (lastLine before).length,
        Stencil.byteLength before⟩) ∧
    (∀ t u, (s.location t).coordinates = (s.location u).coordinates →
      (s.location t).offset = (s.location u).offset) ∧
    (∀ t u, t ≤ u → (s.location t).offset ≤ (s.location u).offset ∧
      (s.location t).coordinates ≤ (s.location u).coordinates) ∧
    ∀ t u, (s.location t).coordinates < (s.location u).coordinates ↔
      (s.location t).offset < (s.location u).offset := by
  refine ⟨fun target => ?_, fun t u h => ?_, fun t u h => ?_, s.coordinates_lt_iff⟩
  · obtain ⟨before, after, htext, hlocation⟩ := s.location_eq target
    have hgreatest := s.isGreatest_location_offset target
    rw [hlocation] at hgreatest
    exact ⟨before, after, htext, hgreatest, hlocation⟩
  · have htu := (s.coordinates_lt_iff t u).not.mp h.not_lt
    have hut := (s.coordinates_lt_iff u t).not.mp h.not_gt
    omega
  · have hoffset := s.location_offset_mono h
    exact ⟨hoffset, not_lt.mp ((s.coordinates_lt_iff u t).not.mpr (not_lt.mpr hoffset))⟩

/-- A byte inside a character of the first line, and one past the end of the second. -/
theorem location_exact_of_two_lines :
    let s : SourceText := { text := "é\nb" }
    s.location 1 = ⟨none, 1, 1, 0⟩ ∧ s.location 9 = ⟨none, 2, 2, 4⟩ ∧
      (s.location 1).coordinates < (s.location 9).coordinates ∧
      (s.location 1).offset ≤ (s.location 9).offset := by
  intro s
  have hfirst : s.location 1 = ⟨none, 1, 1, 0⟩ := by decide +kernel
  have hlast : s.location 9 = ⟨none, 2, 2, 4⟩ := by decide +kernel
  obtain ⟨-, -, hmono, hiff⟩ := s.location_exact
  refine ⟨hfirst, hlast, (hiff 1 9).mpr ?_, (hmono 1 9 (by decide)).1⟩
  rw [hfirst, hlast]
  decide

end SourceText

end Stencil
