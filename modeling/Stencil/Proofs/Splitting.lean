import Stencil.Filter.Standard
import Stencil.Proofs.Matching

/-!
# Splitting and joining

A text that is split and joined by one separator comes back, but for one separator at its end where
the last of the parts between the separators is empty. The pieces hold no separator.
-/
namespace Stencil.Filter

open Text

/-- The last part of a text, between the occurrences of a separator, is empty. A text that is empty
has no such part. -/
def EndsInSeparator (s separator : List Char) : Prop :=
  separator ≠ [] ∧ s ≠ [] ∧
    ∃ parts, Divided (· = separator) s parts ∧ parts.getLast? = some []

theorem intercalate_append_nil {separator : List Char} {parts : List (List Char)}
    (hne : parts ≠ []) :
    separator.intercalate (parts ++ [[]]) = separator.intercalate parts ++ separator := by
  induction parts with
  | nil => exact absurd rfl hne
  | cons part parts ih =>
    cases parts with
    | nil => simp [List.intercalate_cons_cons]
    | cons next parts =>
      have hrest := ih (List.cons_ne_nil next parts)
      simp only [List.cons_append] at hrest
      simp only [List.cons_append, List.intercalate_cons_cons, hrest, List.append_assoc]

theorem intercalate_singletons (s : List Char) :
    List.intercalate [] (s.map ([·])) = s := by
  induction s with
  | nil => rfl
  | cons c s ih =>
    cases s with
    | nil => rfl
    | cons d s => simpa using ih

/-- The pieces for an empty separator are the characters. -/
theorem pieces_nil (s : List Char) : pieces s [] = s.map ([·]) := by
  have hlast : (s.map ([·])).getLast? ≠ some [] := by
    intro h
    obtain ⟨c, -, hc⟩ := List.mem_map.mp (List.mem_of_getLast? h)
    cases hc
  simp only [pieces, hlast, if_false]

/-- The pieces are the parts of the text, without the last one if that is empty. -/
theorem pieces_of_divided {s separator : List Char} (hne : separator ≠ [])
    {parts : List (List Char)} (h : Divided (· = separator) s parts) :
    pieces s separator = if parts.getLast? = some [] then parts.dropLast else parts := by
  cases separator with
  | nil => exact absurd rfl hne
  | cons p piece =>
    rw [h.unique (divided_splitAt p piece s)]
    rfl

theorem exists_divided {separator : List Char} (hne : separator ≠ []) (s : List Char) :
    ∃ parts, Divided (· = separator) s parts := by
  cases separator with
  | nil => exact absurd rfl hne
  | cons p piece => exact ⟨_, divided_splitAt p piece s⟩

/-- No piece holds the separator. -/
theorem pieces_unmatched {s separator : List Char} (hne : separator ≠ []) :
    ∀ piece ∈ pieces s separator, ¬ separator <:+: piece := by
  intro piece hpiece
  obtain ⟨parts, hparts⟩ := exists_divided hne s
  have hmem : piece ∈ parts := by
    rw [pieces_of_divided hne hparts] at hpiece
    split at hpiece
    · exact List.mem_of_mem_dropLast hpiece
    · exact hpiece
  exact hparts.unmatched (by rintro _ rfl; exact hne) piece hmem separator rfl

/-- Joined pieces lack the separator at the end of a text that ends in one. -/
theorem intercalate_pieces_append {s separator : List Char} (h : EndsInSeparator s separator) :
    separator.intercalate (pieces s separator) ++ separator = s := by
  obtain ⟨hne, hs, parts, hparts, hlast⟩ := h
  obtain ⟨init, rfl⟩ := List.getLast?_eq_some_iff.mp hlast
  have hinit : init ≠ [] := by
    rintro rfl
    have hempty := hparts.intercalate
    simp only [List.nil_append, List.intercalate_singleton] at hempty
    exact hs hempty.symm
  rw [pieces_of_divided hne hparts, if_pos hlast, List.dropLast_concat,
    ← intercalate_append_nil hinit, hparts.intercalate]

theorem intercalate_pieces {s separator : List Char} (h : ¬ EndsInSeparator s separator) :
    separator.intercalate (pieces s separator) = s := by
  by_cases hne : separator = []
  · subst hne
    rw [pieces_nil, intercalate_singletons]
  obtain ⟨parts, hparts⟩ := exists_divided hne s
  rw [pieces_of_divided hne hparts]
  split
  · rename_i hlast
    -- only an empty text is left, which has one part and no piece
    have hs : s = [] := by
      by_contra hs
      exact h ⟨hne, hs, parts, hparts, hlast⟩
    subst hs
    have hwhole : Divided (· = separator) [] [[]] := by
      refine .whole ?_
      rintro _ rfl hinfix
      exact hne (List.eq_nil_of_infix_nil hinfix)
    rw [hparts.unique hwhole]
    rfl
  · exact hparts.intercalate

/-- Joining undoes splitting, up to one separator at the end. -/
theorem join_split (s separator : String) (named named' : Bindings) :
    ∃ pieces : List String,
      split.call [.str s, .str separator] named = .ok (.list (pieces.map .str)) ∧
      (separator ≠ "" → ∀ piece ∈ pieces, ¬ separator.toList <:+: piece.toList) ∧
      ∃ t, join.call [.list (pieces.map .str), .str separator] named' = .ok (.str t) ∧
        (EndsInSeparator s.toList separator.toList → t ++ separator = s) ∧
        (¬ EndsInSeparator s.toList separator.toList → t = s) := by
  let found := pieces s.toList separator.toList
  have hsplit : split.call [.str s, .str separator] named =
      .ok (.list ((found.map String.ofList).map .str)) := by
    rw [List.map_map]
    rfl
  have hjoin : join.call [.list ((found.map String.ofList).map .str), .str separator] named' =
      .ok (.str (String.intercalate separator
        (((found.map String.ofList).map Value.str).map Value.display))) := rfl
  have htext : (String.intercalate separator
      (((found.map String.ofList).map Value.str).map Value.display)).toList =
        separator.toList.intercalate found := by
    simp [Function.comp_def, Value.display]
  refine ⟨found.map String.ofList, hsplit, fun hne piece hpiece => ?_, _, hjoin,
    fun h => ?_, fun h => ?_⟩
  · obtain ⟨cs, hcs, rfl⟩ := List.mem_map.mp hpiece
    rw [String.toList_ofList]
    exact pieces_unmatched (by simpa using hne) cs hcs
  · rw [← String.toList_inj, String.toList_append, htext]
    exact intercalate_pieces_append h
  · rw [← String.toList_inj, htext]
    exact intercalate_pieces h

end Stencil.Filter
