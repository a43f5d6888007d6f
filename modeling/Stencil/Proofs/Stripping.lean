import Mathlib.Data.List.Forall2
import Stencil.Proofs.Escaping
import Stencil.Proofs.Matching

/-!
# Text without tags

What is left of a text are the parts between its tags, and together they hold no tag either: behind
a `<` that is left no `>` stands on its line, and none comes there from another line, since no tag
reaches over the end of a line. So every line stays a line of its own, and a second pass finds
nothing to remove.
-/
namespace Stencil

namespace Text.Html

/-- What reaches from a `<` to a `>` within one line. -/
def IsTag (m : List Char) : Prop := ∃ body, '\n' ∉ body ∧ m = '<' :: body ++ ['>']

theorem unmatched_isTag_nil : Unmatched IsTag [] := by
  rintro _ ⟨body, -, rfl⟩ hinfix
  cases List.eq_nil_of_infix_nil hinfix

/-! ### The end of a tag -/

theorem afterTag?_eq_some {cs rest : List Char} (h : afterTag? cs = some rest) :
    ∃ body, '>' ∉ body ∧ '\n' ∉ body ∧ cs = body ++ '>' :: rest := by
  induction cs with
  | nil => cases h
  | cons c cs ih =>
    simp only [afterTag?] at h
    split at h
    · rename_i hc
      cases h
      exact ⟨[], by simp, by simp, by rw [hc]; rfl⟩
    · rename_i hclose
      split at h
      · cases h
      · rename_i hnewline
        obtain ⟨body, hbody, hline, rfl⟩ := ih h
        exact ⟨c :: body, by simp [hbody, Ne.symm hclose], by simp [hline, Ne.symm hnewline], rfl⟩

theorem afterTag?_isSome {body : List Char} (hline : '\n' ∉ body) (rest : List Char) :
    (afterTag? (body ++ '>' :: rest)).isSome = true := by
  induction body with
  | nil => rfl
  | cons c body ih =>
    obtain ⟨hc, hbody⟩ := not_or.mp (mt List.mem_cons.mpr hline)
    simp only [List.cons_append, afterTag?, Ne.symm hc, if_false]
    split
    · rfl
    · exact ih hbody

/-- Without a `<`, or without its end, no tag begins. -/
theorem not_isTag_at_front {c : Char} {cs : List Char} (h : c = '<' → afterTag? cs = none) :
    ∀ m, IsTag m → ¬ m <+: c :: cs := by
  rintro _ ⟨body, hline, rfl⟩ ⟨rest, heq⟩
  simp only [List.cons_append, List.append_assoc, List.nil_append, List.cons.injEq] at heq
  obtain ⟨rfl, rfl⟩ := heq
  have hend := afterTag?_isSome hline rest
  rw [h rfl] at hend
  cases hend

/-- A tag ends at the first `>` after its `<`. -/
theorem firstMatch_isTag {body : List Char} (hclose : '>' ∉ body) (hline : '\n' ∉ body)
    (rest : List Char) : FirstMatch IsTag [] ('<' :: body ++ ['>']) rest := by
  refine .at_front ⟨body, hline, rfl⟩ ?_
  rintro _ ⟨other, -, rfl⟩ ⟨tail, heq⟩
  have hbodies : other ++ '>' :: tail = body ++ '>' :: rest := by simpa using heq
  have hlength : body.length ≤ other.length := by
    rcases List.append_eq_append_iff.mp hbodies with ⟨more, rfl, hmore⟩ | ⟨more, rfl, -⟩
    · cases more with
      | nil => simp
      | cons c more =>
        obtain ⟨rfl, -⟩ := List.cons.inj hmore
        exact absurd (by simp) hclose
    · simp
  simpa using hlength

/-! ### Removal -/

theorem stripTags_nil : stripTags [] = [] := by rw [stripTags]

theorem stripTags_tag {cs rest : List Char} (h : afterTag? cs = some rest) :
    stripTags ('<' :: cs) = stripTags rest := by
  rw [stripTags, if_pos rfl]
  split
  · rename_i rest' hrest
    cases h.symm.trans hrest
    rfl
  · rename_i hnone
    cases h.symm.trans hnone

theorem stripTags_kept {c : Char} {cs : List Char} (h : c = '<' → afterTag? cs = none) :
    stripTags (c :: cs) = c :: stripTags cs := by
  rw [stripTags]
  split
  · rename_i hc
    split
    · rename_i hrest
      cases (h hc).symm.trans hrest
    · rfl
  · rfl

/-- A text is empty, begins with a tag, or begins with a character that is kept. -/
theorem stripTags_induction {motive : List Char → Prop} (nil : motive [])
    (tag : ∀ cs rest, afterTag? cs = some rest → stripTags ('<' :: cs) = stripTags rest →
      motive rest → motive ('<' :: cs))
    (kept : ∀ c cs, (c = '<' → afterTag? cs = none) → stripTags (c :: cs) = c :: stripTags cs →
      motive cs → motive (c :: cs)) (cs : List Char) : motive cs := by
  fun_induction stripTags cs with
  | case1 => exact nil
  | case2 cs rest hafter ih => exact tag cs rest hafter (stripTags_tag hafter) ih
  | case3 cs hnone ih => exact kept '<' cs (fun _ => hnone) (stripTags_kept fun _ => hnone) ih
  | case4 c cs hc ih =>
    have hkept : c = '<' → afterTag? cs = none := fun h => absurd h hc
    exact kept c cs hkept (stripTags_kept hkept) ih

/-- The parts between the tags are what is left. -/
theorem exists_divided_stripTags (cs : List Char) :
    ∃ parts, Divided IsTag cs parts ∧ stripTags cs = parts.flatten := by
  induction cs using stripTags_induction with
  | nil => exact ⟨[[]], .whole unmatched_isTag_nil, stripTags_nil⟩
  | tag cs rest hafter heq ih =>
    obtain ⟨parts, hparts, hrest⟩ := ih
    obtain ⟨body, hclose, hline, rfl⟩ := afterTag?_eq_some hafter
    exact ⟨[] :: parts, .cut (by simp) (firstMatch_isTag hclose hline rest) hparts,
      heq.trans hrest⟩
  | kept c cs hc heq ih =>
    obtain ⟨parts, hparts, hcs⟩ := ih
    obtain ⟨part, parts, rfl⟩ := List.exists_cons_of_ne_nil hparts.ne_nil
    exact ⟨_, hparts.cons (not_isTag_at_front hc), by rw [heq, hcs]; rfl⟩

theorem stripTags_of_unmatched {cs : List Char} (h : Unmatched IsTag cs) : stripTags cs = cs := by
  obtain ⟨parts, hparts, heq⟩ := exists_divided_stripTags cs
  rw [heq, hparts.unique (.whole h), List.flatten_singleton]

/-- A line without a `>` gets none. -/
theorem afterTag?_stripTags {cs : List Char} (h : afterTag? cs = none) :
    afterTag? (stripTags cs) = none := by
  induction cs with
  | nil => rwa [stripTags_nil]
  | cons c cs ih =>
    simp only [afterTag?] at h
    split at h
    · cases h
    · rename_i hclose
      split at h
      · rename_i hnewline
        rw [stripTags_kept (by simp [hnewline]), afterTag?, if_neg hclose, if_pos hnewline]
      · rename_i hnewline
        rw [stripTags_kept fun _ => h, afterTag?, if_neg hclose, if_neg hnewline]
        exact ih h

/-- No tag is left, and none comes about. -/
theorem unmatched_stripTags (cs : List Char) : Unmatched IsTag (stripTags cs) := by
  induction cs using stripTags_induction with
  | nil =>
    rw [stripTags_nil]
    exact unmatched_isTag_nil
  | tag cs rest _ heq ih => rwa [heq]
  | kept c cs hc heq ih =>
    rw [heq]
    exact ih.cons (not_isTag_at_front fun h => afterTag?_stripTags (hc h))

/-! ### Lines -/

theorem stripTags_sublist (cs : List Char) : (stripTags cs).Sublist cs := by
  induction cs using stripTags_induction with
  | nil => rw [stripTags_nil]
  | tag cs rest hafter heq ih =>
    obtain ⟨body, -, -, rfl⟩ := afterTag?_eq_some hafter
    rw [heq]
    have hrest : rest.Sublist ('<' :: body ++ '>' :: rest) :=
      ((List.suffix_cons '>' rest).trans (List.suffix_append _ _)).sublist
    exact ih.trans hrest
  | kept c cs _ heq ih =>
    rw [heq]
    exact ih.cons_cons c

theorem filter_newline_stripTags (cs : List Char) :
    (stripTags cs).filter (· = '\n') = cs.filter (· = '\n') := by
  induction cs using stripTags_induction with
  | nil => rw [stripTags_nil]
  | tag cs rest hafter heq ih =>
    obtain ⟨body, -, hline, rfl⟩ := afterTag?_eq_some hafter
    have hbody : body.filter (· = '\n') = [] := by
      simp only [List.filter_eq_nil_iff, decide_eq_true_eq]
      rintro c hc rfl
      exact hline hc
    rw [heq, ih]
    simp [hbody]
  | kept c cs _ heq ih => rw [heq, List.filter_cons, List.filter_cons, ih]

theorem afterTag?_append_newline (a b : List Char) :
    afterTag? (a ++ '\n' :: b) = (afterTag? a).map (· ++ '\n' :: b) := by
  induction a with
  | nil => rfl
  | cons c a ih =>
    simp only [List.cons_append, afterTag?]
    split
    · rfl
    · split
      · rfl
      · exact ih

/-- What is removed from a line does not depend on those after it. -/
theorem stripTags_append_newline (a b : List Char) :
    stripTags (a ++ '\n' :: b) = stripTags a ++ '\n' :: stripTags b := by
  induction a using stripTags_induction with
  | nil => rw [stripTags_nil, List.nil_append, List.nil_append, stripTags_kept (by simp)]
  | tag cs rest hafter heq ih =>
    have hmore : afterTag? (cs ++ '\n' :: b) = some (rest ++ '\n' :: b) := by
      rw [afterTag?_append_newline, hafter, Option.map_some]
    rw [heq, List.cons_append, stripTags_tag hmore, ih]
  | kept c cs hc heq ih =>
    have hmore (h : c = '<') : afterTag? (cs ++ '\n' :: b) = none := by
      rw [afterTag?_append_newline, hc h, Option.map_none]
    rw [heq, List.cons_append, List.cons_append, stripTags_kept hmore, ih]

/-- Without its tags a text has the same lines, each without its tags. -/
theorem divided_stripTags {cs : List Char} {lines : List (List Char)}
    (h : Divided (· = ['\n']) cs lines) :
    Divided (· = ['\n']) (stripTags cs) (lines.map stripTags) := by
  have hline {line : List Char} (h : Unmatched (· = ['\n']) line) : '\n' ∉ stripTags line :=
    fun hmem => unmatched_singleton_iff.mp h ((stripTags_sublist line).subset hmem)
  induction h with
  | whole h => exact .whole (unmatched_singleton_iff.mpr (hline h))
  | @cut cs before m after lines hcs hfirst _ ih =>
    have hbefore : Unmatched (· = ['\n']) before := hfirst.unmatched (by simp)
    obtain rfl : m = ['\n'] := hfirst.isMatch
    rw [hcs, List.append_assoc, List.singleton_append, stripTags_append_newline]
    exact .cut (by simp) (firstMatch_singleton (hline hbefore)) ih

end Text.Html

namespace Filter

open Text Text.Html

/-- Removing tags leaves a text without tags, with the same newlines, of which each line is what is
left of a line of the text, and which is not changed by removing tags again. -/
theorem stripHtml_tagless (s : String) (named : Bindings) :
    ∃ t : String, stripHtml.call [.str s] named = .ok (.str t) ∧
      (∃ parts, Divided IsTag s.toList parts ∧ t.toList = parts.flatten) ∧
      Unmatched IsTag t.toList ∧
      t.toList.filter (· = '\n') = s.toList.filter (· = '\n') ∧
      (∃ lines kept, Divided (· = ['\n']) s.toList lines ∧ Divided (· = ['\n']) t.toList kept ∧
        List.Forall₂ List.Sublist kept lines) ∧
      ∀ named', stripHtml.call [.str t] named' = .ok (.str t) := by
  have hcall (s : String) (named : Bindings) :
      stripHtml.call [.str s] named = .ok (.str (String.ofList (stripTags s.toList))) :=
    onText_call "strip_html" stripTags (.str s) named
  let lines := splitAt '\n' [] s.toList
  have hlines : Divided (· = ['\n']) s.toList lines := divided_splitAt '\n' [] s.toList
  refine ⟨_, hcall s named, ?_, ?_, ?_, ⟨lines, lines.map stripTags, hlines, ?_, ?_⟩,
    fun named' => ?_⟩
  · rw [String.toList_ofList]
    exact exists_divided_stripTags s.toList
  · rw [String.toList_ofList]
    exact unmatched_stripTags s.toList
  · rw [String.toList_ofList]
    exact filter_newline_stripTags s.toList
  · rw [String.toList_ofList]
    exact divided_stripTags hlines
  · rw [List.forall₂_map_left_iff]
    exact List.forall₂_same.mpr fun line _ => stripTags_sublist line
  · rw [hcall, String.toList_ofList, stripTags_of_unmatched (unmatched_stripTags s.toList)]

end Filter

end Stencil
