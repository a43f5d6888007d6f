import Mathlib.Data.List.TakeWhile
import Stencil.Filter.Standard

/-!
# Escaped text

A reference is read exactly where one is written, and decoding undoes escaping. A text is escaped
when the characters that HTML gives a meaning stand in it as entities only, and these are the texts
that decoding and escaping leaves as they are.
-/
namespace Stencil

namespace Text.Html

/-- What stands for `&`, `'`, `<`, `>` and `"` in escaped text. -/
def entities : List (List Char) :=
  ["&amp;".toList, "&#39;".toList, "&lt;".toList, "&gt;".toList, "&#34;".toList]

/-- No character of a meaning in HTML but those that begin an entity. -/
structure IsEscaped (cs : List Char) : Prop where
  clean : ∀ c ∈ cs, c ≠ '<' ∧ c ≠ '>' ∧ c ≠ '"' ∧ c ≠ '\''
  entity : ∀ rest, '&' :: rest <:+ cs → ∃ e ∈ entities, e <+: '&' :: rest

theorem escapeChar_eq_self {c : Char} (hamp : c ≠ '&') (hapos : c ≠ '\'') (hlt : c ≠ '<')
    (hgt : c ≠ '>') (hquot : c ≠ '"') : escapeChar c = [c] := by
  simp [escapeChar, hamp, hapos, hlt, hgt, hquot]

/-- Each entity is the escape of a character, and holds no character of a meaning but its first. -/
theorem entity_cases {e : List Char} (h : e ∈ entities) :
    ∃ c body, e = escapeChar c ∧ e = '&' :: body ∧ '&' ∉ body ∧
      ∀ d ∈ body, d ≠ '<' ∧ d ≠ '>' ∧ d ≠ '"' ∧ d ≠ '\'' := by
  simp only [entities, List.mem_cons, List.not_mem_nil, or_false] at h
  rcases h with rfl | rfl | rfl | rfl | rfl
  · exact ⟨'&', ['a', 'm', 'p', ';'], rfl, rfl, by simp, by simp⟩
  · exact ⟨'\'', ['#', '3', '9', ';'], rfl, rfl, by simp, by simp⟩
  · exact ⟨'<', ['l', 't', ';'], rfl, rfl, by simp, by simp⟩
  · exact ⟨'>', ['g', 't', ';'], rfl, rfl, by simp, by simp⟩
  · exact ⟨'"', ['#', '3', '4', ';'], rfl, rfl, by simp, by simp⟩

/-! ### Reading of references -/

/-- How a reference is written after its `&`. -/
inductive Reference.Written : Reference → List Char → Prop where
  | decimal {digits : List Char} (hne : digits ≠ []) (h : ∀ c ∈ digits, c.isDigit = true) :
    Written (.decimal digits) ('#' :: (digits ++ [';']))
  | hexadecimal {x : Char} {digits : List Char} (hx : x = 'x' ∨ x = 'X') (hne : digits ≠ [])
    (h : ∀ c ∈ digits, isHexDigit c = true) :
    Written (.hexadecimal digits) ('#' :: x :: (digits ++ [';']))
  | named {letters : List Char} (hne : letters ≠ []) (h : ∀ c ∈ letters, c.isAlpha = true) :
    Written (.named letters) (letters ++ [';'])

theorem runToSemicolon?_eq_some_iff {p : Char → Bool} (hp : p ';' = false)
    {cs run rest : List Char} :
    runToSemicolon? p cs = some (run, rest) ↔
      run ≠ [] ∧ (∀ c ∈ run, p c = true) ∧ cs = run ++ ';' :: rest := by
  constructor
  · intro h
    simp only [runToSemicolon?] at h
    split at h
    · rename_i c run' rest' htake hdrop
      simp only [Option.some.injEq, Prod.mk.injEq] at h
      obtain ⟨rfl, rfl⟩ := h
      refine ⟨by simp, fun d hd => List.mem_takeWhile_imp (htake ▸ hd), ?_⟩
      rw [← htake, ← hdrop, List.takeWhile_append_dropWhile]
    · cases h
  · rintro ⟨hne, hrun, rfl⟩
    have htake : (run ++ ';' :: rest).takeWhile p = run := by
      simp [List.takeWhile_append_of_pos hrun, hp]
    have hdrop : (run ++ ';' :: rest).dropWhile p = ';' :: rest := by
      simp [List.dropWhile_append_of_pos hrun, hp]
    cases run with
    | nil => exact absurd rfl hne
    | cons c run => simp only [runToSemicolon?, htake, hdrop]

theorem runToSemicolon?_eq_none_of_not {p : Char → Bool} {c : Char} (h : p c = false)
    (cs : List Char) : runToSemicolon? p (c :: cs) = none := by
  simp [runToSemicolon?, h]

/-- A reference is read exactly where one is written. -/
theorem reference?_eq_some_iff {cs rest : List Char} {r : Reference} :
    reference? cs = some (r, rest) ↔ ∃ body, r.Written body ∧ cs = body ++ rest := by
  constructor
  · intro h
    unfold reference? at h
    split at h
    · rename_i digits
      split at h
      · rename_i run rest' hrun
        cases h
        obtain ⟨hne, hdigits, rfl⟩ := (runToSemicolon?_eq_some_iff (by decide)).mp hrun
        exact ⟨_, .decimal hne hdigits, by simp⟩
      · split at h
        · rename_i x digits _
          split at h
          · rename_i hx
            simp only [Option.map_eq_some_iff, Prod.exists, Prod.mk.injEq] at h
            obtain ⟨run, rest', hrun, rfl, rfl⟩ := h
            obtain ⟨hne, hdigits, rfl⟩ := (runToSemicolon?_eq_some_iff (by decide)).mp hrun
            exact ⟨_, .hexadecimal (by simpa using hx) hne hdigits, by simp⟩
          · cases h
        · cases h
    · simp only [Option.map_eq_some_iff, Prod.exists, Prod.mk.injEq] at h
      obtain ⟨run, rest', hrun, rfl, rfl⟩ := h
      obtain ⟨hne, hletters, rfl⟩ := (runToSemicolon?_eq_some_iff (by decide)).mp hrun
      exact ⟨_, .named hne hletters, by simp⟩
  · rintro ⟨body, hbody, rfl⟩
    cases hbody with
    | @decimal digits hne hdigits =>
      have hrun : runToSemicolon? Char.isDigit (digits ++ ';' :: rest) = some (digits, rest) :=
        (runToSemicolon?_eq_some_iff (by decide)).mpr ⟨hne, hdigits, rfl⟩
      simp [reference?, hrun]
    | @hexadecimal x digits hx hne hdigits =>
      have hrun : runToSemicolon? isHexDigit (digits ++ ';' :: rest) = some (digits, rest) :=
        (runToSemicolon?_eq_some_iff (by decide)).mpr ⟨hne, hdigits, rfl⟩
      have hnone : runToSemicolon? Char.isDigit (x :: (digits ++ ';' :: rest)) = none := by
        apply runToSemicolon?_eq_none_of_not
        rcases hx with rfl | rfl <;> decide
      simp [reference?, hrun, hnone, hx]
    | @named letters hne hletters =>
      have hrun : runToSemicolon? Char.isAlpha (letters ++ ';' :: rest) = some (letters, rest) :=
        (runToSemicolon?_eq_some_iff (by decide)).mpr ⟨hne, hletters, rfl⟩
      cases letters with
      | nil => exact absurd rfl hne
      | cons c letters =>
        have hc : c ≠ '#' := by
          rintro rfl
          exact absurd (hletters '#' List.mem_cons_self) (by decide)
        simp only [List.cons_append] at hrun
        simp [reference?, hc, hrun]

/-- A character is escaped by itself or by an entity, which refers to it. -/
theorem escapeChar_cases (c : Char) :
    (escapeChar c = [c] ∧ c ≠ '&' ∧ c ≠ '<' ∧ c ≠ '>' ∧ c ≠ '"' ∧ c ≠ '\'') ∨
      escapeChar c ∈ entities ∧
        ∃ r body, escapeChar c = '&' :: body ∧ Reference.Written r body ∧ r.char? = some c := by
  by_cases hamp : c = '&'
  · subst hamp
    exact .inr ⟨by decide, .named "amp".toList, _, rfl,
      .named (by decide) (List.all_eq_true.mp rfl), rfl⟩
  by_cases hapos : c = '\''
  · subst hapos
    exact .inr ⟨by decide, .decimal "39".toList, _, rfl,
      .decimal (by decide) (List.all_eq_true.mp rfl), rfl⟩
  by_cases hlt : c = '<'
  · subst hlt
    exact .inr ⟨by decide, .named "lt".toList, _, rfl,
      .named (by decide) (List.all_eq_true.mp rfl), rfl⟩
  by_cases hgt : c = '>'
  · subst hgt
    exact .inr ⟨by decide, .named "gt".toList, _, rfl,
      .named (by decide) (List.all_eq_true.mp rfl), rfl⟩
  by_cases hquot : c = '"'
  · subst hquot
    exact .inr ⟨by decide, .decimal "34".toList, _, rfl,
      .decimal (by decide) (List.all_eq_true.mp rfl), rfl⟩
  exact .inl ⟨escapeChar_eq_self hamp hapos hlt hgt hquot, hamp, hlt, hgt, hquot, hapos⟩

/-! ### Decoding -/

theorem unescape_nil : unescape [] = [] := by rw [unescape]

theorem unescape_cons_of_ne {c : Char} (h : c ≠ '&') (cs : List Char) :
    unescape (c :: cs) = c :: unescape cs := by
  rw [unescape, if_neg h]

theorem unescape_of_written {r : Reference} {body : List Char} (h : r.Written body) {d : Char}
    (hd : r.char? = some d) (rest : List Char) :
    unescape ('&' :: body ++ rest) = d :: unescape rest := by
  have hread : reference? (body ++ rest) = some (r, rest) :=
    reference?_eq_some_iff.mpr ⟨body, h, rfl⟩
  rw [List.cons_append, unescape, if_pos rfl]
  split
  · rename_i r' rest' hread'
    obtain ⟨rfl, rfl⟩ := Prod.mk.inj (Option.some.inj (hread.symm.trans hread'))
    rw [hd]
  · rename_i hnone
    rw [hread] at hnone
    cases hnone

/-- Decoding undoes the escape of a character, whatever comes after it. -/
theorem unescape_escapeChar (c : Char) (cs : List Char) :
    unescape (escapeChar c ++ cs) = c :: unescape cs := by
  rcases escapeChar_cases c with ⟨hself, hamp, -⟩ | ⟨-, r, body, hbody, hr, hc⟩
  · rw [hself, List.singleton_append, unescape_cons_of_ne hamp]
  · rw [hbody, unescape_of_written hr hc]

theorem escape_cons (c : Char) (cs : List Char) :
    escape (c :: cs) = escapeChar c ++ escape cs := rfl

theorem unescape_escape (cs : List Char) : unescape (escape cs) = cs := by
  induction cs with
  | nil => exact unescape_nil
  | cons c cs ih => rw [escape_cons, unescape_escapeChar, ih]

namespace IsEscaped

theorem nil : IsEscaped [] := ⟨by simp, by simp⟩

theorem of_suffix {cs ds : List Char} (h : IsEscaped cs) (hds : ds <:+ cs) : IsEscaped ds := by
  constructor
  · intro c hc
    exact h.clean c (hds.subset hc)
  · intro rest hrest
    exact h.entity rest (hrest.trans hds)

/-- A character in a text after others than it stands in that text. -/
theorem suffix_of_not_mem {c : Char} {body cs rest : List Char} (hbody : c ∉ body)
    (h : c :: rest <:+ body ++ cs) : c :: rest <:+ cs := by
  induction body with
  | nil => exact h
  | cons d body ih =>
    simp only [List.mem_cons, not_or] at hbody
    rcases List.suffix_cons_iff.mp h with heq | hlater
    · exact absurd (List.cons.inj heq).1 hbody.1
    · exact ih hbody.2 hlater

theorem escapeChar_append (c : Char) {cs : List Char} (h : IsEscaped cs) :
    IsEscaped (escapeChar c ++ cs) := by
  rcases escapeChar_cases c with ⟨hself, hamp, hclean⟩ | ⟨hentity, -⟩
  · rw [hself, List.singleton_append]
    constructor
    · exact List.forall_mem_cons.mpr ⟨hclean, h.clean⟩
    · intro rest hrest
      rcases List.suffix_cons_iff.mp hrest with heq | hlater
      · exact absurd (List.cons.inj heq).1.symm hamp
      · exact h.entity rest hlater
  · obtain ⟨_, body, -, hbody, hamp, hclean⟩ := entity_cases hentity
    constructor
    · rw [hbody]
      intro d hd
      rcases List.mem_append.mp hd with hd | hd
      · rcases List.mem_cons.mp hd with rfl | hd
        · decide
        · exact hclean d hd
      · exact h.clean d hd
    · intro rest hrest
      rw [hbody, List.cons_append] at hrest
      rcases List.suffix_cons_iff.mp hrest with heq | hlater
      · refine ⟨_, hentity, ?_⟩
        rw [heq, hbody, ← List.cons_append]
        exact List.prefix_append _ _
      · exact h.entity rest (suffix_of_not_mem hamp hlater)

end IsEscaped

theorem isEscaped_escape (cs : List Char) : IsEscaped (escape cs) := by
  induction cs with
  | nil => exact .nil
  | cons c cs ih => exact ih.escapeChar_append c

/-- Escaping undoes the decoding of what is escaped. -/
theorem escape_unescape : ∀ {cs : List Char}, IsEscaped cs → escape (unescape cs) = cs
  | [], _ => by rw [unescape_nil]; rfl
  | c :: cs, h => by
    by_cases hc : c = '&'
    · subst hc
      obtain ⟨e, he, rest, hrest⟩ := h.entity cs (List.suffix_refl _)
      obtain ⟨d, body, hd, hbody, -⟩ := entity_cases he
      have hshorter : rest.length < ('&' :: cs).length := by
        rw [← hrest, hbody]
        simp only [List.length_append, List.length_cons]
        omega
      have hescaped : IsEscaped rest := h.of_suffix (hrest ▸ List.suffix_append _ _)
      rw [← hrest, hd, unescape_escapeChar, escape_cons, escape_unescape hescaped]
    · have hself : escapeChar c = [c] := by
        obtain ⟨hlt, hgt, hquot, hapos⟩ := h.clean c List.mem_cons_self
        exact escapeChar_eq_self hc hapos hlt hgt hquot
      rw [unescape_cons_of_ne hc, escape_cons, hself, List.singleton_append,
        escape_unescape (h.of_suffix (List.suffix_cons c cs))]
termination_by cs => cs.length
decreasing_by
  · exact hshorter
  · exact Nat.lt_succ_self _

/-- The escaped texts are those that decoding and escaping does not change. -/
theorem escapeOnce_eq_self_iff (cs : List Char) : escapeOnce cs = cs ↔ IsEscaped cs := by
  constructor
  · intro h
    rw [← h]
    exact isEscaped_escape _
  · exact escape_unescape

end Text.Html

namespace Filter

theorem onText_call (name : String) (f : List Char → List Char) (v : Value) (named : Bindings) :
    (onText name f).call [v] named =
      .ok (.str (String.ofList (f v.canonical.display.toList))) := by
  simp [call, onText, convertArgs, Shape.convert, textArg, arg, Value.text?]
  rfl

end Filter

namespace Text.Html

/-- Decoding undoes escaping, so that escaping once leaves what is escaped, and nothing else, as it
is. The filters give escaped text for every value. -/
theorem escape_reversible :
    (∀ cs, unescape (escape cs) = cs) ∧
    (∀ cs, escapeOnce (escape cs) = escape cs ∧
      escapeOnce (escapeOnce cs) = escapeOnce cs) ∧
    (∀ cs, IsEscaped (escape cs) ∧ IsEscaped (escapeOnce cs)) ∧
    (∀ cs, escapeOnce cs = cs ↔ IsEscaped cs) ∧
    ∀ (v : Value) (named : Bindings), ∀ f ∈ [Filter.escape, Filter.escapeOnce],
      ∃ s, f.call [v] named = .ok (.str s) ∧ IsEscaped s.toList ∧
        Filter.escapeOnce.call [.str s] named = .ok (.str s) := by
  have honce (cs : List Char) : IsEscaped (escapeOnce cs) := isEscaped_escape (unescape cs)
  refine ⟨unescape_escape, fun cs => ⟨?_, ?_⟩, fun cs => ⟨isEscaped_escape cs, honce cs⟩,
    escapeOnce_eq_self_iff, fun v named f hf => ?_⟩
  · exact (escapeOnce_eq_self_iff _).mpr (isEscaped_escape cs)
  · exact (escapeOnce_eq_self_iff _).mpr (honce cs)
  · obtain ⟨cs, hcall, hescaped⟩ : ∃ cs, f.call [v] named = .ok (.str (String.ofList cs)) ∧
        IsEscaped cs := by
      simp only [List.mem_cons, List.not_mem_nil, or_false] at hf
      rcases hf with rfl | rfl
      · exact ⟨_, Filter.onText_call _ _ v named, isEscaped_escape _⟩
      · exact ⟨_, Filter.onText_call _ _ v named, honce _⟩
    refine ⟨_, hcall, by rwa [String.toList_ofList], ?_⟩
    rw [Filter.escapeOnce, Filter.onText_call]
    simp only [Value.canonical, Value.display, String.toList_ofList]
    rw [(escapeOnce_eq_self_iff cs).mpr hescaped]

/-- A character that is escaped already and one that is not. -/
theorem escape_reversible_of_mixed :
    escapeOnce "&lt;<".toList = "&lt;&lt;".toList ∧
      ∃ s, Filter.escape.call [.str "&lt;<"] [] = .ok (.str s) ∧ IsEscaped s.toList ∧
        Filter.escapeOnce.call [.str s] [] = .ok (.str s) := by
  obtain ⟨-, -, -, -, hfilters⟩ := escape_reversible
  exact ⟨by decide +kernel, hfilters (.str "&lt;<") [] Filter.escape (by simp)⟩

end Text.Html

end Stencil
