import Mathlib
import Stencil.Proofs.Scanning

/-!
# Quotes without a match

Markup is read as it would be in a longer text exactly if the longer text matches none of its loose
quotes: those that count for nothing because no quote of their kind follows, and no markup either.
-/
namespace Stencil

namespace Markup

/-- Whether a quote before these characters counts for nothing, but could be matched by one that
comes after them. -/
def isLoose (c : Char) (cs : List Char) : Bool :=
  (c = '"' || c = '\'') && c ∉ cs && (opening? cs).isNone

/-- The loose quotes that are passed on the way to the closing delimiter. -/
def looseQuotes (d : Delimiter) (quotes : Bool) : Option Char → List Char → List Char
  | _, [] => []
  | some q, c :: cs => looseQuotes d quotes (if c = q then none else some q) cs
  | none, c :: cs =>
    if quotes && opensQuote c cs then looseQuotes d quotes (some c) cs
    else if c = d.closer ∧ cs.head? = some '}' then []
    else if quotes && isLoose c cs then c :: looseQuotes d quotes none cs
    else looseQuotes d quotes none cs

/-- What stands after an opening delimiter and its dash. -/
def afterDash (cs : List Char) : List Char := if cs.head? = some '-' then cs.tail else cs

/-- The loose quotes of markup whose opening delimiter has just been read. -/
def looseAfter (d : Delimiter) (cs : List Char) : List Char :=
  looseQuotes d (!(d = .tag && isComment (afterDash cs))) none (afterDash cs)

/-- What markup was read from, without its opening delimiter. -/
def afterOpening (m : Markup) : List Char :=
  dash m.trimBefore ++ m.inner ++ dash m.trimAfter ++ m.delimiter.closing.toList

/-- The quotes that markup at the end of a template leaves without a match. -/
def loose (m : Markup) : List Char := looseAfter m.delimiter m.afterOpening

theorem text_eq (m : Markup) : m.text = m.delimiter.opening.toList ++ m.afterOpening := by
  simp [text, afterOpening]

variable {d : Delimiter} {quotes : Bool} {quoted : Option Char} {c : Char}
  {cs ds body rest before : List Char} {pos : Nat} {m : Markup} {endTag : String}

/-- A text in which markup opens. -/
def Opens (cs : List Char) : Prop := ∃ d : Delimiter, d.opening.toList <:+: cs

theorem Opens.of_infix (h : Opens cs) (hds : cs <:+: ds) : Opens ds :=
  h.imp fun _ hd => hd.trans hds

theorem opening?_isSome_iff : (opening? cs).isSome ↔ Opens cs := by
  constructor
  · intro h
    obtain ⟨⟨before, d, rest⟩, hfound⟩ := Option.isSome_iff_exists.mp h
    exact ⟨d, before, rest, (opening?_eq_some hfound).1.symm⟩
  · rintro ⟨d, before, rest, hcs⟩
    rw [Option.isSome_iff_ne_none]
    intro hnone
    -- no delimiter starts within a text that has none
    have hplain := opening?_eq_none hnone d before rest (by rw [List.append_nil, hcs])
    have hlength := congrArg List.length hcs
    obtain ⟨o, ho⟩ := toList_opening d
    simp only [ho, List.length_append, List.length_cons, List.length_nil] at hlength
    omega

theorem opensQuote_iff : opensQuote c cs ↔
    (c = '"' ∨ c = '\'') ∧ c ∈ cs ∧ ¬ Opens (cs.takeWhile (· ≠ c)) := by
  rw [← opening?_isSome_iff]
  simp [opensQuote, and_assoc]

theorem isLoose_iff : isLoose c cs ↔ (c = '"' ∨ c = '\'') ∧ c ∉ cs ∧ ¬ Opens cs := by
  rw [← opening?_isSome_iff]
  simp [isLoose, and_assoc]

theorem takeWhile_append_of_not_mem (hc : c ∉ cs) (ds : List Char) :
    (cs ++ ds).takeWhile (· ≠ c) = cs ++ ds.takeWhile (· ≠ c) :=
  List.takeWhile_append_of_pos fun _ hx => decide_eq_true fun hxc => hc (hxc ▸ hx)

/-- Whether a quote begins a quoted text depends on what comes after only if the quote is loose. -/
theorem opensQuote_append (h : isLoose c cs → opensQuote c ds = false) :
    opensQuote c (cs ++ ds) = opensQuote c cs := by
  rw [Bool.eq_iff_iff, opensQuote_iff, opensQuote_iff]
  by_cases hc : c ∈ cs
  · have htake : (cs ++ ds).takeWhile (· ≠ c) = cs.takeWhile (· ≠ c) := by
      obtain ⟨x, hx, hne⟩ : ∃ x ∈ cs, ¬ decide (x ≠ c) := ⟨c, hc, by simp⟩
      rw [List.takeWhile_append, if_neg]
      intro hlength
      have hall := List.takeWhile_eq_self_iff.mp
        ((List.takeWhile_prefix (· ≠ c)).eq_of_length hlength)
      exact hne (hall x hx)
    rw [htake]
    simp [hc]
  · refine iff_of_false ?_ fun hopens => hc hopens.2.1
    rintro ⟨hquote, hmem, hclear⟩
    rw [takeWhile_append_of_not_mem hc] at hclear
    have hds : c ∈ ds := (List.mem_append.mp hmem).resolve_left hc
    have hloose : isLoose c cs := isLoose_iff.mpr
      ⟨hquote, hc, fun ho => hclear (ho.of_infix (List.infix_append' [] _ _))⟩
    have hopens : opensQuote c ds := opensQuote_iff.mpr
      ⟨hquote, hds, fun ho => hclear (ho.of_infix (List.suffix_append _ _).isInfix)⟩
    rw [h hloose] at hopens
    cases hopens

theorem isLoose_excludes (h : isLoose c cs) (d : Delimiter) :
    opensQuote c cs = false ∧ c ≠ d.closer := by
  obtain ⟨hquote, hc, -⟩ := isLoose_iff.mp h
  constructor
  · rw [Bool.eq_false_iff]
    exact fun hopens => hc (opensQuote_iff.mp hopens).2.1
  · rcases hquote with rfl | rfl <;> cases d <;> decide

/-- Markup that is closed stays so, if what comes after matches none of its loose quotes. -/
theorem close?_append (h : close? d quotes quoted cs = some (body, rest))
    (hloose : ∀ q ∈ looseQuotes d quotes quoted cs, opensQuote q ds = false) :
    close? d quotes quoted (cs ++ ds) = some (body, rest ++ ds) := by
  induction cs generalizing quoted body with
  | nil => cases quoted <;> cases h
  | cons c cs ih =>
    have later {q : Option Char}
        (h : (close? d quotes q cs).map (fun found => (c :: found.1, found.2)) = some (body, rest))
        (hq : ∀ x ∈ looseQuotes d quotes q cs, opensQuote x ds = false) :
        (close? d quotes q (cs ++ ds)).map (fun found => (c :: found.1, found.2))
          = some (body, rest ++ ds) := by
      obtain ⟨⟨body', rest'⟩, hclose, he⟩ := Option.map_eq_some_iff.mp h
      cases he
      rw [ih hclose hq, Option.map_some]
    cases quoted with
    | some q => exact later h hloose
    | none =>
      rw [looseQuotes] at hloose
      rw [close?] at h
      rw [List.cons_append, close?]
      by_cases hclosed : c = d.closer ∧ cs.head? = some '}'
      · -- a closing delimiter is no quote, so that it closes whatever comes after
        obtain ⟨tail, rfl⟩ := List.head?_eq_some_iff.mp hclosed.2
        have hopens (es : List Char) : opensQuote c es = false := by
          rw [hclosed.1]
          cases d <;> rfl
        simp only [hopens, Bool.and_false, Bool.false_eq_true, if_false, if_pos hclosed] at h
        cases h
        simp only [hopens, Bool.and_false, Bool.false_eq_true, if_false]
        exact if_pos ⟨hclosed.1, rfl⟩
      · have hhead : ¬ (c = d.closer ∧ (cs ++ ds).head? = some '}') := by
          rintro ⟨hc, hhead⟩
          cases cs with
          | nil => split at h <;> cases h
          | cons x cs => exact hclosed ⟨hc, hhead⟩
        have hopens : (quotes && opensQuote c (cs ++ ds)) = (quotes && opensQuote c cs) := by
          cases quotes with
          | false => rfl
          | true =>
            refine opensQuote_append fun hc => hloose c ?_
            simp [isLoose_excludes hc d, hc]
        rw [hopens, if_neg hhead]
        rw [if_neg hclosed] at h hloose
        split at h
        · rename_i hquote
          rw [if_pos hquote] at hloose ⊢
          exact later h hloose
        · rename_i hquote
          rw [if_neg hquote] at hloose ⊢
          refine later h fun q hq => hloose q ?_
          split
          · exact List.mem_cons_of_mem _ hq
          · exact hq

/-- Markup opens in one of two texts if it opens in both together, unless a brace ends the first. -/
theorem Opens.of_append (h : Opens (cs ++ ds)) (hbrace : cs.getLast? ≠ some '{') :
    Opens cs ∨ Opens ds := by
  by_cases hcs : Opens cs
  · exact .inl hcs
  · obtain ⟨d, start, tail, he⟩ := h
    have hplain : Plain cs ds := Clear.plain (fun d hd => hcs ⟨d, hd⟩) hbrace ds
    have hstart : start <+: cs ++ ds := ⟨d.opening.toList ++ tail, by rw [← he, List.append_assoc]⟩
    obtain ⟨skipped, rfl⟩ := List.prefix_of_prefix_length_le (List.prefix_append cs ds) hstart
      (hplain d start tail he.symm)
    rw [List.append_assoc, List.append_assoc, List.append_cancel_left_eq, ← List.append_assoc] at he
    exact .inr ⟨d, skipped, tail, he⟩

/-- A loose quote is matched by what matches it in the text after. -/
theorem opensQuote_append_of_loose (hc : isLoose c cs) (hbrace : cs.getLast? ≠ some '{')
    (hopens : opensQuote c ds) : opensQuote c (cs ++ ds) := by
  obtain ⟨hquote, hnot, hclear⟩ := isLoose_iff.mp hc
  obtain ⟨-, hmem, hclear'⟩ := opensQuote_iff.mp hopens
  refine opensQuote_iff.mpr ⟨hquote, List.mem_append_right cs hmem, fun ho => ?_⟩
  rw [takeWhile_append_of_not_mem hnot] at ho
  exact (ho.of_append hbrace).elim hclear hclear'

/-- A quoted text that is not closed goes on in the text after. -/
theorem close?_quoted_append (hc : c ∉ cs) : close? d quotes (some c) (cs ++ ds)
    = (close? d quotes (some c) ds).map fun found => (cs ++ found.1, found.2) := by
  induction cs with
  | nil => simp
  | cons x cs ih =>
    have hx : ¬ x = c := fun hxc => hc (hxc ▸ List.mem_cons_self)
    rw [List.cons_append, close?, if_neg hx, ih fun h => hc (List.mem_cons_of_mem x h),
      Option.map_map]
    rfl

/-- Markup at the end of a text is closed there, whatever comes next, only if that matches none of
its loose quotes. -/
theorem not_opens_of_close?_append {body' : List Char}
    (h : close? d quotes quoted cs = some (body, []))
    (h' : close? d quotes quoted (cs ++ ds) = some (body', ds)) :
    ∀ q ∈ looseQuotes d quotes quoted cs, opensQuote q ds = false := by
  induction cs generalizing quoted body body' with
  | nil => cases quoted <;> cases h
  | cons c cs ih =>
    have later {q : Option Char}
        (h : (close? d quotes q cs).map (fun found => (c :: found.1, found.2)) = some (body, []))
        (h' : (close? d quotes q (cs ++ ds)).map (fun found => (c :: found.1, found.2))
          = some (body', ds)) : ∀ x ∈ looseQuotes d quotes q cs, opensQuote x ds = false := by
      obtain ⟨⟨_, _⟩, hclose, he⟩ := Option.map_eq_some_iff.mp h
      obtain ⟨⟨_, _⟩, hclose', he'⟩ := Option.map_eq_some_iff.mp h'
      cases he
      cases he'
      exact ih hclose hclose'
    cases quoted with
    | some q => exact later h h'
    | none =>
      rw [looseQuotes]
      rw [close?] at h
      rw [List.cons_append, close?] at h'
      by_cases hquote : (quotes && opensQuote c cs) = true
      · have hquote' : (quotes && opensQuote c (cs ++ ds)) = true := by
          rw [Bool.and_eq_true] at hquote ⊢
          rw [opensQuote_append fun hc => absurd hquote.2 (by simp [isLoose_excludes hc d])]
          exact hquote
        rw [if_pos hquote] at h ⊢
        rw [if_pos hquote'] at h'
        exact later h h'
      · rw [if_neg hquote] at h ⊢
        by_cases hclosed : c = d.closer ∧ cs.head? = some '}'
        · rw [if_pos hclosed]
          exact List.forall_mem_nil _
        · rw [if_neg hclosed] at h ⊢
          obtain ⟨⟨tail, _⟩, hclose, he⟩ := Option.map_eq_some_iff.mp h
          obtain ⟨-, rfl⟩ := Prod.mk.inj he
          have hcs : cs = tail ++ d.closing.toList ++ [] := close?_eq_some hclose
          have hbrace : cs.getLast? ≠ some '{' := by simp [hcs, d.toList_closing]
          have hne : cs ≠ [] := by simp [hcs, d.toList_closing]
          have hmatch (hc : quotes = true ∧ isLoose c cs = true) : opensQuote c ds = false := by
            -- a matched quote would have the markup end within the text after
            refine eq_false_of_ne_true fun hopens => ?_
            have hboth := opensQuote_append_of_loose hc.2 hbrace hopens
            rw [hc.1, hboth, Bool.and_self, if_pos rfl,
              close?_quoted_append (isLoose_iff.mp hc.2).2.1, Option.map_map] at h'
            obtain ⟨⟨_, rest⟩, hend, he'⟩ := Option.map_eq_some_iff.mp h'
            obtain ⟨-, rfl⟩ := Prod.mk.inj he'
            have hlength := congrArg List.length (close?_eq_some hend)
            simp only [List.length_append, d.toList_closing, List.length_cons] at hlength
            omega
          have hopens : (quotes && opensQuote c (cs ++ ds)) = false := by
            refine eq_false_of_ne_true fun hboth => hquote ?_
            obtain ⟨hq, ho⟩ := Bool.and_eq_true_iff.mp hboth
            rw [opensQuote_append fun hc => hmatch ⟨hq, hc⟩] at ho
            exact Bool.and_eq_true_iff.mpr ⟨hq, ho⟩
          rw [hopens, if_neg Bool.false_ne_true, List.head?_append_of_ne_nil cs hne,
            if_neg hclosed] at h'
          split
          · rename_i hc
            exact List.forall_mem_cons.mpr ⟨hmatch (Bool.and_eq_true_iff.mp hc), later h h'⟩
          · exact later h h'

theorem looseQuotes_of_false : looseQuotes d false none cs = [] := by
  induction cs with
  | nil => rfl
  | cons c cs ih => simp [looseQuotes, ih]

/-- No quote in markup is loose where more markup follows. -/
theorem looseQuotes_of_opens (h : close? d quotes quoted cs = some (body, rest))
    (hrest : Opens rest) : looseQuotes d quotes quoted cs = [] := by
  induction cs generalizing quoted body with
  | nil => rfl
  | cons c cs ih =>
    have later {q : Option Char}
        (h : (close? d quotes q cs).map (fun found => (c :: found.1, found.2))
          = some (body, rest)) : looseQuotes d quotes q cs = [] := by
      obtain ⟨⟨body', rest'⟩, hclose, he⟩ := Option.map_eq_some_iff.mp h
      cases he
      exact ih hclose
    cases quoted with
    | some q => exact later h
    | none =>
      rw [looseQuotes]
      rw [close?] at h
      split at h
      · rename_i hquote
        rw [if_pos hquote]
        exact later h
      · rename_i hquote
        rw [if_neg hquote]
        split at h
        · rename_i hclosed
          exact if_pos hclosed
        · rename_i hclosed
          rw [if_neg hclosed, later h]
          obtain ⟨⟨body', rest'⟩, hclose, he⟩ := Option.map_eq_some_iff.mp h
          cases he
          have hcs : Opens cs := by
            rw [close?_eq_some hclose]
            exact hrest.of_infix (List.suffix_append _ _).isInfix
          have hloose : isLoose c cs = false := by
            rw [Bool.eq_false_iff]
            exact fun hl => (isLoose_iff.mp hl).2.2 hcs
          simp [hloose]

/-- A quoted text ends before the next markup opens. -/
theorem mem_of_opensQuote_opening {tail : List Char}
    (h : opensQuote c (before ++ d.opening.toList ++ tail)) : c ∈ before := by
  obtain ⟨hquote, -, hclear⟩ := opensQuote_iff.mp h
  by_contra hc
  have hopening : c ∉ before ++ d.opening.toList := by
    intro hmem
    rcases List.mem_append.mp hmem with hmem | hmem
    · exact hc hmem
    · rcases hquote with rfl | rfl <;> cases d <;> simp [Delimiter.opening] at hmem
  rw [takeWhile_append_of_not_mem hopening] at hclear
  exact hclear ⟨d, before, _, rfl⟩

/-- A reader that comes to the opening of a tag is not within quotes there, and goes on as the
reader of that tag. -/
theorem looseQuotes_before_tag {tail : List Char} (hquoted : ∀ q ∈ quoted, q ∈ before) :
    looseQuotes .tag true quoted (before ++ Delimiter.tag.opening.toList ++ tail)
      ⊆ looseQuotes .tag true none tail := by
  induction before generalizing quoted with
  | nil =>
    have hnone : quoted = none := by
      cases quoted with
      | none => rfl
      | some q => cases hquoted q rfl
    have hbrace (cs : List Char) : looseQuotes .tag true none ('{' :: cs)
        = looseQuotes .tag true none cs := by
      simp [looseQuotes, opensQuote, isLoose, Delimiter.closer]
    have hpercent (cs : List Char) : looseQuotes .tag true none ('%' :: cs)
        ⊆ looseQuotes .tag true none cs := by
      simp only [looseQuotes, opensQuote, isLoose, Char.reduceEq, decide_false, Bool.or_self,
        Bool.false_and, Bool.and_false, Bool.false_eq_true, if_false]
      split
      · exact List.nil_subset _
      · exact List.Subset.refl _
    rw [hnone]
    exact (hbrace _).symm ▸ hpercent tail
  | cons c before ih =>
    cases quoted with
    | some q =>
      refine ih fun x hx => ?_
      split at hx
      · cases hx
      · rename_i hc
        cases hx
        exact (List.mem_cons.mp (hquoted q rfl)).resolve_left fun hqc => hc hqc.symm
    | none =>
      have hlater := @ih none (by simp)
      have hloose : isLoose c (before ++ Delimiter.tag.opening.toList ++ tail) = false := by
        rw [Bool.eq_false_iff]
        exact fun hl => (isLoose_iff.mp hl).2.2 ⟨.tag, before, tail, rfl⟩
      rw [List.cons_append, List.cons_append, looseQuotes]
      split
      · rename_i hquote
        refine ih fun x hx => ?_
        cases hx
        exact mem_of_opensQuote_opening (Bool.and_eq_true_iff.mp hquote).2
      · split
        · exact List.nil_subset _
        · rw [hloose]
          simpa using hlater

theorem looseAfter_before_tag {tail : List Char}
    (htag : isComment (afterDash tail) = false) :
    looseAfter .tag (before ++ Delimiter.tag.opening.toList ++ tail) ⊆ looseAfter .tag tail := by
  have hdash : looseQuotes .tag true none tail ⊆ looseAfter .tag tail := by
    simp only [looseAfter, htag, Bool.and_false, Bool.not_false]
    rw [afterDash]
    split
    · rename_i hhead
      obtain ⟨tail, rfl⟩ := List.head?_eq_some_iff.mp hhead
      simp [looseQuotes, opensQuote, isLoose, Delimiter.closer]
    · exact List.Subset.refl _
  -- a dash at the start is passed over
  obtain ⟨front, hfront⟩ : ∃ front, afterDash (before ++ Delimiter.tag.opening.toList ++ tail)
      = front ++ Delimiter.tag.opening.toList ++ tail := by
    cases before with
    | nil => exact ⟨[], if_neg (by simp [Delimiter.opening])⟩
    | cons c before =>
      rw [afterDash]
      split
      · exact ⟨before, rfl⟩
      · exact ⟨c :: before, rfl⟩
  rw [looseAfter]
  simp only [hfront]
  cases isComment (front ++ Delimiter.tag.opening.toList ++ tail) with
  | true =>
    rw [decide_true, Bool.and_true, Bool.not_true, looseQuotes_of_false]
    exact List.nil_subset _
  | false => exact List.Subset.trans (looseQuotes_before_tag (by simp)) hdash

theorem isComment_append_of_ne (h : Text.trimStart cs ≠ []) (ds : List Char) :
    isComment (cs ++ ds) = isComment cs := by
  obtain ⟨x, xs, hx⟩ := List.exists_cons_of_ne_nil h
  rw [Text.trimStart] at hx
  simp [isComment, Text.trimStart, List.dropWhile_append, hx]

theorem trimStart_closing (cs : List Char) (d : Delimiter) (ds : List Char) :
    Text.trimStart (cs ++ d.closing.toList ++ ds) ≠ [] := by
  intro hnil
  have hblank := List.dropWhile_eq_nil_iff.mp hnil d.closer (by simp [d.toList_closing])
  revert hblank
  cases d <;> decide

/-- Markup is read up to where it is closed. -/
theorem close?_of_read? (h : read? pos d cs = some (m, rest)) :
    ∃ body, close? d (!(d = .tag && isComment (afterDash cs))) none (afterDash cs)
      = some (body, rest) := by
  simp only [read?, Option.bind_eq_bind, Option.bind_eq_some_iff] at h
  obtain ⟨⟨body, rest'⟩, hclose, he⟩ := h
  obtain rfl : rest' = rest := congrArg Prod.snd (Option.some.inj he)
  exact ⟨body, hclose⟩

theorem afterDash_append (hclose : close? d quotes quoted (afterDash cs) = some (body, rest))
    (ds : List Char) : (cs ++ ds).head? = cs.head? ∧ afterDash (cs ++ ds) = afterDash cs ++ ds ∧
      isComment (afterDash cs ++ ds) = isComment (afterDash cs) := by
  have hne : cs ≠ [] := by rintro rfl; cases quoted <;> cases hclose
  have hhead : (cs ++ ds).head? = cs.head? := List.head?_append_of_ne_nil cs hne
  refine ⟨hhead, ?_, ?_⟩
  · rw [afterDash, afterDash, hhead]
    split
    · exact List.tail_append_of_ne_nil hne
    · rfl
  · refine isComment_append_of_ne ?_ ds
    rw [close?_eq_some hclose]
    exact trimStart_closing body d rest

theorem read?_append (h : read? pos d cs = some (m, rest))
    (hloose : ∀ q ∈ looseAfter d cs, opensQuote q ds = false) :
    read? pos d (cs ++ ds) = some (m, rest ++ ds) := by
  obtain ⟨body, hclose⟩ := close?_of_read? h
  obtain ⟨hhead, hinside, hcomment⟩ := afterDash_append hclose ds
  have happend : close? d (!(d = .tag && isComment (afterDash (cs ++ ds)))) none
      (afterDash (cs ++ ds)) = some (body, rest ++ ds) := by
    rw [hinside, hcomment]
    exact close?_append hclose hloose
  simp only [read?, Option.bind_eq_bind, Option.bind_eq_some_iff] at h ⊢
  obtain ⟨found, hfound, he⟩ := h
  obtain rfl : found = (body, rest) := Option.some.inj (hfound.symm.trans hclose)
  cases he
  exact ⟨(body, rest ++ ds), happend, by rw [hhead]; rfl⟩

theorem not_opens_of_read?_append {start : Nat} {m' : Markup}
    (h : read? pos d cs = some (m, [])) (h' : read? start d (cs ++ ds) = some (m', ds)) :
    ∀ q ∈ looseAfter d cs, opensQuote q ds = false := by
  obtain ⟨body, hclose⟩ := close?_of_read? h
  obtain ⟨body', hclose'⟩ := close?_of_read? h'
  obtain ⟨-, hinside, hcomment⟩ := afterDash_append hclose ds
  rw [hinside, hcomment] at hclose'
  exact not_opens_of_close?_append hclose hclose'

theorem opening?_append_right (h : opening? cs = some (before, d, rest)) (ds : List Char) :
    opening? (cs ++ ds) = some (before, d, rest ++ ds) := by
  induction cs generalizing before with
  | nil => cases h
  | cons c cs ih =>
    simp only [opening?] at h
    split at h
    · cases h
      rfl
    · cases h
      rfl
    · rename_i houtput htag
      obtain ⟨⟨before', d', rest'⟩, h', he⟩ := Option.map_eq_some_iff.mp h
      cases he
      have hne : cs ≠ [] := by rintro rfl; cases h'
      obtain ⟨x, xs, rfl⟩ := List.exists_cons_of_ne_nil hne
      rw [List.cons_append, opening?, ih h']
      · rfl
      · intro tail hc hcs
        exact houtput xs hc (by rw [(List.cons.inj hcs).1])
      · intro tail hc hcs
        exact htag xs hc (by rw [(List.cons.inj hcs).1])

/-- The loose quotes of markup when `rest` is what follows it. -/
def looseBefore (m : Markup) (rest : List Char) : List Char :=
  looseAfter m.delimiter (m.afterOpening ++ rest)

theorem looseBefore_nil (m : Markup) : m.looseBefore [] = m.loose := by
  rw [looseBefore, List.append_nil, loose]

theorem afterOpening_eq (h : read? pos d cs = some (m, rest)) :
    m.delimiter = d ∧ cs = m.afterOpening ++ rest := by
  obtain ⟨rfl, htext, -⟩ := read?_eq_some h
  refine ⟨rfl, ?_⟩
  rwa [text_eq, List.append_assoc, List.append_cancel_left_eq] at htext

theorem looseBefore_of_opens (h : read? pos d cs = some (m, rest)) (hrest : Opens rest) :
    m.looseBefore rest = [] := by
  obtain ⟨rfl, hcs⟩ := afterOpening_eq h
  obtain ⟨body, hclose⟩ := close?_of_read? h
  rw [looseBefore, ← hcs]
  exact looseQuotes_of_opens hclose hrest

/-- How markup was found. -/
theorem next?_cases (h : next? pos cs = .ok (some (before, m, rest))) :
    ∃ d tail, opening? cs = some (before, d, tail) ∧
      read? (pos + byteLength before) d tail = some (m, rest) := by
  unfold next? at h
  split at h
  · cases h
  · rename_i before' d tail ho
    simp only at h
    split at h
    · rename_i hread
      cases h
      exact ⟨d, tail, ho, hread⟩
    · cases h

theorem next?_append_right (h : next? pos cs = .ok (some (before, m, rest)))
    (hloose : ∀ q ∈ m.looseBefore rest, opensQuote q ds = false) :
    next? pos (cs ++ ds) = .ok (some (before, m, rest ++ ds)) := by
  obtain ⟨d, tail, ho, hread⟩ := next?_cases h
  obtain ⟨rfl, htail⟩ := afterOpening_eq hread
  rw [looseBefore, ← htail] at hloose
  rw [next?, opening?_append_right ho]
  simp only [read?_append hread hloose]

theorem StandsAt.inside_eq (h : m.StandsAt pos) (rest : List Char) :
    afterDash (m.afterOpening ++ rest)
      = m.inner ++ (dash m.trimAfter ++ m.delimiter.closing.toList ++ rest) := by
  cases hbefore : m.trimBefore with
  | true => simp [afterDash, afterOpening, hbefore, dash]
  | false =>
    rw [afterDash, if_neg]
    · simp [afterOpening, hbefore, dash]
    · have hhead := h.before hbefore
      have htail : m.afterOpening ++ rest
          = (m.inner ++ dash m.trimAfter) ++ (m.delimiter.closing.toList ++ rest) := by
        simp [afterOpening, hbefore, dash]
      rw [htail]
      cases hinner : m.inner ++ dash m.trimAfter with
      | nil => cases m.delimiter <;> simp [Delimiter.closing]
      | cons c cs =>
        rw [hinner] at hhead
        exact hhead

/-- A tag on the way to the end of a raw block leaves no quotes loose but those of the end tag. -/
theorem looseAfter_before_rawEnd {tail : List Char}
    (h : rawEnd? endTag pos ('%' :: tail) = .ok (some (body, m, rest)))
    (hm : tagName m.inner ≠ []) : looseAfter .tag tail ⊆ m.looseBefore rest := by
  obtain ⟨hcs, hstands, hdelimiter, -⟩ := rawEnd?_eq_some h
  have hcomment : isComment (afterDash (m.afterOpening ++ rest)) = false := by
    rw [hstands.inside_eq, isComment_append_of_ne]
    · exact isComment_eq_false_of_tagName hm
    · intro hnil
      exact hm (by rw [tagName, hnil]; rfl)
  rw [text_eq, hdelimiter] at hcs
  cases body with
  | nil => cases hcs
  | cons x body =>
    have htail : tail = body ++ Delimiter.tag.opening.toList ++ (m.afterOpening ++ rest) := by
      simpa using (List.cons.inj hcs).2
    rw [looseBefore, hdelimiter, htail]
    exact looseAfter_before_tag hcomment

/-- The end of a raw block stays where it is. The tags on the way to it are read as before, since
what they leave loose is left loose by the end tag. -/
theorem rawEnd?_append (h : rawEnd? endTag pos cs = .ok (some (body, m, rest)))
    (hm : tagName m.inner ≠ [])
    (hloose : ∀ q ∈ m.looseBefore rest, opensQuote q ds = false) :
    rawEnd? endTag pos (cs ++ ds) = .ok (some (body, m, rest ++ ds)) := by
  induction cs generalizing pos body with
  | nil => cases h
  | cons c cs ih =>
    have hdelimiter : m.delimiter = .tag := (rawEnd?_eq_some h).2.2.1
    rw [rawEnd?_cons] at h
    rw [List.cons_append, rawEnd?_cons]
    have later (h : (rawEnd? endTag (pos + c.utf8Size) cs).map (Found.prepend c)
        = .ok (some (body, m, rest))) :
        (rawEnd? endTag (pos + c.utf8Size) (cs ++ ds)).map (Found.prepend c)
          = .ok (some (body, m, rest ++ ds)) := by
      obtain ⟨found, hfound, he⟩ := map_eq_ok.mp h
      obtain ⟨⟨body', m', rest'⟩, rfl, he⟩ := Option.map_eq_some_iff.mp he
      cases he
      rw [ih hfound]
      rfl
    split at h
    · rename_i hopen
      obtain ⟨tail, rfl⟩ := List.head?_eq_some_iff.mp hopen.2
      rw [if_pos ⟨hopen.1, rfl⟩]
      simp only [List.tail_cons, List.cons_append] at h ⊢
      rcases hread : read? pos .tag tail with _ | ⟨first, rest'⟩
      · rw [hread] at h
        cases h
      · rw [hread] at h
        simp only at h
        have hfirst : ∀ q ∈ looseAfter .tag tail, opensQuote q ds = false := by
          split at h
          · -- this is the end tag
            cases h
            have htail := (afterOpening_eq hread).2
            rwa [looseBefore, hdelimiter, ← htail] at hloose
          · obtain ⟨found, hfound, he⟩ := map_eq_ok.mp h
            obtain ⟨⟨body', _, _⟩, rfl, he⟩ := Option.map_eq_some_iff.mp he
            cases he
            exact fun q hq => hloose q (looseAfter_before_rawEnd hfound hm hq)
        rw [read?_append hread hfirst]
        simp only
        split at h
        · rename_i hend
          cases h
          exact if_pos hend
        · rename_i hend
          rw [if_neg hend]
          exact later h
    · rename_i hopen
      rw [if_neg]
      · exact later h
      · rintro ⟨hc, hhead⟩
        cases cs with
        | nil => cases h
        | cons x cs => exact hopen ⟨hc, hhead⟩

theorem read?_of_rawEnd? (h : rawEnd? endTag pos cs = .ok (some (body, m, rest))) :
    ∃ start tail, read? start .tag tail = some (m, rest) := by
  induction cs generalizing pos body with
  | nil => cases h
  | cons c cs ih =>
    rcases rawEnd?_cases h with ⟨tail, -, -, hread, -⟩ | ⟨body', -, hraw⟩
    · exact ⟨pos, tail, hread⟩
    · exact ih hraw

/-- The markup stands in `cs`, which begins at `pos`, and was read there. -/
def ReadIn (m : Markup) (pos : Nat) (cs : List Char) : Prop :=
  ∃ front back, cs = front ++ m.text ++ back ∧ m.StandsAt (pos + byteLength front) ∧
    ∃ start, read? start m.delimiter (m.afterOpening ++ back) = some (m, back)

theorem readIn_of_read? {start : Nat} {tail : List Char}
    (hstands : m.StandsAt (pos + byteLength before)) (h : read? start d tail = some (m, rest)) :
    m.ReadIn pos (before ++ m.text ++ rest) := by
  obtain ⟨rfl, rfl⟩ := afterOpening_eq h
  exact ⟨before, rest, rfl, hstands, start, h⟩

theorem ReadIn.later {first : Markup} (h : m.ReadIn first.span.stop rest)
    (hfirst : first.StandsAt (pos + byteLength before)) :
    m.ReadIn pos (before ++ first.text ++ rest) := by
  obtain ⟨front, back, rfl, hstands, hread⟩ := h
  refine ⟨before ++ first.text ++ front, back, by simp, ?_, hread⟩
  rw [hfirst.span] at hstands
  simpa only [byteLength_append, Nat.add_assoc] using hstands

end Markup

end Stencil
