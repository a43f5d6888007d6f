import Mathlib
import Stencil.Proofs.Lexemes
import Stencil.Proofs.Spans

/-!
# Blanks between tokens

The tokens of a text and the blanks around them are the whole text. How many blanks there are makes
no difference to what the tokens are, as long as there is one between any two of them.
-/
namespace Stencil

/-- Only ASCII blanks, perhaps none. -/
def IsBlankRun (cs : List Char) : Prop := ∀ c ∈ cs, Text.isAsciiBlank c

namespace Token

section Lexemes

variable {afterOperand : Bool} {c : Char} {cs text rest : List Char} {l : Lexeme}

theorem digitsLexeme_self (cs : List Char) :
    digitsLexeme (digitsLexeme cs).1 = ((digitsLexeme cs).1, []) := by
  have hwhole : ∀ c ∈ cs.takeWhile Char.isDigit, c.isDigit := fun c hc =>
    List.mem_takeWhile_imp hc
  have hend : EndsNumeral [] := by
    constructor
    · rintro _ ⟨⟩
    · rintro _ _ ⟨⟩
  have halone : digitsLexeme (cs.takeWhile Char.isDigit) = (cs.takeWhile Char.isDigit, []) := by
    simpa using digitsLexeme_of_digits hwhole hend
  generalize hfound : digitsLexeme cs = found
  rw [digitsLexeme] at hfound
  split at hfound
  · rename_i d later hdrop
    split at hfound
    · rename_i hd
      subst hfound
      have hfraction : IsDigits (d :: later.takeWhile Char.isDigit) :=
        ⟨List.cons_ne_nil _ _, List.forall_mem_cons.mpr ⟨hd, fun c hc => List.mem_takeWhile_imp hc⟩⟩
      simpa using digitsLexeme_of_fraction hwhole hfraction hend.1
    · subst hfound
      exact halone
  · subst hfound
    exact halone

theorem head?_digitsLexeme (h : cs.head?.any Char.isDigit) :
    (digitsLexeme cs).1.head?.any Char.isDigit := by
  cases cs with
  | nil => cases h
  | cons c cs =>
    have hc : c.isDigit := h
    rw [digitsLexeme, List.takeWhile_cons_of_pos hc]
    split
    · split <;> exact hc
    · exact hc

theorem nameLexeme_self (cs : List Char) :
    nameLexeme (nameLexeme cs).1 = ((nameLexeme cs).1, []) := by
  have hparts : ∀ c ∈ cs.takeWhile isNamePart, isNamePart c := fun c hc =>
    List.mem_takeWhile_imp hc
  generalize hfound : nameLexeme cs = found
  rw [nameLexeme] at hfound
  split at hfound
  · subst hfound
    have hmark : ∀ c ∈ ['?'].head?, isNamePart c = false := by
      rintro _ ⟨⟩
      rfl
    obtain ⟨htake, hdrop⟩ := takeWhile_stop hparts hmark
    rw [nameLexeme, htake, hdrop]
    rfl
  · subst hfound
    have hend : ∀ c ∈ ([] : List Char).head?, isNamePart c = false := by
      rintro _ ⟨⟩
    obtain ⟨htake, hdrop⟩ := takeWhile_stop hparts hend
    rw [List.append_nil] at htake hdrop
    rw [nameLexeme, htake, hdrop]

theorem symbolLexeme?_self {s : Symbol} (h : symbolLexeme? cs = some (s, text, rest)) :
    symbolLexeme? text = some (s, text, []) := by
  unfold symbolLexeme? at h
  split at h
  all_goals cases h
  all_goals rfl

/-- A token is also read where nothing comes after it. -/
theorem lexeme_self (h : lexeme afterOperand (c :: cs) = .ok l) :
    lexeme afterOperand l.text = .ok ⟨l.kind, l.text, []⟩ := by
  simp only [lexeme] at h
  split at h
  · rename_i hnumber
    split at h <;> cases h
    rename_i kind hkind
    have hstarts : startsNumber afterOperand (c :: (digitsLexeme cs).1) = true := by
      simp only [startsNumber, Bool.or_eq_true, Bool.and_eq_true] at hnumber ⊢
      exact hnumber.imp_right (And.imp_right head?_digitsLexeme)
    simp only [lexeme, hstarts, if_true, digitsLexeme_self, hkind]
  rename_i hnumber
  have hdigit : c.isDigit = false := by
    simp only [startsNumber, Bool.not_eq_true, Bool.or_eq_false_iff] at hnumber
    exact hnumber.1
  split at h
  · rename_i hname
    cases h
    have hminus : c ≠ '-' := by
      rintro rfl
      cases hname
    simp [lexeme, startsNumber, hdigit, hminus, hname, nameLexeme_self]
  rename_i hname
  split at h
  · rename_i hquote
    split at h <;> cases h
    rename_i close later hdrop
    obtain rfl : close = c := eq_of_dropWhile_ne hdrop
    have hbody : close ∉ (String.ofList (cs.takeWhile (· ≠ close))).toList := by
      rw [String.toList_ofList]
      exact fun hmem => by simpa using List.mem_takeWhile_imp hmem
    have halone : lexeme afterOperand (close :: _ ++ [close]) = .ok ⟨_, _, []⟩ :=
      lexeme_quoted (by simpa using hquote) hbody
    simpa using halone
  · rename_i hquote
    split at h <;> cases h
    rename_i s text rest hsymbol
    obtain ⟨happ, hne⟩ := symbolLexeme?_append hsymbol
    obtain ⟨first, text, rfl⟩ := List.exists_cons_of_ne_nil hne
    obtain rfl : c = first := (List.cons.inj happ).1
    have hnumber : startsNumber afterOperand (c :: text) = false := by
      cases text with
      | nil => simp [startsNumber, hdigit]
      | cons d text =>
        rw [happ] at hnumber
        exact Bool.eq_false_iff.mpr hnumber
    simp only [lexeme, hnumber, hname, hquote, symbolLexeme?_self hsymbol, Bool.false_eq_true,
      if_false]

/-- Before a blank, or at the end, a token is read as it is by itself. -/
theorem lexeme_append_blank {kind : TokenKind}
    (h : lexeme afterOperand text = .ok ⟨kind, text, []⟩) (htext : text ≠ [])
    (hrest : ∀ d ∈ rest.head?, Text.isAsciiBlank d) :
    lexeme afterOperand (text ++ rest) = .ok ⟨kind, text, rest⟩ := by
  cases rest with
  | nil => rwa [List.append_nil]
  | cons d rest =>
    obtain ⟨c, cs, rfl⟩ := List.exists_cons_of_ne_nil htext
    exact lexeme_break (isBreak_of_isAsciiBlank (hrest d rfl)) h

end Lexemes

section Layouts

/-- How tokens lie in a text that stands after `before`: the first one after a run of blanks, the
others in what follows it, and the end after the last one. Each is read from its own text. -/
inductive LaidOut : List Char → Bool → List Char → List Token → Prop where
  | last {before gap : List Char} {afterOperand : Bool} (hgap : IsBlankRun gap) :
    LaidOut before afterOperand gap
      [⟨.eof, ⟨byteLength (before ++ gap), byteLength (before ++ gap)⟩⟩]
  | next {before gap text rest : List Char} {afterOperand : Bool} {kind : TokenKind}
    {tokens : List Token} (hgap : IsBlankRun gap) (htext : text ≠ []) (hkind : kind ≠ .eof)
    (hlexeme : lexeme afterOperand text = .ok ⟨kind, text, []⟩)
    (hrest : LaidOut (before ++ gap ++ text) kind.endsOperand rest tokens) :
    LaidOut before afterOperand (gap ++ text ++ rest)
      (⟨kind, ⟨byteLength (before ++ gap), byteLength (before ++ gap ++ text)⟩⟩ :: tokens)

variable {before cs : List Char} {afterOperand : Bool} {tokens : List Token}

theorem LaidOut.blank {c : Char} (hc : Text.isAsciiBlank c)
    (h : LaidOut (before ++ [c]) afterOperand cs tokens) :
    LaidOut before afterOperand (c :: cs) tokens := by
  have hrun {gap : List Char} (hgap : IsBlankRun gap) : IsBlankRun (c :: gap) :=
    List.forall_mem_cons.mpr ⟨hc, hgap⟩
  cases h with
  | last hgap =>
    have hlast : LaidOut before afterOperand (c :: cs) _ := .last (hrun hgap)
    simpa using hlast
  | @next _ gap text rest _ kind tokens hgap htext hkind hlexeme hrest =>
    have hlater : LaidOut (before ++ c :: gap ++ text) kind.endsOperand rest tokens := by
      simpa using hrest
    simpa using LaidOut.next (hrun hgap) htext hkind hlexeme hlater

/-- The tokens that are read from a text lie in it. -/
theorem lexFrom_laidOut (h : lexFrom (byteLength before) afterOperand cs = .ok tokens) :
    LaidOut before afterOperand cs
      (tokens ++ [⟨.eof, ⟨byteLength (before ++ cs), byteLength (before ++ cs)⟩⟩]) := by
  have hnil : IsBlankRun [] := fun _ hc => (List.not_mem_nil hc).elim
  generalize hpos : byteLength before = pos at h
  fun_induction lexFrom pos afterOperand cs generalizing before tokens with
  | case1 =>
    cases h
    exact .last hnil
  | case2 pos afterOperand c cs hblank ih =>
    have hstop : byteLength (before ++ [c]) = pos + 1 := by
      simp [hpos, utf8Size_of_isAsciiBlank hblank]
    have hnext := ih hstop h
    rw [List.append_assoc] at hnext
    exact hnext.blank hblank
  | case3 => cases h
  | case4 pos afterOperand c cs hblank l hl stop =>
    rename_i ih
    obtain ⟨later, hlater, rfl⟩ := map_eq_ok.mp h
    obtain ⟨happ, hne⟩ := lexeme_append hl
    rw [happ]
    have hstop : byteLength (before ++ l.text) = stop := by simp [hpos, stop]
    have hnext := ih hstop hlater
    rw [List.append_assoc] at hnext
    have hfirst : LaidOut before afterOperand ([] ++ l.text ++ l.rest) _ :=
      .next hnil hne (lexeme_kind hl) (lexeme_self hl) (by simpa using hnext)
    simpa [hpos, stop] using hfirst

/-- The ranges from `pos` to the first token and from each token to the next one. -/
def gaps (pos : Nat) : List Token → List Span
  | [] => []
  | t :: tokens => ⟨pos, t.span.start⟩ :: gaps t.span.stop tokens

/-- How the tokens of a text cover it: all but the end are ranges of characters, one after the
other, and what is left are blanks. -/
structure Cover (source : List Char) (tokens : List Token) : Prop where
  ends : ∃ lexed, tokens = lexed ++ [⟨.eof, ⟨byteLength source, byteLength source⟩⟩] ∧
    ∀ t ∈ lexed, t.kind ≠ .eof
  within : ∀ t ∈ tokens, ∃ text, t.span.Covers source text
  nonempty : ∀ t ∈ tokens, t.kind ≠ .eof → t.span.start < t.span.stop
  ordered : tokens.Pairwise fun t u => t.span.start < u.span.start ∧ t.span.stop ≤ u.span.start
  blank : ∀ gap ∈ gaps 0 tokens, ∃ run, gap.Covers source run ∧ IsBlankRun run

namespace LaidOut

theorem ends (h : LaidOut before afterOperand cs tokens) :
    ∃ lexed, tokens = lexed ++ [⟨.eof, ⟨byteLength (before ++ cs), byteLength (before ++ cs)⟩⟩] ∧
      ∀ t ∈ lexed, t.kind ≠ .eof := by
  induction h with
  | last => exact ⟨[], rfl, fun _ ht => (List.not_mem_nil ht).elim⟩
  | @next before gap text rest _ kind tokens _ _ hkind _ _ ih =>
    have hwhole : before ++ gap ++ text ++ rest = before ++ (gap ++ text ++ rest) := by simp
    obtain ⟨lexed, rfl, hlexed⟩ := ih
    rw [hwhole]
    exact ⟨_ :: lexed, rfl, List.forall_mem_cons.mpr ⟨hkind, hlexed⟩⟩

theorem covers (h : LaidOut before afterOperand cs tokens) :
    ∀ t ∈ tokens, ∃ text, t.span.Covers (before ++ cs) text ∧ (t.kind ≠ .eof → text ≠ []) := by
  induction h with
  | @last before gap =>
    intro t ht
    obtain rfl := List.mem_singleton.mp ht
    refine ⟨[], ?_, fun hkind => absurd rfl hkind⟩
    simpa using Span.covers_append (before ++ gap) [] []
  | @next before gap text rest _ kind tokens _ htext _ _ _ ih =>
    have hwhole : before ++ gap ++ text ++ rest = before ++ (gap ++ text ++ rest) := by simp
    rw [hwhole] at ih
    refine List.forall_mem_cons.mpr ⟨⟨text, ?_, fun _ => htext⟩, ih⟩
    rw [← hwhole, byteLength_append (before ++ gap) text]
    exact Span.covers_append (before ++ gap) text rest

theorem start_le (h : LaidOut before afterOperand cs tokens) :
    ∀ t ∈ tokens, byteLength before ≤ t.span.start := by
  induction h with
  | last => simp
  | next _ _ _ _ _ ih =>
    simp only [byteLength_append] at ih
    refine List.forall_mem_cons.mpr ⟨by simp, fun t ht => ?_⟩
    have := ih t ht
    omega

theorem ordered (h : LaidOut before afterOperand cs tokens) :
    tokens.Pairwise fun t u => t.span.start < u.span.start ∧ t.span.stop ≤ u.span.start := by
  induction h with
  | last => exact List.pairwise_singleton _ _
  | @next before gap text rest _ kind tokens _ htext _ _ hrest ih =>
    refine .cons (fun u hu => ?_) ih
    have hle := hrest.start_le u hu
    have hpos : byteLength text ≠ 0 := fun h => htext (eq_nil_of_byteLength h)
    simp only [byteLength_append] at hle ⊢
    omega

theorem blank_gaps (h : LaidOut before afterOperand cs tokens) :
    ∀ gap ∈ gaps (byteLength before) tokens, ∃ run, gap.Covers (before ++ cs) run ∧
      IsBlankRun run := by
  induction h with
  | @last before gap _ hgap =>
    intro g hg
    obtain rfl := List.mem_singleton.mp hg
    exact ⟨gap, by simpa using Span.covers_append before gap [], hgap⟩
  | @next before gap text rest _ kind tokens hgap _ _ _ _ ih =>
    have hwhole : before ++ gap ++ text ++ rest = before ++ (gap ++ text ++ rest) := by simp
    rw [hwhole] at ih
    refine List.forall_mem_cons.mpr ⟨⟨gap, ?_, hgap⟩, ih⟩
    simpa using Span.covers_append before gap (text ++ rest)

theorem cover (h : LaidOut [] afterOperand cs tokens) : Cover cs tokens where
  ends := h.ends
  within t ht := (h.covers t ht).imp fun _ hcovers => hcovers.1
  nonempty t ht hkind := by
    obtain ⟨text, hcovers, htext⟩ := h.covers t ht
    have hpos : byteLength text ≠ 0 := fun hzero => htext hkind (eq_nil_of_byteLength hzero)
    have := hcovers.stop_eq
    omega
  ordered := h.ordered
  blank := h.blank_gaps

end LaidOut

end Layouts

section Spreading

/-- Texts one after the other with blanks around them, at least one between any two. -/
inductive Spread : List (List Char) → List Char → Prop where
  | nil {gap : List Char} (hgap : IsBlankRun gap) : Spread [] gap
  | cons {gap text rest : List Char} {texts : List (List Char)} (hgap : IsBlankRun gap)
    (hrest : ∀ c ∈ rest.head?, Text.isAsciiBlank c) (h : Spread texts rest) :
    Spread (text :: texts) (gap ++ text ++ rest)

variable {before cs : List Char} {afterOperand : Bool} {tokens : List Token}

theorem lexFrom_blankRun {gap : List Char} (hgap : IsBlankRun gap) (pos : Nat) :
    lexFrom pos afterOperand (gap ++ cs) = lexFrom (pos + byteLength gap) afterOperand cs := by
  induction gap generalizing pos with
  | nil => rfl
  | cons c gap ih =>
    obtain ⟨hc, hgap⟩ := List.forall_mem_cons.mp hgap
    rw [List.cons_append, lexFrom_blank hc, ih hgap, byteLength_cons, utf8Size_of_isAsciiBlank hc,
      Nat.add_assoc]

/-- The texts of tokens have the tokens of these kinds, whatever blanks are around them. -/
theorem LaidOut.lexFrom_spread {source cs' : List Char} (h : LaidOut before afterOperand cs tokens)
    (hsource : before ++ cs = source)
    (hspread : Spread (tokens.map (·.span.slice source)) cs') (pos : Nat) :
    ∃ tokens', lexFrom pos afterOperand cs' = .ok tokens' ∧
      tokens'.map kind ++ [.eof] = tokens.map kind := by
  induction h generalizing cs' pos with
  | @last before gap _ hgap =>
    have hslice : Span.slice ⟨byteLength (before ++ gap), byteLength (before ++ gap)⟩ source
        = [] := by
      simp [Span.slice, Span.length, takeBytes]
    rw [List.map_singleton, hslice] at hspread
    cases hspread with
    | @cons gap' _ rest' _ hgap' _ hlater =>
      cases hlater with
      | nil hrest' =>
        have hrun : IsBlankRun (gap' ++ [] ++ rest') := by
          rw [List.append_nil]
          exact List.forall_mem_append.mpr ⟨hgap', hrest'⟩
        refine ⟨[], ?_, rfl⟩
        rw [← List.append_nil (gap' ++ [] ++ rest'), lexFrom_blankRun hrun, lexFrom]
  | @next before gap text rest _ kind tokens _ htext _ hlexeme _ ih =>
    have hwhole : before ++ gap ++ text ++ rest = before ++ (gap ++ text ++ rest) := by simp
    have hslice : Span.slice ⟨byteLength (before ++ gap), byteLength (before ++ gap ++ text)⟩ source
        = text := by
      rw [← hsource, ← hwhole, byteLength_append (before ++ gap) text]
      exact (Span.covers_append (before ++ gap) text rest).slice_eq
    rw [List.map_cons, hslice] at hspread
    cases hspread with
    | @cons gap' _ rest' _ hgap' hrest' hlater =>
      obtain ⟨later, hlexed, hkinds⟩ := ih (hwhole.trans hsource) hlater
        (pos + byteLength gap' + byteLength text)
      have hfirst := lexeme_append_blank hlexeme htext hrest'
      obtain ⟨c, text, rfl⟩ := List.exists_cons_of_ne_nil htext
      let start := pos + byteLength gap'
      refine ⟨⟨kind, ⟨start, start + byteLength (c :: text)⟩⟩ :: later, ?_,
        congrArg (kind :: ·) hkinds⟩
      rw [List.append_assoc, lexFrom_blankRun hgap']
      exact lexFrom_of_lexeme hfirst hlexed

/-- The tokens of a text cover it. Any text that has the same pieces with other blanks around them,
at least one between two of them, has tokens of the same kinds. -/
theorem tokenize_covers {s : String} {tokens : List Token} (h : tokenize s = .ok tokens) :
    Cover s.toList tokens ∧
      ∀ t : String, Spread (tokens.map (·.span.slice s.toList)) t.toList →
        ∃ tokens', tokenize t = .ok tokens' ∧ tokens'.map kind = tokens.map kind := by
  obtain ⟨lexed, hlexed, rfl⟩ := tokenize_eq_ok.mp h
  have hlaid : LaidOut [] false s.toList _ := lexFrom_laidOut hlexed
  rw [List.nil_append, byteLength_toList] at hlaid
  refine ⟨hlaid.cover, fun t ht => ?_⟩
  obtain ⟨lexed', hlexed', hkinds⟩ := hlaid.lexFrom_spread rfl ht 0
  refine ⟨_, tokenize_eq_ok.mpr ⟨lexed', hlexed', rfl⟩, ?_⟩
  rw [← hkinds, List.map_append, List.map_singleton]

/-- The minus before the first number is its sign, the other one an operator, with or without blanks
around them. -/
theorem tokenize_covers_signs :
    let tokens : List Token := [⟨.ident "v", ⟨0, 1⟩⟩, ⟨.symbol .leftBracket, ⟨1, 2⟩⟩,
      ⟨.int (-1), ⟨2, 4⟩⟩, ⟨.symbol .rightBracket, ⟨4, 5⟩⟩, ⟨.symbol .minus, ⟨5, 6⟩⟩,
      ⟨.int 2, ⟨6, 7⟩⟩, ⟨.eof, ⟨7, 7⟩⟩]
    tokenize "v[-1]-2" = .ok tokens ∧
    Spread (tokens.map (·.span.slice "v[-1]-2".toList)) "v [\t-1 ] - 2".toList ∧
    ∃ tokens', tokenize "v [\t-1 ] - 2" = .ok tokens' ∧ tokens'.map kind = tokens.map kind := by
  intro tokens
  have htokens : tokenize "v[-1]-2" = .ok tokens := by cbv
  have hspread : Spread (tokens.map (·.span.slice "v[-1]-2".toList)) "v [\t-1 ] - 2".toList := by
    change Spread [['v'], ['['], ['-', '1'], [']'], ['-'], ['2'], []]
      ([] ++ ['v'] ++ ([' '] ++ ['['] ++ (['\t'] ++ ['-', '1'] ++ ([' '] ++ [']'] ++
        ([' '] ++ ['-'] ++ ([' '] ++ ['2'] ++ ([] ++ [] ++ [])))))))
    have hnone : IsBlankRun [] := fun _ hc => (List.not_mem_nil hc).elim
    have hspace : IsBlankRun [' '] := List.forall_mem_singleton.mpr rfl
    have htab : IsBlankRun ['\t'] := List.forall_mem_singleton.mpr rfl
    have hnext {c : Char} {rest : List Char} (hc : Text.isAsciiBlank c) :
        ∀ d ∈ (c :: rest).head?, Text.isAsciiBlank d := by
      rintro _ ⟨⟩
      exact hc
    have hend : ∀ d ∈ ([] : List Char).head?, Text.isAsciiBlank d := by
      rintro _ ⟨⟩
    exact .cons hnone (hnext rfl) <| .cons hspace (hnext rfl) <| .cons htab (hnext rfl) <|
      .cons hspace (hnext rfl) <| .cons hspace (hnext rfl) <| .cons hspace hend <|
      .cons hnone hend <| .nil hnone
  exact ⟨htokens, hspread, (tokenize_covers htokens).2 _ hspread⟩

end Spreading

end Token

end Stencil
