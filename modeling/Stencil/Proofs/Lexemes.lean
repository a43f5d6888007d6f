import Mathlib
import Stencil.Proofs.Lexing
import Stencil.Proofs.Results

/-!
# Laws of the lexer
-/
namespace Stencil

/-- The kinds of numbers. -/
def TokenKind.IsNumber : TokenKind → Prop
  | .int _ | .float _ => True
  | _ => False

def TokenKind.isName : TokenKind → Bool
  | .ident _ => true
  | _ => false

theorem TokenKind.IsNumber.endsOperand {kind : TokenKind} (h : kind.IsNumber) :
    kind.endsOperand = true := by
  cases kind <;> first | rfl | exact h.elim

namespace Token

theorem isNumber_of_number {text : List Char} {kind : TokenKind} (h : number text = .ok kind) :
    kind.IsNumber := by
  simp only [number] at h
  split at h
  · split at h <;> cases h
    trivial
  · split at h <;> cases h
    trivial

theorem lexeme_kind {afterOperand : Bool} {c : Char} {cs : List Char} {l : Lexeme}
    (h : lexeme afterOperand (c :: cs) = .ok l) : l.kind ≠ .eof := by
  simp only [lexeme] at h
  split at h
  · split at h
    · rename_i hnumber
      cases h
      rintro rfl
      exact isNumber_of_number hnumber
    · cases h
  · split at h
    · cases h
      simp
    · split at h
      · split at h <;> cases h
        simp
      · split at h <;> cases h
        simp

theorem lexFrom_kind {pos : Nat} {afterOperand : Bool} {cs : List Char} {tokens : List Token}
    (h : lexFrom pos afterOperand cs = .ok tokens) : ∀ t ∈ tokens, t.kind ≠ .eof := by
  fun_induction lexFrom pos afterOperand cs generalizing tokens with
  | case1 =>
    cases h
    exact fun t ht => (List.not_mem_nil ht).elim
  | case2 pos afterOperand c cs hblank ih => exact ih h
  | case3 => cases h
  | case4 pos afterOperand c cs hblank l hl stop =>
    rename_i ih
    cases hrest : lexFrom stop l.kind.endsOperand l.rest with
    | error e =>
      rw [hrest] at h
      cases h
    | ok later =>
      rw [hrest] at h
      cases h
      exact List.forall_mem_cons.mpr ⟨lexeme_kind hl, ih hrest⟩

theorem tokenize_eq_ok {s : String} {tokens : List Token} : tokenize s = .ok tokens ↔
    ∃ lexed, lex s = .ok lexed ∧ lexed ++ [⟨.eof, ⟨s.utf8ByteSize, s.utf8ByteSize⟩⟩] = tokens := by
  rw [tokenize]
  cases lex s with
  | error e => simp [bind, Except.bind]
  | ok lexed => simp [bind, Except.bind, pure, Except.pure]

section Breaks

variable {afterOperand : Bool} {pos : Nat} {c d : Char} {cs text rest : List Char} {l : Lexeme}
  {kind : TokenKind} {tokens : List Token}

/-- Characters with which no token goes on that may end before them. -/
def isBreak (d : Char) : Bool :=
  !(isNamePart d || d = '?' || d = '.' || d = '=' || d = '>')

theorem isBreak_of_isAsciiBlank (h : Text.isAsciiBlank d) : isBreak d := by
  simp only [Text.isAsciiBlank, Bool.or_eq_true, decide_eq_true_eq] at h
  rcases h with (((rfl | rfl) | rfl) | rfl) | rfl <;> rfl

theorem utf8Size_of_isAsciiBlank (h : Text.isAsciiBlank d) : d.utf8Size = 1 := by
  simp only [Text.isAsciiBlank, Bool.or_eq_true, decide_eq_true_eq] at h
  rcases h with (((rfl | rfl) | rfl) | rfl) | rfl <;> rfl

theorem isDigit_of_isBreak (h : isBreak d) : d.isDigit = false := by
  cases hd : d.isDigit with
  | false => rfl
  | true => simp [isBreak, isNamePart, Char.isAlphanum, hd] at h

theorem takeWhile_break {p : Char → Bool} (cs rest : List Char)
    (h : cs.dropWhile p ≠ [] ∨ p d = false) :
    (cs ++ d :: rest).takeWhile p = cs.takeWhile p ∧
      (cs ++ d :: rest).dropWhile p = cs.dropWhile p ++ d :: rest := by
  induction cs with
  | nil =>
    have hd : p d = false := h.resolve_left fun hnil => hnil rfl
    simp [hd]
  | cons c cs ih =>
    cases hc : p c with
    | false => simp [hc]
    | true => simpa [hc] using ih (by simpa [hc] using h)

theorem nameLexeme_break (hd : isBreak d) :
    nameLexeme (cs ++ d :: rest) = ((nameLexeme cs).1, (nameLexeme cs).2 ++ d :: rest) := by
  have hpart : isNamePart d = false := by
    simp only [isBreak, Bool.not_eq_true', Bool.or_eq_false_iff] at hd
    exact hd.1.1.1.1
  have hmark : d ≠ '?' := by
    rintro rfl
    cases hd
  obtain ⟨htake, hdrop⟩ := takeWhile_break cs rest (.inr hpart)
  rw [nameLexeme, htake, hdrop, nameLexeme]
  rcases hcs : cs.dropWhile isNamePart with _ | ⟨c, later⟩
  · simp [hmark]
  · by_cases hc : c = '?'
    · subst hc
      rfl
    · simp [hc]

theorem digitsLexeme_break (hd : isBreak d) :
    digitsLexeme (cs ++ d :: rest) = ((digitsLexeme cs).1, (digitsLexeme cs).2 ++ d :: rest) := by
  have hdigit := isDigit_of_isBreak hd
  have hpoint : d ≠ '.' := by
    rintro rfl
    cases hd
  obtain ⟨htake, hdrop⟩ := takeWhile_break cs rest (.inr hdigit)
  rw [digitsLexeme, htake, hdrop, digitsLexeme]
  rcases hcs : cs.dropWhile Char.isDigit with _ | ⟨c, _ | ⟨c', later⟩⟩
  · simp [hpoint]
  · by_cases hc : c = '.'
    · subst hc
      simp [hdigit]
    · simp [hc]
  · by_cases hc : c = '.'
    · subst hc
      obtain ⟨htake', hdrop'⟩ := takeWhile_break later rest (.inr hdigit)
      simp only [List.cons_append, htake', hdrop']
      split <;> rfl
    · simp [hc]

theorem symbolLexeme?_break {s : Symbol} (hd : isBreak d)
    (h : symbolLexeme? cs = some (s, text, rest)) (later : List Char) :
    symbolLexeme? (cs ++ d :: later) = some (s, text, rest ++ d :: later) := by
  have hbreaks : d ≠ '.' ∧ d ≠ '=' ∧ d ≠ '>' := by
    refine ⟨?_, ?_, ?_⟩ <;> rintro rfl <;> cases hd
  have hsecond {x : Char} (hx : d ≠ x) {rest tail : List Char}
      (h : rest ++ d :: later = x :: tail) : ∃ rest', rest = x :: rest' := by
    cases rest with
    | nil => exact absurd (List.cons.inj h).1 hx
    | cons y rest => exact ⟨rest, by rw [(List.cons.inj h).1]⟩
  unfold symbolLexeme? at h
  split at h
  all_goals cases h
  all_goals first
    | rfl
    | (rw [List.cons_append, symbolLexeme?] <;> grind)

theorem startsNumber_break (hd : isBreak d) :
    startsNumber afterOperand (c :: (cs ++ d :: rest)) = startsNumber afterOperand (c :: cs) := by
  cases cs with
  | nil => simp [startsNumber, isDigit_of_isBreak hd]
  | cons c' cs => rfl

/-- What comes after a break is no part of a token before it. -/
theorem lexeme_break (hd : isBreak d) (h : lexeme afterOperand (c :: cs) = .ok l) :
    lexeme afterOperand (c :: (cs ++ d :: rest)) = .ok ⟨l.kind, l.text, l.rest ++ d :: rest⟩ := by
  simp only [lexeme] at h ⊢
  rw [startsNumber_break hd, digitsLexeme_break hd, nameLexeme_break hd]
  split at h
  · rename_i hnumber
    rw [if_pos hnumber]
    split at h <;> cases h
    rename_i hkind
    rw [hkind]
  rename_i hnumber
  rw [if_neg hnumber]
  split at h
  · rename_i hname
    cases h
    rw [if_pos hname]
  rename_i hname
  rw [if_neg hname]
  split at h
  · rename_i hquote
    rw [if_pos hquote]
    split at h
    · cases h
    · rename_i close later hclose
      cases h
      obtain ⟨htake, hdrop⟩ := takeWhile_break (p := (· ≠ c)) (d := d) _ rest
        (.inl (hclose ▸ List.cons_ne_nil close later))
      rw [hclose] at hdrop
      rw [hdrop, htake]
      rfl
  · rename_i hquote
    rw [if_neg hquote]
    split at h <;> cases h
    rename_i hsymbol
    have hbreak := symbolLexeme?_break hd hsymbol rest
    rw [List.cons_append] at hbreak
    rw [hbreak]

theorem lexFrom_blank (hc : Text.isAsciiBlank c) :
    lexFrom pos afterOperand (c :: cs) = lexFrom (pos + 1) afterOperand cs := by
  rw [lexFrom, if_pos hc]

/-- A text is its first token and what is read after it. -/
theorem lexFrom_lexeme (h : lexeme afterOperand (c :: cs) = .ok ⟨kind, text, rest⟩) :
    lexFrom pos afterOperand (c :: cs) = (lexFrom (pos + byteLength text) kind.endsOperand rest).map
      (⟨kind, ⟨pos, pos + byteLength text⟩⟩ :: ·) := by
  rw [lexFrom, if_neg (by rw [isAsciiBlank_of_lexeme h]; decide)]
  split
  · rename_i he
    rw [h] at he
    cases he
  · rename_i l' hl'
    rw [h] at hl'
    cases hl'
    rfl

theorem lexFrom_eq_ok (hc : Text.isAsciiBlank c = false) :
    lexFrom pos afterOperand (c :: cs) = .ok tokens ↔ ∃ kind text rest later,
      lexeme afterOperand (c :: cs) = .ok ⟨kind, text, rest⟩ ∧
      lexFrom (pos + byteLength text) kind.endsOperand rest = .ok later ∧
      tokens = ⟨kind, ⟨pos, pos + byteLength text⟩⟩ :: later := by
  cases hl : lexeme afterOperand (c :: cs) with
  | ok l =>
    obtain ⟨kind, text, rest⟩ := l
    rw [lexFrom_lexeme hl, map_eq_ok]
    constructor
    · rintro ⟨later, hlater, rfl⟩
      exact ⟨kind, text, rest, later, rfl, hlater, rfl⟩
    · rintro ⟨_, _, _, later, ⟨⟩, hlater, rfl⟩
      exact ⟨later, hlater, rfl⟩
  | error fault =>
    rw [lexFrom, if_neg (by rw [hc]; decide)]
    split
    · simp
    · rename_i hl'
      rw [hl] at hl'
      cases hl'

/-- Whether an operand ends with the tokens, or before them where there are none. -/
def endsOperandAfter (before : Bool) (tokens : List Token) : Bool :=
  (tokens.getLast?.map (·.kind.endsOperand)).getD before

/-- A text is read up to a break as if it ended there. -/
theorem lexFrom_break (hd : isBreak d) (h : lexFrom pos afterOperand cs = .ok tokens) :
    lexFrom pos afterOperand (cs ++ d :: rest)
      = (lexFrom (pos + byteLength cs) (endsOperandAfter afterOperand tokens) (d :: rest)).map
          (tokens ++ ·) := by
  fun_induction lexFrom pos afterOperand cs generalizing tokens with
  | case1 pos afterOperand =>
    cases h
    exact (congrFun Except.map_id _).symm
  | case2 pos afterOperand c cs hblank ih =>
    rw [List.cons_append, lexFrom_blank hblank, ih h, byteLength_cons,
      utf8Size_of_isAsciiBlank hblank, Nat.add_assoc]
  | case3 => cases h
  | case4 pos afterOperand c cs hblank l hl stop =>
    rename_i ih
    cases hlater : lexFrom stop l.kind.endsOperand l.rest with
    | error e =>
      rw [hlater] at h
      cases h
    | ok later =>
      rw [hlater] at h
      cases h
      have hlength : pos + byteLength (c :: cs) = stop + byteLength l.rest := by
        rw [(lexeme_append hl).1, byteLength_append, Nat.add_assoc]
      have hends : endsOperandAfter afterOperand (⟨l.kind, ⟨pos, stop⟩⟩ :: later)
          = endsOperandAfter l.kind.endsOperand later := by
        cases later <;> rfl
      rw [List.cons_append, lexFrom_lexeme (lexeme_break hd hl), ih hlater, hlength, hends]
      cases lexFrom (stop + byteLength l.rest) (endsOperandAfter l.kind.endsOperand later)
        (d :: rest) <;> rfl

/-- Where a text stands makes no difference to the kinds of its tokens. -/
theorem lexFrom_kinds (h : lexFrom pos afterOperand cs = .ok tokens) (pos' : Nat) :
    ∃ tokens', lexFrom pos' afterOperand cs = .ok tokens' ∧
      tokens'.map Token.kind = tokens.map Token.kind := by
  fun_induction lexFrom pos afterOperand cs generalizing tokens pos' with
  | case1 =>
    cases h
    exact ⟨[], by rw [lexFrom], rfl⟩
  | case2 pos afterOperand c cs hblank ih =>
    rw [lexFrom_blank hblank]
    exact ih h _
  | case3 => cases h
  | case4 pos afterOperand c cs hblank l hl stop =>
    rename_i ih
    cases hlater : lexFrom stop l.kind.endsOperand l.rest with
    | error e =>
      rw [hlater] at h
      cases h
    | ok later =>
      rw [hlater] at h
      cases h
      obtain ⟨later', hlater', hkinds⟩ := ih hlater (pos' + byteLength l.text)
      exact ⟨_, lexFrom_of_lexeme hl hlater', by rw [List.map_cons, hkinds, List.map_cons]⟩

end Breaks

section Numerals

variable {afterOperand : Bool} {text whole fraction rest : List Char} {kind : TokenKind} {l : Lexeme}

/-- At least one digit, and digits only. -/
def IsDigits (text : List Char) : Prop := text ≠ [] ∧ ∀ c ∈ text, c.isDigit

/-- Digits, or digits with a point between. -/
def IsNumeral (text : List Char) : Prop :=
  IsDigits text ∨ ∃ whole fraction, IsDigits whole ∧ IsDigits fraction ∧
    text = whole ++ '.' :: fraction

theorem endsNumeral_of_isBreak {d : Char} (hd : isBreak d) : EndsNumeral (d :: rest) := by
  refine ⟨fun c hc => ?_, fun c later h => ?_⟩
  · cases hc
    exact isDigit_of_isBreak hd
  · cases h
    cases hd

theorem digitsLexeme_of_fraction (hwhole : ∀ c ∈ whole, c.isDigit) (hfraction : IsDigits fraction)
    (hrest : ∀ c ∈ rest.head?, c.isDigit = false) :
    digitsLexeme (whole ++ '.' :: (fraction ++ rest)) = (whole ++ '.' :: fraction, rest) := by
  obtain ⟨d, fraction, rfl⟩ := List.exists_cons_of_ne_nil hfraction.1
  obtain ⟨hd, hdigits⟩ := List.forall_mem_cons.mp hfraction.2
  have hpoint : ∀ c ∈ ('.' :: d :: (fraction ++ rest)).head?, c.isDigit = false := by
    rintro _ ⟨⟩
    decide
  obtain ⟨htake, hdrop⟩ := takeWhile_stop hwhole hpoint
  obtain ⟨htake', hdrop'⟩ := takeWhile_stop hdigits hrest
  rw [List.cons_append, digitsLexeme, htake, hdrop]
  simp only [hd, if_true, htake', hdrop']

theorem digitsLexeme_of_isNumeral (h : IsNumeral text) (hrest : EndsNumeral rest) :
    digitsLexeme (text ++ rest) = (text, rest) := by
  rcases h with h | ⟨whole, fraction, hwhole, hfraction, rfl⟩
  · exact digitsLexeme_of_digits h.2 hrest
  · rw [List.append_assoc, List.cons_append]
    exact digitsLexeme_of_fraction hwhole.2 hfraction hrest.1

theorem IsNumeral.startsNumber (h : IsNumeral text) :
    startsNumber false ('-' :: (text ++ rest)) = true := by
  have hhead : text.head?.any Char.isDigit := by
    rcases h with h | ⟨whole, fraction, h, -, rfl⟩
    all_goals
      obtain ⟨c, cs, rfl⟩ := List.exists_cons_of_ne_nil h.1
      exact h.2 c List.mem_cons_self
  cases text with
  | nil => cases hhead
  | cons c cs =>
    have hc : c.isDigit := hhead
    simp [Token.startsNumber, hc]

/-- A sign with a numeral behind it is read as the number. -/
theorem lexeme_negative (h : IsNumeral text) (hrest : EndsNumeral rest) :
    lexeme false ('-' :: (text ++ rest)) = .ok l ↔
      ∃ kind, number ('-' :: text) = .ok kind ∧ l = ⟨kind, '-' :: text, rest⟩ := by
  simp only [lexeme, h.startsNumber, if_true, digitsLexeme_of_isNumeral h hrest]
  cases number ('-' :: text) with
  | error fault => simp
  | ok kind => simp [eq_comm]

/-- A text that begins with a digit begins with a number. -/
theorem lexFrom_digit {pos : Nat} {c : Char} {cs : List Char} {tokens : List Token}
    (hc : c.isDigit) (h : lexFrom pos afterOperand (c :: cs) = .ok tokens) :
    ∃ t later, tokens = t :: later ∧ t.kind.IsNumber := by
  have hblank : Text.isAsciiBlank c = false := by
    by_contra hblank
    simp only [Text.isAsciiBlank, Bool.not_eq_false, Bool.or_eq_true, decide_eq_true_eq] at hblank
    rcases hblank with (((rfl | rfl) | rfl) | rfl) | rfl <;> cases hc
  obtain ⟨kind, text, rest, later, hl, -, rfl⟩ := (lexFrom_eq_ok hblank).mp h
  have hstarts : Token.startsNumber afterOperand (c :: cs) = true := by simp [Token.startsNumber, hc]
  simp only [lexeme, hstarts, if_true] at hl
  split at hl <;> cases hl
  rename_i hnumber
  exact ⟨_, later, rfl, isNumber_of_number hnumber⟩

theorem lexeme_minus : lexeme true ('-' :: rest) = .ok ⟨.symbol .minus, ['-'], rest⟩ := by
  simp [lexeme, startsNumber, isNameStart, symbolLexeme?]

end Numerals

end Token

end Stencil
