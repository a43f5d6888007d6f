import Mathlib
import Stencil.Proofs.Brackets
import Stencil.Proofs.Prefixes
import Stencil.Proofs.Results

/-!
# Signs before operands

A signed number after a name, a number, a text or a closing bracket is a subtraction to the lexer.
So the brackets around a negative number can be left out just where none of these comes before
them: not after a keyword.
-/
namespace Stencil

namespace Token

variable {before num after : List Char} {tokens lexed : List Token} {pos : Nat}

/-- Tokens with a negative number in brackets among them. -/
theorem lexFrom_bracketed (hbefore : lexFrom 0 false before = .ok lexed) (hnum : IsNumeral num)
    (h : lexFrom 0 false (before ++ '(' :: '-' :: (num ++ ')' :: after)) = .ok tokens) :
    ∃ left u right later pos, tokens = lexed ++ left :: u :: right :: later ∧
      left.kind = .symbol .leftParen ∧ right.kind = .symbol .rightParen ∧
      number ('-' :: num) = .ok u.kind ∧ lexFrom pos true after = .ok later := by
  have hleft (b : Bool) (rest : List Char) :
      lexeme b ('(' :: rest) = .ok ⟨.symbol .leftParen, ['('], rest⟩ := by
    simp [lexeme, startsNumber, isNameStart, symbolLexeme?]
  have hright (b : Bool) (rest : List Char) :
      lexeme b (')' :: rest) = .ok ⟨.symbol .rightParen, [')'], rest⟩ := by
    simp [lexeme, startsNumber, isNameStart, symbolLexeme?]
  rw [lexFrom_break rfl hbefore] at h
  obtain ⟨rest, hrest, rfl⟩ := map_eq_ok.mp h
  rw [lexFrom_lexeme (hleft _ _)] at hrest
  obtain ⟨rest, hnumber, rfl⟩ := map_eq_ok.mp hrest
  obtain ⟨kind, text, rest, later, hl, hrest, rfl⟩ := (lexFrom_eq_ok rfl).mp hnumber
  obtain ⟨_, hkind, ⟨⟩⟩ := (lexeme_negative hnum (endsNumeral_of_isBreak rfl)).mp hl
  rw [lexFrom_lexeme (hright _ _)] at hrest
  obtain ⟨later, hlater, rfl⟩ := map_eq_ok.mp hrest
  exact ⟨_, _, _, later, _, rfl, rfl, rfl, hkind, hlater⟩

/-- Without the brackets the number is the same where a sign may stand. -/
theorem lexFrom_signed {kind : TokenKind} {later : List Token}
    (hbefore : lexFrom 0 false before = .ok lexed) (hends : endsOperandAfter false lexed = false)
    (hnum : IsNumeral num) (hkind : number ('-' :: num) = .ok kind)
    (hlater : lexFrom pos true after = .ok later) (hafter : EndsNumeral after) :
    ∃ t later',
      lexFrom 0 false (before ++ ' ' :: '-' :: (num ++ after)) = .ok (lexed ++ t :: later') ∧
      t.kind = kind ∧ later'.map Token.kind = later.map Token.kind := by
  have hl : lexeme false ('-' :: (num ++ after)) = .ok ⟨kind, '-' :: num, after⟩ :=
    (lexeme_negative hnum hafter).mpr ⟨kind, hkind, rfl⟩
  obtain ⟨later', hlater', hkinds⟩ :=
    lexFrom_kinds hlater (0 + byteLength before + 1 + byteLength ('-' :: num))
  rw [← (isNumber_of_number hkind).endsOperand] at hlater'
  rw [lexFrom_break rfl hbefore, hends, lexFrom_blank rfl, lexFrom_of_lexeme hl hlater']
  exact ⟨_, later', rfl, rfl, hkinds⟩

/-- Where an operand has ended the sign is an operator. -/
theorem lexFrom_subtracted (hbefore : lexFrom 0 false before = .ok lexed)
    (hends : endsOperandAfter false lexed = true)
    (h : lexFrom 0 false (before ++ ' ' :: '-' :: (num ++ after)) = .ok tokens) :
    ∃ t later, tokens = lexed ++ t :: later ∧ t.kind = .symbol .minus := by
  rw [lexFrom_break rfl hbefore, hends, lexFrom_blank rfl, lexFrom_lexeme lexeme_minus] at h
  obtain ⟨rest, hrest, rfl⟩ := map_eq_ok.mp h
  obtain ⟨later, -, rfl⟩ := map_eq_ok.mp hrest
  exact ⟨_, later, rfl, rfl⟩

theorem endsOperandAfter_eq_isName
    (h : ∀ kind ∈ (lexed.map Token.kind).getLast?, kind.endsOperand → kind.isName) :
    endsOperandAfter false lexed = lexed.getLast?.any (·.kind.isName) := by
  rw [List.getLast?_map] at h
  rw [endsOperandAfter]
  cases hlast : lexed.getLast? with
  | none => rfl
  | some t =>
    have hname := h t.kind (by rw [hlast]; rfl)
    change t.kind.endsOperand = t.kind.isName
    cases hkind : t.kind.isName with
    | true =>
      cases ht : t.kind <;> first | rfl | (rw [ht] at hkind; cases hkind)
    | false => exact Bool.eq_false_iff.mpr fun hends => by simp [hname hends] at hkind

end Token

namespace Parser

variable {α : Type} {p : Parser Expr → Parser α} {same : α → α → Prop} {gs σ : List Goal}
  {s before num after : String} {lexed : List Token} {a : α}

theorem endsOperand_of_not_isName {kind : TokenKind} (hends : kind.endsOperand)
    (hname : ¬ kind.isName) : EndsOperand kind := by
  cases kind with
  | symbol s => cases s <;> trivial
  | ident => exact absurd rfl hname
  | eof => cases hends
  | int | float | str => trivial

/-- Where a number in brackets is read an operand begins, and ends. -/
theorem walk_bracketed {lexed later : List TokenKind} {number : TokenKind} (hgs : Settled gs)
    (hnumber : number.IsNumber)
    (h : Completes gs (lexed ++ .symbol .leftParen :: number :: .symbol .rightParen :: later)) :
    (∀ kind ∈ lexed.getLast?, kind.endsOperand → kind.isName) ∧
      (∃ σ, walk gs lexed = some σ ∧ step (.symbol .minus) σ = none) ∧
      ∀ kind ∈ later.head?, ¬ kind.IsNumber := by
  obtain ⟨σ', hwalk, -⟩ := h
  rw [walk_append] at hwalk
  obtain ⟨σ, hlexed, hwalk⟩ := Option.bind_eq_some_iff.mp hwalk
  have hσ : Settled σ := hgs.walk hlexed
  have hparen : (step (.symbol .leftParen) σ).isSome := by
    obtain ⟨σ₁, hstep, -⟩ := Option.bind_eq_some_iff.mp hwalk
    rw [hstep]
    rfl
  obtain ⟨σ₁, -, hbrackets, hhead⟩ := step_number hnumber hσ hparen
  refine ⟨fun kind hkind hends => ?_, ⟨σ, hlexed, step_minus hσ hparen⟩,
    fun kind hkind hlater => ?_⟩
  · obtain ⟨init, rfl⟩ := List.getLast?_eq_some_iff.mp hkind
    rw [walk_append] at hlexed
    obtain ⟨σ₀, hinit, hlast⟩ := Option.bind_eq_some_iff.mp hlexed
    obtain ⟨_, hstep, ⟨⟩⟩ := Option.bind_eq_some_iff.mp hlast
    by_contra hname
    have hoperand : EndsOperand kind := endsOperand_of_not_isName hends hname
    have hhead := opens_of_endsOperand (hgs.walk hinit) hoperand hstep
    have hnone : step (.symbol .leftParen) σ = none := step_of_not_opens hσ hhead (by trivial)
    rw [hnone] at hparen
    cases hparen
  obtain ⟨later, rfl⟩ := List.head?_eq_some_iff.mp hkind
  have hoperand : BeginsOperand kind := by
    cases kind <;> trivial
  have hsplit := walk_append σ [.symbol .leftParen, number, .symbol .rightParen] (kind :: later)
  rw [hbrackets, Option.bind_some, walk, step_of_not_opens (hσ.walk hbrackets) hhead hoperand]
    at hsplit
  rw [List.cons_append, List.cons_append, List.cons_append, List.nil_append, hwalk] at hsplit
  cases hsplit

/-- Where an operand has ended a text goes on with the sign as an operator, which the goals there
do not take. -/
theorem read_subtracted (hgoals : ∀ n, Discharges n (p (nested n)) gs)
    (hbefore : Token.lex before = .ok lexed) (hends : Token.endsOperandAfter false lexed = true)
    (hwalk : walk gs (lexed.map Token.kind) = some σ) (hminus : step (.symbol .minus) σ = none)
    (hs : s.toList = before.toList ++ ' ' :: '-' :: (num.toList ++ after.toList)) :
    ∃ e, read p s = .error e := by
  cases hread : read p s with
  | error e => exact ⟨e, rfl⟩
  | ok b =>
    obtain ⟨tokens, rest, hlex, hwhole⟩ := read_eq_ok.mp hread
    rw [Token.lex, hs] at hlex
    obtain ⟨t, later, rfl, ht⟩ := Token.lexFrom_subtracted hbefore hends hlex
    obtain ⟨σ', htaken, -⟩ := (whole_isOk (hgoals _)).mp ⟨_, hwhole⟩
    rw [List.map_append, List.map_cons, ht, walk_append, hwalk, Option.bind_some, walk, hminus]
      at htaken
    cases htaken

/-- The brackets around a negative number are left out where no operand has ended before them, and
only there. -/
theorem read_signed (hgoals : ∀ n, Discharges n (p (nested n)) gs) (hgs : Settled gs)
    (htracks : ∀ n k, Tracks k same (p (nested n)) (p (nested k)))
    (hbefore : Token.lex before = .ok lexed) (hnum : Token.IsNumeral num.toList)
    (hafter : ∀ c later, after.toList = '.' :: c :: later → c.isDigit = false)
    (h : read p (before ++ "(-" ++ num ++ ")" ++ after) = .ok a) :
    if lexed.getLast?.any (·.kind.isName) then
      ∃ e, read p (before ++ " -" ++ num ++ after) = .error e
    else ∃ b, read p (before ++ " -" ++ num ++ after) = .ok b ∧ same a b := by
  have hbracketed : (before ++ "(-" ++ num ++ ")" ++ after).toList
      = before.toList ++ '(' :: '-' :: (num.toList ++ ')' :: after.toList) := by
    simp [String.toList_append]
  have hsigned : (before ++ " -" ++ num ++ after).toList
      = before.toList ++ ' ' :: '-' :: (num.toList ++ after.toList) := by
    simp [String.toList_append]
  obtain ⟨tokens, rest, hlex, hwhole⟩ := read_eq_ok.mp h
  rw [Token.lex, hbracketed] at hlex
  obtain ⟨left, u, right, later, pos, rfl, hleft, hright, hnumber, hlater⟩ :=
    Token.lexFrom_bracketed hbefore hnum hlex
  have hu : u.kind.IsNumber := Token.isNumber_of_number hnumber
  have hcompletes := (whole_isOk (hgoals _)).mp ⟨_, hwhole⟩
  rw [List.map_append, List.map_cons, List.map_cons, List.map_cons, hleft, hright] at hcompletes
  obtain ⟨hlast, ⟨σ, hwalk, hminus⟩, hhead⟩ := walk_bracketed hgs hu hcompletes
  rw [← Token.endsOperandAfter_eq_isName hlast]
  split
  · rename_i hends
    exact read_subtracted hgoals hbefore hends hwalk hminus hsigned
  · rename_i hends
    -- a digit right behind the bracket would be a number that no goal takes
    have hdigit : ∀ c ∈ after.toList.head?, c.isDigit = false := by
      intro c hc
      by_contra hdigit
      obtain ⟨cs, hcs⟩ := List.head?_eq_some_iff.mp hc
      rw [hcs] at hlater
      obtain ⟨t, later, rfl, ht⟩ := Token.lexFrom_digit (Bool.not_eq_false _ ▸ hdigit) hlater
      exact hhead t.kind rfl ht
    obtain ⟨t, later', hlex', ht, hkinds⟩ := Token.lexFrom_signed hbefore
      (Bool.eq_false_iff.mpr hends) hnum hnumber hlater ⟨hdigit, hafter⟩
    rw [← hsigned] at hlex'
    have hunbracketed :
        Unbracketed (lexed ++ left :: u :: right :: later) (lexed ++ t :: later') :=
      (Unbracketed.of_kinds rfl).append
        (.drop hleft hright hu ht.symm (.of_kinds hkinds.symm))
    obtain ⟨b, rest', hwhole', hab, -⟩ :=
      whole_tracks (htracks _ _) _ _ _ _ hunbracketed (Nat.le_refl _) hwhole
    exact ⟨b, read_eq_ok.mpr ⟨_, rest', hlex', hwhole'⟩, hab⟩

theorem nested_pipeline_tracks (n k : Nat) :
    Tracks k SameExpr (pipeline (nested n)) (pipeline (nested k)) :=
  pipeline_tracks (nested_tracks n k) (nested_discharges k)

theorem nested_statement_tracks (production : Production) (n k : Nat) :
    Tracks k SameStatement (statement (nested n) production) (statement (nested k) production) :=
  statement_tracks (nested_readsNumbers n) (nested_tracks n k) (nested_discharges k) production

end Parser

/-- Where a text with a negative number in brackets is an expression or a statement, so is the text
with the number alone, and the same one, unless a name comes right before it. That name is a
keyword then, and the sign behind it is taken for a subtraction from it. -/
theorem parse_signed {before num after : String} {lexed : List Token}
    (hbefore : Token.lex before = .ok lexed) (hnum : Token.IsNumeral num.toList)
    (hafter : ∀ c later, after.toList = '.' :: c :: later → c.isDigit = false) :
    (∀ e, Expr.parse (before ++ "(-" ++ num ++ ")" ++ after) = .ok e →
      if lexed.getLast?.any (·.kind.isName) then
        ∃ error, Expr.parse (before ++ " -" ++ num ++ after) = .error error
      else ∃ e', Expr.parse (before ++ " -" ++ num ++ after) = .ok e' ∧
        e.unplaced = e'.unplaced) ∧
    ∀ production s,
      Statement.parse production (before ++ "(-" ++ num ++ ")" ++ after) = .ok s →
        if lexed.getLast?.any (·.kind.isName) then
          ∃ error, Statement.parse production (before ++ " -" ++ num ++ after) = .error error
        else ∃ s', Statement.parse production (before ++ " -" ++ num ++ after) = .ok s' ∧
          s.unplaced = s'.unplaced := by
  refine ⟨fun e he => ?_, fun production s hs => ?_⟩
  · exact Parser.read_signed Parser.pipeline_nested_discharges (Parser.settled_goals .expression)
      Parser.nested_pipeline_tracks hbefore hnum hafter he
  · exact Parser.read_signed
      (fun n => Parser.statement_discharges (Parser.nested_discharges n) production)
      (Parser.settled_goals production) (Parser.nested_statement_tracks production) hbefore hnum
      hafter hs

/-- A negative argument of a filter needs no brackets. -/
theorem parse_signed_argument :
    Token.lex "a | plus: " = .ok [⟨.ident "a", ⟨0, 1⟩⟩, ⟨.symbol .pipe, ⟨2, 3⟩⟩,
      ⟨.ident "plus", ⟨4, 8⟩⟩, ⟨.symbol .colon, ⟨8, 9⟩⟩] ∧
    Token.IsNumeral "1".toList ∧
    ∃ e, Expr.parse "a | plus: (-1), b" = .ok e ∧
      ∃ e', Expr.parse "a | plus:  -1, b" = .ok e' ∧ e.unplaced = e'.unplaced := by
  have hbefore : Token.lex "a | plus: " = .ok [⟨.ident "a", ⟨0, 1⟩⟩, ⟨.symbol .pipe, ⟨2, 3⟩⟩,
      ⟨.ident "plus", ⟨4, 8⟩⟩, ⟨.symbol .colon, ⟨8, 9⟩⟩] := by cbv
  have hnum : Token.IsNumeral "1".toList := .inl ⟨by simp, by simp⟩
  have hparse : Expr.parse ("a | plus: " ++ "(-" ++ "1" ++ ")" ++ ", b")
      = .ok (.filtered (.variable "a")
          [.mk "plus" [.literal (.int (-1)), .variable "b"] [] ⟨4, 17⟩]) := by cbv
  have hsame := (parse_signed hbefore hnum (by simp)).1 _ hparse
  exact ⟨hbefore, hnum, _, hparse, hsame⟩

/-- After a keyword the brackets around a negative number cannot be left out. -/
theorem bare_negative_after_keyword :
    Token.lex "a and " = .ok [⟨.ident "a", ⟨0, 1⟩⟩, ⟨.ident "and", ⟨2, 5⟩⟩] ∧
    Expr.parse ("a and " ++ "(-" ++ "1" ++ ")" ++ "")
      = .ok (.binary .and (.variable "a") (.literal (.int (-1)))) ∧
    Expr.parse ("a and " ++ " -" ++ "1" ++ "")
      = .error ⟨.expected "a value" (.symbol .minus), ⟨7, 8⟩⟩ := by
  refine ⟨by cbv, by cbv, by cbv⟩

end Stencil
