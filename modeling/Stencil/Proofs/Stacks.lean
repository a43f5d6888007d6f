import Mathlib
import Stencil.Proofs.Goals
import Stencil.Proofs.Lexemes

/-!
# Stacks of goals

What follows what on a stack: beneath a goal that may be passed over there is none with which an
operand begins, and none that belongs right behind the token before it. So every stack can be
brought to an end, and where an operand has just ended none begins.
-/
namespace Stencil.Parser

open Goal

variable {g : Goal} {gs σ σ' : List Goal} {kind : TokenKind} {kinds : List TokenKind}

/-- The goals that are left after some tokens. -/
def walk (σ : List Goal) : List TokenKind → Option (List Goal)
  | [] => some σ
  | kind :: kinds => (step kind σ).bind fun σ => walk σ kinds

/-- Tokens after which a text may end. -/
def Completes (σ : List Goal) (kinds : List TokenKind) : Prop :=
  ∃ σ', walk σ kinds = some σ' ∧ σ'.all mayEnd

namespace Goal

/-- Whether an operand may begin where the goal comes next. -/
def opens : Goal → Bool
  | marks | value | member | argument _ | key false => true
  | _ => false

/-- Whether an operand has ended once the goal has been dealt with. -/
def settles : Goal → Bool
  | marks | key false | assign | colon | inWord | name => false
  | _ => true

def isColon : Goal → Bool
  | colon => true
  | _ => false

/-- Whether a goal is the last one. -/
def isLast : Goal → Bool
  | parameters | parameter => true
  | _ => false

/-- Whether a goal may stand right above another one. -/
def adjoins (g h : Goal) : Bool :=
  !g.isLast && !((g.isOptional || g.settles) && h.isColon) && !(g.settles && h.opens)

end Goal

/-- Every goal may stand above the one beneath it. -/
def Settled (σ : List Goal) : Prop := σ.IsChain fun g h => g.adjoins h

instance (σ : List Goal) : Decidable (Settled σ) := inferInstanceAs (Decidable (List.IsChain _ σ))

theorem settled_naming (h : Settled (g :: σ)) : Settled (g :: naming σ) := by
  induction σ generalizing g with
  | nil => exact h
  | cons g' σ ih =>
    obtain ⟨hadjoins, hσ⟩ := List.isChain_cons_cons.mp h
    cases g' with
    | furtherArguments named =>
      refine List.isChain_cons_cons.mpr ⟨hadjoins, ?_⟩
      cases σ with
      | nil => exact List.isChain_singleton _
      | cons next σ => exact List.isChain_cons_cons.mpr (List.isChain_cons_cons.mp hσ)
    | _ => exact List.isChain_cons_cons.mpr ⟨hadjoins, ih hσ⟩

theorem settled_beneath (h : Settled (g :: σ)) : Settled (g :: g.beneath σ) := by
  cases g with
  | key operand => exact settled_naming h
  | _ => exact h

/-- Whether whatever may stand beneath a goal may stand beneath another one. -/
def Goal.allows (g last : Goal) : Bool :=
  g.isLast || !last.isLast && (g.settles || !last.settles) &&
    (g.isOptional || g.settles || !last.isOptional)

theorem adjoins_of_allows {last next : Goal} (h : g.allows last) (hg : g.adjoins next) :
    last.adjoins next := by
  simp only [allows, adjoins, Bool.or_eq_true, Bool.and_eq_true, Bool.not_eq_true',
    Bool.and_eq_false_imp] at *
  grind

/-- Goals that a token may bring where another one stood. -/
def Goal.admits (g : Goal) (gs : List Goal) : Prop :=
  Settled gs ∧ ∀ last ∈ gs.getLast?, g.allows last

instance (g : Goal) (gs : List Goal) : Decidable (g.admits gs) :=
  inferInstanceAs (Decidable (_ ∧ _))

theorem admits_nil : g.admits [] := ⟨List.isChain_nil, fun _ h => by cases h⟩

theorem admits_of_ite {c : Prop} [Decidable c] {bring : List Goal} (hg : g.admits bring)
    (h : (if c then some bring else none) = some gs) : g.admits gs := by
  split at h <;> cases h
  exact hg

theorem admits_more {level : Nat} (h : (more level).take? kind = some gs) :
    (more level).admits gs := by
  obtain ⟨op, hop, rfl⟩ := Option.map_eq_some_iff.mp h
  match level with
  | 0 | 1 | 2 | 3 | 4 | 5 => decide
  | n + 6 => cases hop

theorem admits_ofValue? (h : ofValue? kind = some gs) : value.admits gs := by
  unfold ofValue? at h
  split at h
  · cases h
    decide
  · exact admits_of_ite admits_nil h

theorem admits_ofParameter? (hg : g.admits (colon :: expression ++ [parameters]))
    (h : ofParameter? kind = some gs) : g.admits gs := by
  unfold ofParameter? at h
  split at h <;> cases h
  exact hg

theorem admits_argument {named : Bool} (h : (Goal.argument named).take? kind = some gs) :
    (Goal.argument named).admits gs := by
  cases named with
  | true =>
    simp only [Goal.take?] at h
    split at h <;> cases h
    decide
  | false =>
    simp only [Goal.take?] at h
    split at h
    · cases h
      decide
    split at h
    · cases h
      decide
    · obtain ⟨gs', hvalue, rfl⟩ := Option.map_eq_some_iff.mp h
      unfold ofValue? at hvalue
      split at hvalue
      · cases hvalue
        decide
      · split at hvalue <;> cases hvalue
        decide

/-- What a token brings may stand where the goal stood that took it. -/
theorem admits_take? (h : g.take? kind = some gs) : g.admits gs := by
  cases g with
  | value => exact admits_ofValue? h
  | more level => exact admits_more h
  | argument named => exact admits_argument h
  | parameter => exact admits_ofParameter? (by decide) h
  | rightParen | rightBracket | assign | colon | comma | inWord =>
    exact admits_of_ite admits_nil h
  | marks | bound | filters | arguments | group | items | alternatives | subject | newName =>
    exact admits_of_ite (by decide) h
  | furtherArguments named => cases named <;> exact admits_of_ite (by decide) h
  | key operand => cases operand <;> exact admits_of_ite (by decide) h
  | compared =>
    obtain ⟨op, -, rfl⟩ := Option.map_eq_some_iff.mp h
    decide
  | member | name =>
    simp only [Goal.take?] at h
    split at h <;> cases h <;> exact admits_nil
  | steps | modifiers =>
    simp only [Goal.take?] at h
    split at h
    · cases h
      decide
    · exact admits_of_ite (by decide) h
  | parameters =>
    simp only [Goal.take?] at h
    split at h
    · cases h
      decide
    · exact admits_ofParameter? (by decide) h

/-- Reading a token leaves goals that may stand on each other. -/
theorem Settled.step (h : Settled σ) (hstep : step kind σ = some σ') : Settled σ' := by
  induction σ with
  | nil => cases hstep
  | cons g σ ih =>
    unfold Parser.step at hstep
    split at hstep
    · rename_i gs htake
      cases hstep
      obtain ⟨hgs, hlast⟩ := admits_take? htake
      obtain ⟨hhead, hbeneath⟩ := List.isChain_cons.mp (settled_beneath h)
      refine List.isChain_append.mpr ⟨hgs, hbeneath, fun last hmem next hnext => ?_⟩
      exact adjoins_of_allows (hlast last hmem) (hhead next hnext)
    · split at hstep
      · exact ih h.tail hstep
      · cases hstep

theorem Settled.walk (h : Settled σ) (hwalk : walk σ kinds = some σ') : Settled σ' := by
  induction kinds generalizing σ with
  | nil =>
    cases hwalk
    exact h
  | cons kind kinds ih =>
    obtain ⟨σ₁, hstep, hwalk⟩ := Option.bind_eq_some_iff.mp hwalk
    exact ih (h.step hstep) hwalk

section Operands

/-- The tokens with which an operand begins, other than names. -/
def BeginsOperand : TokenKind → Prop
  | .int _ | .float _ | .str _ | .symbol .leftParen => True
  | _ => False

theorem operatorAt_of_beginsOperand (level : Nat) (hkind : BeginsOperand kind) :
    operatorAt level kind = none := by
  refine operatorAt_of_stops (stops_of_none ?_)
  cases kind with
  | symbol s => cases s <;> first | rfl | exact False.elim hkind
  | int | float | str => rfl
  | _ => exact False.elim hkind

theorem take?_of_not_opens (hg : g.opens = false) (hkind : BeginsOperand kind) :
    g.take? kind = none := by
  cases g with
  | more level => exact congrArg (Option.map _) (operatorAt_of_beginsOperand level hkind)
  | compared => exact congrArg (Option.map _) (operatorAt_of_beginsOperand 3 hkind)
  | marks | value | member => cases hg
  | _ =>
    cases kind with
    | symbol s => cases s <;> first | rfl | exact False.elim hkind | cases hg
    | int | float | str => first | rfl | cases hg
    | _ => exact False.elim hkind

theorem settles_of_isOptional (hg : g.opens = false) (hoptional : g.isOptional) : g.settles := by
  cases g with
  | key operand => cases operand <;> first | rfl | cases hg
  | marks => cases hg
  | rightParen | rightBracket | assign | colon | inWord | name => cases hoptional
  | _ => rfl

theorem opens_of_settles (h : Settled (g :: σ)) (hg : g.settles) :
    ∀ next ∈ σ.head?, next.opens = false := by
  intro next hnext
  have hadjoins := (List.isChain_cons.mp h).1 next hnext
  simp only [adjoins, hg, Bool.and_eq_true, Bool.true_and, Bool.not_eq_true'] at hadjoins
  exact hadjoins.2

/-- Where an operand has ended none begins. -/
theorem step_of_not_opens (h : Settled σ) (hhead : ∀ g ∈ σ.head?, g.opens = false)
    (hkind : BeginsOperand kind) : step kind σ = none := by
  induction σ with
  | nil => rfl
  | cons g σ ih =>
    have hg : g.opens = false := hhead g rfl
    have htake := take?_of_not_opens hg hkind
    cases hoptional : g.isOptional with
    | false => exact step_reject hoptional htake
    | true =>
      rw [step_pass hoptional htake]
      exact ih h.tail (opens_of_settles h (settles_of_isOptional hg hoptional))

/-- The tokens other than names with which an operand ends. -/
def EndsOperand : TokenKind → Prop
  | .int _ | .float _ | .str _ | .symbol .rightParen | .symbol .rightBracket => True
  | _ => False

/-- A token with which an operand ends is all that its goal asks for, or brings operators. -/
theorem take?_of_endsOperand (hkind : EndsOperand kind) (htake : g.take? kind = some gs) :
    gs = operations ∨ gs = [] ∧ g.settles ∧ g.beneath σ = σ := by
  have hoperator (level : Nat) : operatorAt level kind = none := by
    refine operatorAt_of_stops (stops_of_none ?_)
    cases kind with
    | symbol s => cases s <;> first | rfl | exact False.elim hkind
    | int | float | str => rfl
    | _ => exact False.elim hkind
  cases g with
  | more level =>
    obtain ⟨op, hop, -⟩ := Option.map_eq_some_iff.mp htake
    rw [hoperator] at hop
    cases hop
  | compared =>
    obtain ⟨op, hop, -⟩ := Option.map_eq_some_iff.mp htake
    have hnone : comparisonOperator? kind = none := hoperator 3
    rw [hnone] at hop
    cases hop
  | argument named =>
    cases named <;> cases kind with
    | symbol s => cases s <;> first | exact False.elim hkind | cases htake
    | int | float | str =>
      cases htake <;> exact .inl rfl
    | _ => exact False.elim hkind
  | _ =>
    cases kind with
    | symbol s =>
      cases s <;> first
        | exact False.elim hkind
        | cases htake
          done
        | cases htake
          exact .inr ⟨rfl, rfl, rfl⟩
    | int | float | str =>
      first
        | cases htake
          done
        | cases htake
          exact .inr ⟨rfl, rfl, rfl⟩
    | _ => exact False.elim hkind

/-- Where an operand has ended none begins right after it. -/
theorem opens_of_endsOperand (h : Settled σ) (hkind : EndsOperand kind)
    (hstep : step kind σ = some σ') : ∀ g ∈ σ'.head?, g.opens = false := by
  induction σ with
  | nil => cases hstep
  | cons g σ ih =>
    unfold step at hstep
    split at hstep
    · rename_i gs htake
      cases hstep
      rcases take?_of_endsOperand (σ := σ) hkind htake with rfl | ⟨rfl, hsettles, hbeneath⟩
      · rintro _ ⟨⟩
        rfl
      · rw [hbeneath]
        exact opens_of_settles h hsettles
    · split at hstep
      · exact ih h.tail hstep
      · cases hstep

/-- A number in brackets is read as the number is, and no operand begins right after it. -/
theorem step_number {number : TokenKind} (hnumber : number.IsNumber) (h : Settled σ)
    (hparen : (step (.symbol .leftParen) σ).isSome) :
    ∃ σ', step number σ = some σ' ∧
      walk σ [.symbol .leftParen, number, .symbol .rightParen] = some σ' ∧
      ∀ g ∈ σ'.head?, g.opens = false := by
  have hkind : BeginsOperand number := by
    cases number <;> trivial
  induction σ with
  | nil => cases hparen
  | cons g σ ih =>
    have hpass (hg : g.isOptional) (hlp : g.take? (.symbol .leftParen) = none)
        (hn : g.take? number = none) : ∃ σ', step number (g :: σ) = some σ' ∧
          walk (g :: σ) [.symbol .leftParen, number, .symbol .rightParen] = some σ' ∧
          ∀ g ∈ σ'.head?, g.opens = false := by
      have hstep : step (.symbol .leftParen) (g :: σ) = step (.symbol .leftParen) σ :=
        step_pass hg hlp
      rw [hstep] at hparen
      rw [step_pass hg hn, walk, hstep]
      exact ih h.tail hparen
    cases hopens : g.opens with
    | false =>
      rw [step_of_not_opens h (by rintro _ ⟨⟩; exact hopens) (by trivial)] at hparen
      cases hparen
    | true =>
      cases g with
      | value =>
        refine ⟨σ, ?_, ?_, opens_of_settles h rfl⟩
        · cases number <;> first | rfl | exact False.elim hnumber
        · cases number <;> first | rfl | exact False.elim hnumber
      | argument named =>
        cases named with
        | true => cases hparen
        | false =>
          refine ⟨operations ++ σ, ?_, ?_, ?_⟩
          · cases number <;> first | rfl | exact False.elim hnumber
          · cases number <;> first | rfl | exact False.elim hnumber
          · rintro _ ⟨⟩
            rfl
      | marks | key operand =>
        exact hpass rfl rfl (by cases number <;> first | rfl | exact False.elim hnumber)
      | member => cases hparen
      | _ => cases hopens

/-- Where an operand in brackets may begin there is no operator. -/
theorem step_minus (h : Settled σ) (hparen : (step (.symbol .leftParen) σ).isSome) :
    step (.symbol .minus) σ = none := by
  induction σ with
  | nil => rfl
  | cons g σ ih =>
    cases hopens : g.opens with
    | false =>
      rw [step_of_not_opens h (by rintro _ ⟨⟩; exact hopens) (by trivial)] at hparen
      cases hparen
    | true =>
      cases g with
      | marks => exact ih h.tail hparen
      | key operand => exact ih h.tail hparen
      | argument named => cases named <;> rfl
      | value | member => rfl
      | _ => cases hopens

end Operands

section Ends

/-- The tokens that no goal takes which may be passed over. -/
def IsPlain (kind : TokenKind) : Prop := ∀ g : Goal, g.isOptional → g.take? kind = none

theorem isPlain_of_mem (h : kind ∈ [.int 0, .ident "x", .ident "in", .symbol .rightParen,
    .symbol .rightBracket, .symbol .assign]) : IsPlain kind := by
  intro g hg
  fin_cases h
  all_goals cases g with
  | more level => exact congrArg (Option.map _) (operatorAt_of_stops (stops_of_none rfl))
  | _ => first | rfl | cases hg

/-- Tokens are left to a goal beneath one that may be passed over. -/
theorem Completes.pass (hg : g.isOptional) (hkinds : ∀ kind ∈ kinds.head?, IsPlain kind)
    (h : Completes σ kinds) : Completes (g :: σ) kinds := by
  obtain ⟨σ', hwalk, hend⟩ := h
  cases kinds with
  | nil =>
    cases hwalk
    exact ⟨g :: σ, rfl, by rw [List.all_cons, mayEnd_of_isOptional hg, hend]; rfl⟩
  | cons kind kinds =>
    refine ⟨σ', ?_, hend⟩
    rw [walk, step_pass hg (hkinds kind rfl g hg)]
    exact hwalk

theorem Completes.take (htake : g.take? kind = some gs) (h : Completes (gs ++ g.beneath σ) kinds) :
    Completes (g :: σ) (kind :: kinds) := by
  obtain ⟨σ', hwalk, hend⟩ := h
  refine ⟨σ', ?_, hend⟩
  rw [walk, step, htake]
  exact hwalk

theorem Completes.passAll (hgs : ∀ g ∈ gs, g.isOptional)
    (hkinds : ∀ kind ∈ kinds.head?, IsPlain kind) (h : Completes σ kinds) :
    Completes (gs ++ σ) kinds := by
  induction gs with
  | nil => exact h
  | cons g gs ih =>
    obtain ⟨hg, hgs⟩ := List.forall_mem_cons.mp hgs
    exact (ih hgs).pass hg hkinds

/-- An expression is a single number at least. -/
theorem Completes.expression (hkinds : ∀ kind ∈ kinds.head?, IsPlain kind)
    (h : Completes σ kinds) : Completes (expression ++ σ) (.int 0 :: kinds) := by
  have hoperations : Completes (operations ++ σ) kinds := h.passAll (by decide) hkinds
  have hvalue : Completes (value :: (operations ++ σ)) (.int 0 :: kinds) := .take rfl hoperations
  refine hvalue.pass rfl ?_
  rintro _ ⟨⟩
  exact isPlain_of_mem (by simp)

/-- Tokens that complete the goals. What may be passed over does not take the first of them, unless
a colon is asked for. -/
structure Supplies (σ : List Goal) (kinds : List TokenKind) : Prop where
  completes : Completes σ kinds
  ne_eof : ∀ kind ∈ kinds, kind ≠ .eof
  head : ∀ kind ∈ kinds.head?, IsPlain kind ∨ ∃ g ∈ σ.head?, g.isColon

theorem Supplies.isPlain (h : Supplies σ kinds) (hsettled : Settled (g :: σ))
    (hg : g.isOptional || g.settles) : ∀ kind ∈ kinds.head?, IsPlain kind := by
  intro kind hkind
  refine (h.head kind hkind).resolve_right fun ⟨next, hnext, hcolon⟩ => ?_
  have hadjoins := (List.isChain_cons.mp hsettled).1 next hnext
  simp [adjoins, hg, hcolon] at hadjoins

theorem Supplies.take (h : Supplies σ kinds) (htake : g.take? kind = some [])
    (hbeneath : g.beneath σ = σ) (hkind : IsPlain kind ∨ g.isColon) (hne : kind ≠ .eof) :
    Supplies (g :: σ) (kind :: kinds) where
  completes := .take htake (hbeneath.symm ▸ h.completes)
  ne_eof := List.forall_mem_cons.mpr ⟨hne, h.ne_eof⟩
  head := by
    rintro _ ⟨⟩
    exact hkind.imp_right fun hcolon => ⟨g, rfl, hcolon⟩

theorem Supplies.pass (h : Supplies σ kinds) (hsettled : Settled (g :: σ)) (hg : g.isOptional) :
    Supplies (g :: σ) kinds := by
  have hplain := h.isPlain hsettled (by rw [hg]; rfl)
  exact ⟨h.completes.pass hg hplain, h.ne_eof, fun kind hkind => .inl (hplain kind hkind)⟩

/-- An argument is a number at least, behind its name after arguments with names. -/
theorem Supplies.argument (h : Supplies σ kinds) (named : Bool)
    (hsettled : Settled (Goal.argument named :: σ)) :
    ∃ kinds', Supplies (Goal.argument named :: σ) kinds' := by
  have hplain := h.isPlain hsettled (by cases named <;> rfl)
  cases named with
  | false =>
    have hoperations : Completes (operations ++ σ) kinds := h.completes.passAll (by decide) hplain
    refine ⟨.int 0 :: kinds, .take rfl hoperations, ?_, ?_⟩
    · exact List.forall_mem_cons.mpr ⟨by simp, h.ne_eof⟩
    · rintro _ ⟨⟩
      exact .inl (isPlain_of_mem (by simp))
  | true =>
    have hexpression := h.completes.expression hplain
    refine ⟨.ident "x" :: .symbol .colon :: .int 0 :: kinds, .take rfl (.take rfl hexpression), ?_,
      ?_⟩
    · simpa using h.ne_eof
    · rintro _ ⟨⟩
      exact .inl (isPlain_of_mem (by simp))

/-- Whatever is still to be read can be. -/
theorem exists_supplies (h : Settled σ) : ∃ kinds, Supplies σ kinds := by
  induction σ with
  | nil => exact ⟨[], ⟨[], rfl, rfl⟩, by simp, by simp⟩
  | cons g σ ih =>
    obtain ⟨kinds, hkinds⟩ := ih h.tail
    have hplain {kind : TokenKind} (hmem : kind ∈ [.int 0, .ident "x", .ident "in",
        .symbol .rightParen, .symbol .rightBracket, .symbol .assign]) : IsPlain kind ∨ g.isColon :=
      .inl (isPlain_of_mem hmem)
    cases g with
    | value | member => exact ⟨.int 0 :: kinds, hkinds.take rfl rfl (hplain (by simp)) (by simp)⟩
    | rightParen =>
      exact ⟨.symbol .rightParen :: kinds, hkinds.take rfl rfl (hplain (by simp)) (by simp)⟩
    | rightBracket =>
      exact ⟨.symbol .rightBracket :: kinds, hkinds.take rfl rfl (hplain (by simp)) (by simp)⟩
    | assign =>
      exact ⟨.symbol .assign :: kinds, hkinds.take rfl rfl (hplain (by simp)) (by simp)⟩
    | colon => exact ⟨.symbol .colon :: kinds, hkinds.take rfl rfl (.inr rfl) (by simp)⟩
    | inWord => exact ⟨.ident "in" :: kinds, hkinds.take rfl rfl (hplain (by simp)) (by simp)⟩
    | name => exact ⟨.ident "x" :: kinds, hkinds.take rfl rfl (hplain (by simp)) (by simp)⟩
    | argument named => exact hkinds.argument named h
    | parameters | parameter =>
      have hnil : σ = [] := by
        cases σ with
        | nil => rfl
        | cons next σ => cases (List.isChain_cons_cons.mp h).1
      subst hnil
      exact ⟨[], ⟨[_], rfl, rfl⟩, by simp, by simp⟩
    | _ => exact ⟨kinds, hkinds.pass h rfl⟩

end Ends

end Stencil.Parser
