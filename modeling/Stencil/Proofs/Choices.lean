import Mathlib
import Stencil.Proofs.Comparing
import Stencil.Proofs.Positions
import Stencil.Proofs.Results
import Stencil.Proofs.Steps
import Stencil.Tags.Condition

/-!
# Choices as conditionals

`case` and `unless` say nothing that `if` cannot say. The values of a `when` are compared with the
subject one by one, the value first and until one is equal, and so are the operands of a disjunction
of equalities, where the subject is evaluated each time and comes first: it has the same value each
time, and equality is symmetric.
-/
namespace Stencil

namespace Expr

/-- That the subject is one of the values: `subject == v₁ or subject == v₂ or …`. -/
def isAmong (subject : Expr) : List Expr → Expr
  | [] => .literal (.bool false)
  | v :: values => (values.map (.binary .eq subject)).foldl (.binary .or) (.binary .eq subject v)

variable {env : Environment} {subject : Expr}

/-- Whether a condition holds. -/
def holds (env : Environment) (e : Expr) : Except Error Bool := return (← eval env e).isTruthy

/-- Whether one of the conditions holds, which are asked one after the other until one does. -/
def anyHolds (env : Environment) : List Expr → Except Error Bool
  | [] => .ok false
  | e :: es => do
    if ← holds env e then return true else anyHolds env es

theorem holds_not (e : Expr) : holds env (.not e) = (holds env e).map Bool.not := by
  rw [holds, holds, eval]
  cases eval env e <;> rfl

theorem holds_or (left right : Expr) :
    holds env (.binary .or left right) =
      (do if ← holds env left then return true else holds env right) := by
  simp only [holds, eval]
  cases eval env left with
  | error e => rfl
  | ok v =>
    cases hv : v.isTruthy with
    | true => simp [bind, Except.bind, pure, Except.pure, hv, Value.isTruthy]
    | false =>
      cases eval env right <;> simp [bind, Except.bind, pure, Except.pure, hv, Value.isTruthy]

theorem holds_foldl_or (first : Expr) (es : List Expr) :
    holds env (es.foldl (.binary .or) first) = anyHolds env (first :: es) := by
  induction es generalizing first with
  | nil =>
    simp only [List.foldl_nil, anyHolds]
    cases holds env first with
    | error e => rfl
    | ok b => cases b <;> rfl
  | cons e es ih =>
    rw [List.foldl_cons, ih]
    simp only [anyHolds, holds_or]
    cases holds env first with
    | error e => rfl
    | ok b => cases b <;> rfl

theorem holds_isAmong (values : List Expr) :
    holds env (isAmong subject values) = anyHolds env (values.map (.binary .eq subject)) := by
  cases values with
  | nil => rfl
  | cons v values => exact holds_foldl_or _ _

/-- An equality of what is not said to be empty compares values. -/
theorem holds_eq {value : Expr} (hsubject : subject.isEmptyWord = false)
    (hvalue : value.isEmptyWord = false) :
    holds env (.binary .eq subject value) =
      (do return (← eval env subject).same (← eval env value)) := by
  simp only [holds, eval, hsubject, hvalue, Bool.and_false, Bool.false_eq_true, if_false]
  cases eval env subject with
  | error e => rfl
  | ok v => cases eval env value <;> rfl

end Expr

namespace Render

variable {setting : Setting} {includer : Includer} {engine : Engine} {s : State}

theorem guardHolds_holds (e : Expr) :
    guardHolds engine (.holds e) s = (e.holds (engine.environment s.scope), s) := by
  rw [guardHolds, bind_apply, eval_apply, Expr.holds]
  cases e.eval (engine.environment s.scope) <;> rfl

/-- That a condition fails is that its negation holds. -/
theorem guardHolds_fails (e : Expr) :
    guardHolds engine (.fails e) = guardHolds engine (.holds (.not e)) := by
  funext s
  rw [guardHolds_holds, Expr.holds_not, Expr.holds, guardHolds, bind_apply, eval_apply]
  cases e.eval (engine.environment s.scope) <;> rfl

theorem anySame_apply {subject : Expr} {v : Value} {values : List Expr}
    (hv : subject.eval (engine.environment s.scope) = .ok v)
    (hsubject : subject.isEmptyWord = false)
    (hvalues : ∀ e ∈ values, e.isEmptyWord = false) :
    anySame engine v values s =
      ((Expr.isAmong subject values).holds (engine.environment s.scope), s) := by
  rw [Expr.holds_isAmong]
  induction values with
  | nil => rfl
  | cons e values ih =>
    obtain ⟨he, hvalues⟩ := List.forall_mem_cons.mp hvalues
    simp only [List.map_cons, Expr.anyHolds, Expr.holds_eq hsubject he, hv, anySame, bind_apply,
      eval_apply]
    cases hw : e.eval (engine.environment s.scope) with
    | error err => rfl
    | ok w =>
      simp only [bind, Except.bind, pure, Except.pure, Value.same_comm w v]
      cases v.same w
      · exact ih hvalues
      · rfl

/-- The branches that say what the clauses of a choice say. -/
def asBranches (subject : Expr) (whens : List (List Expr × List Node)) :
    List (Guard × List Node) :=
  whens.map fun (values, body) => (.holds (subject.isAmong values), body)

section Branches

variable {subject : Expr} {whens : List (List Expr × List Node)} {otherwise : List Node}
  {rest : List (Guard × List Node)}

theorem runBranches_holds (e : Expr) (body : List Node) :
    runBranches setting includer ((.holds e, body) :: rest) s =
      match e.holds (setting.engine.environment s.scope) with
      | .error err => (.error err, s)
      | .ok true => runNodes setting includer body s
      | .ok false => runBranches setting includer rest s := by
  rw [runBranches, bind_apply, guardHolds_holds]
  cases e.holds (setting.engine.environment s.scope) with
  | error err => rfl
  | ok b => cases b <;> rfl

/-- For a subject with a value, the branches decide as the values do. -/
theorem runWhens_eq {v : Value} (hsubject : subject.isEmptyWord = false)
    (hwhens : ∀ w ∈ whens, ∀ e ∈ w.1, e.isEmptyWord = false)
    (hrest : runBranches setting includer rest = runNodes setting includer otherwise)
    (hv : subject.eval (setting.engine.environment s.scope) = .ok v) :
    runWhens setting includer v (runNodes setting includer otherwise) whens s =
      runBranches setting includer (asBranches subject whens ++ rest) s := by
  induction whens with
  | nil => exact congrFun hrest.symm s
  | cons w whens ih =>
    obtain ⟨values, body⟩ := w
    obtain ⟨hvalues, hwhens⟩ := List.forall_mem_cons.mp hwhens
    rw [asBranches, List.map_cons, List.cons_append, runBranches_holds, runWhens, bind_apply,
      anySame_apply hv hsubject hvalues]
    cases (subject.isAmong values).holds (setting.engine.environment s.scope) with
    | error err => rfl
    | ok b =>
      cases b with
      | true => rfl
      | false => exact ih hwhens

/-- A subject without a value fails in the first equality that it stands in. -/
theorem runBranches_of_error {e : Error} (hne : whens ≠ []) (hvalues : ∀ w ∈ whens, w.1 ≠ [])
    (hsubject : subject.isEmptyWord = false)
    (hwhens : ∀ w ∈ whens, ∀ e ∈ w.1, e.isEmptyWord = false)
    (he : subject.eval (setting.engine.environment s.scope) = .error e) :
    runBranches setting includer (asBranches subject whens ++ rest) s = (.error e, s) := by
  obtain ⟨⟨values, body⟩, whens, rfl⟩ := List.exists_cons_of_ne_nil hne
  obtain ⟨v, values, rfl⟩ := List.exists_cons_of_ne_nil (hvalues _ List.mem_cons_self)
  have hv : v.isEmptyWord = false := hwhens _ List.mem_cons_self v List.mem_cons_self
  rw [asBranches, List.map_cons, List.cons_append, runBranches_holds, Expr.holds_isAmong,
    List.map_cons, Expr.anyHolds, Expr.holds_eq hsubject hv, he]
  rfl

theorem runAction_choice (hsubject : subject.isEmptyWord = false) (hne : whens ≠ [])
    (hvalues : ∀ w ∈ whens, w.1 ≠ [])
    (hwhens : ∀ w ∈ whens, ∀ e ∈ w.1, e.isEmptyWord = false)
    (hrest : runBranches setting includer rest = runNodes setting includer otherwise) :
    runAction setting includer (.choice subject whens otherwise) =
      runAction setting includer (.conditional (asBranches subject whens ++ rest)) := by
  funext s
  rw [runAction, runAction, bind_apply, eval_apply]
  cases hv : subject.eval (setting.engine.environment s.scope) with
  | error e => exact (runBranches_of_error hne hvalues hsubject hwhens hv).symm
  | ok v => exact runWhens_eq hsubject hwhens hrest hv

end Branches

end Render

section Clauses

variable {filters : Filters} {clauses : List (TagSource × List Node)}

/-- What is read as the values of a clause are some values. -/
theorem Parser.when_nonempty {size : Nat} {inner : Parser Expr}
    (h : Keeps size (Expr.Within size) inner) :
    Keeps size (fun statement => ∀ values, statement = .when values → values ≠ [])
      (when inner) := by
  refine (sum_keeps h).bind fun first _ => ?_
  have hitems (isSeparator : TokenKind → Bool) :
      Keeps size (fun items => items ≠ []) (separated (sum inner) isSeparator first) := by
    refine .extend (fun items _ => ?_) (List.cons_ne_nil first [])
    exact .ifAccept ((sum_keeps h).bind fun e _ => .some (by simp)) .none
  refine (hitems _).map fun items hne values heq => ?_
  cases heq
  exact hne

theorem TagSource.compileStatement_when {tag : TagSource} {values : List Expr}
    (h : tag.compileStatement filters .when = .ok (.when values)) : values ≠ [] := by
  simp only [compileStatement, bind_eq_ok, mapError_eq_ok] at h
  obtain ⟨statement, hparse, -, -, hstatement⟩ := h
  cases hstatement
  have hread : ReadWithin tag.args.utf8ByteSize
      (fun statement => ∀ values, statement = .when values → values ≠ [])
      (Statement.parse .when tag.args) :=
    Parser.read_within fun _ hinner => Parser.when_nonempty hinner
  rw [hparse] at hread
  exact hread values rfl

namespace Tags

/-- Each `when` has values, and the bodies are those of the clauses. -/
theorem whens_eq_ok {ws : List (List Expr × List Node)} {otherwise : List Node}
    (h : whens filters clauses = .ok (ws, otherwise)) :
    (∀ w ∈ ws, w.1 ≠ []) ∧
      (clauses.map Prod.snd = ws.map Prod.snd ∧ otherwise = [] ∨
        clauses.map Prod.snd = ws.map Prod.snd ++ [otherwise]) := by
  induction clauses generalizing ws with
  | nil =>
    cases h
    exact ⟨fun _ hw => (List.not_mem_nil hw).elim, .inl ⟨rfl, rfl⟩⟩
  | cons clause clauses ih =>
    obtain ⟨tag, body⟩ := clause
    simp only [whens] at h
    split at h
    · cases clauses with
      | nil =>
        cases h
        exact ⟨fun _ hw => (List.not_mem_nil hw).elim, .inr rfl⟩
      | cons next clauses => cases h
    · split at h
      · cases h
      · simp only [bind_eq_ok] at h
        obtain ⟨statement, hstatement, h⟩ := h
        cases statement with
        | when values =>
          simp only [bind_eq_ok] at h
          obtain ⟨⟨later, final⟩, hlater, h⟩ := h
          cases h
          obtain ⟨hvalues, hbodies⟩ := ih hlater
          refine ⟨List.forall_mem_cons.mpr ⟨tag.compileStatement_when hstatement, hvalues⟩, ?_⟩
          simpa using hbodies
        | expression | assignment | loop | cycle | «include» => cases h

/-- Only the first branch of a conditional can be taken where its condition fails. -/
theorem branches_eq_ok {rest : List (Guard × List Node)} (h : branches filters clauses = .ok rest) :
    (∀ branch ∈ rest, ∀ e, branch.1 ≠ .fails e) ∧ rest.map Prod.snd = clauses.map Prod.snd := by
  induction clauses generalizing rest with
  | nil =>
    cases h
    exact ⟨fun _ hb => (List.not_mem_nil hb).elim, rfl⟩
  | cons clause clauses ih =>
    obtain ⟨tag, body⟩ := clause
    simp only [branches] at h
    split at h
    · cases clauses with
      | nil =>
        cases h
        simp
      | cons next clauses => cases h
    · simp only [bind_eq_ok] at h
      obtain ⟨guard, -, later, hlater, h⟩ := h
      cases h
      obtain ⟨hguards, hbodies⟩ := ih hlater
      refine ⟨List.forall_mem_cons.mpr ⟨fun e he => ?_, hguards⟩, congrArg (body :: ·) hbodies⟩
      cases he

end Tags

end Clauses

namespace Render

/-- A `case` runs as the `if` whose conditions say that the subject is one of the values, branch by
branch, and an `unless` as the `if` whose first condition is negated. -/
theorem case_and_unless (setting : Setting) (includer : Includer) (l : Location) (filters : Filters)
    (block : BlockSource) (action : Action) :
    (Tags.caseBlock.compile filters block = .ok action →
      ∃ subject whens otherwise, action = .choice subject whens otherwise ∧
        (block.clauses.map Prod.snd = whens.map Prod.snd ∧ otherwise = [] ∨
          block.clauses.map Prod.snd = whens.map Prod.snd ++ [otherwise]) ∧
        (subject.isEmptyWord = false → whens ≠ [] →
          (∀ w ∈ whens, ∀ e ∈ w.1, e.isEmptyWord = false) →
          ∀ rest, rest = [(.always, otherwise)] ∨ rest = [] ∧ otherwise = [] →
            runNode setting includer (.tag true "case" l action) =
              runNode setting includer
                (.tag true "if" l (.conditional (asBranches subject whens ++ rest))))) ∧
    (Tags.unlessBlock.compile filters block = .ok action →
      ∃ c rest, action = .conditional ((.fails c, block.body) :: rest) ∧
        Tags.ifBlock.compile filters block = .ok (.conditional ((.holds c, block.body) :: rest)) ∧
        (∀ branch ∈ rest, ∀ e, branch.1 ≠ .fails e) ∧
        runNode setting includer (.tag true "unless" l action) =
          runNode setting includer
            (.tag true "if" l (.conditional ((.holds (.not c), block.body) :: rest)))) := by
  constructor
  · intro h
    simp only [Tags.caseBlock, bind_eq_ok] at h
    obtain ⟨subject, -, ⟨whens, otherwise⟩, hwhens, h⟩ := h
    cases h
    obtain ⟨hvalues, hbodies⟩ := Tags.whens_eq_ok hwhens
    refine ⟨subject, whens, otherwise, rfl, hbodies, fun hsubject hne hwords rest hrest => ?_⟩
    have helse : runBranches setting includer rest = runNodes setting includer otherwise := by
      rcases hrest with rfl | ⟨rfl, rfl⟩
      · simp only [runBranches, guardHolds, pure_bind, if_true]
      · rw [runBranches, runNodes]
    rw [runNode, runNode, runAction_choice hsubject hne hvalues hwords helse]
  · intro h
    simp only [Tags.unlessBlock, Tags.conditional, bind_eq_ok] at h
    obtain ⟨c, hc, rest, hrest, h⟩ := h
    cases h
    refine ⟨c, rest, rfl, ?_, (Tags.branches_eq_ok hrest).1, ?_⟩
    · simp only [Tags.ifBlock, Tags.conditional, hc, hrest]
      rfl
    · rw [runNode, runNode, runAction, runAction, runBranches, runBranches, guardHolds_fails]

/-- A choice with two values in one clause and no other clause, and a negation with an `else`. -/
theorem case_and_unless_of_two :
    let source : SourceText :=
      ⟨"\x7b% case n %\x7d\x7b% when 1, 2 %\x7dlow\x7b% endcase %\x7d", none⟩
    let l : Location := ⟨none, 1, 1, 0⟩
    let written (name args : String) : TagSource := ⟨name, args, 0, l, source, .direct 0⟩
    let low : List Node := [.text "low"]
    let high : List Node := [.text "high"]
    let n : Expr := .variable "n"
    let choice : BlockSource := ⟨written "case" " n ", [], [(written "when" " 1, 2 ", low)]⟩
    let negation : BlockSource := ⟨written "unless" " n ", high, [(written "else" " ", low)]⟩
    let chosen : Action := .choice n [([.literal (.int 1), .literal (.int 2)], low)] []
    let negated : Action := .conditional [(.fails n, high), (.always, low)]
    let isLow : Expr := .binary .or (.binary .eq n (.literal (.int 1)))
      (.binary .eq n (.literal (.int 2)))
    let setting : Setting := ⟨{}, fun _ _ => false⟩
    Tags.caseBlock.compile [] choice = .ok chosen ∧
      runNode setting none (.tag true "case" l chosen) =
        runNode setting none (.tag true "if" l (.conditional [(.holds isLow, low)])) ∧
      Tags.unlessBlock.compile [] negation = .ok negated ∧
      runNode setting none (.tag true "unless" l negated) =
        runNode setting none
          (.tag true "if" l (.conditional [(.holds (.not n), high), (.always, low)])) := by
  intro source l written low high n choice negation chosen negated isLow setting
  have hchoice : Tags.caseBlock.compile [] choice = .ok chosen := by cbv
  have hnegation : Tags.unlessBlock.compile [] negation = .ok negated := by cbv
  obtain ⟨subject, whens, otherwise, hchosen, -, hcase⟩ :=
    (case_and_unless setting none l [] choice chosen).1 hchoice
  obtain ⟨c, rest, hnegated, -, -, hunless⟩ :=
    (case_and_unless setting none l [] negation negated).2 hnegation
  obtain ⟨rfl, rfl, rfl⟩ := Action.choice.inj hchosen
  obtain ⟨hfirst, rfl⟩ := List.cons.inj (Action.conditional.inj hnegated)
  obtain rfl : n = c := Guard.fails.inj (Prod.mk.inj hfirst).1
  have hwords : ∀ w ∈ [([Expr.literal (.int 1), .literal (.int 2)], low)],
      ∀ e ∈ w.1, e.isEmptyWord = false := by
    simp [Expr.isEmptyWord]
  exact ⟨hchoice, hcase rfl (List.cons_ne_nil _ _) hwords [] (.inr ⟨rfl, rfl⟩), hnegation, hunless⟩

end Render

end Stencil
