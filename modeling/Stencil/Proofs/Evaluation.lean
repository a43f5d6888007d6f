import Stencil.Expr.Eval

/-!
# Faults of evaluation

An expression whose filters are all registered fails by what its values are and by nothing else.
-/
namespace Stencil

/-- What a computation gives, or else the error that it fails with. -/
def Ends {α : Type} (Q : α → Prop) (E : Error → Prop) : Except Error α → Prop
  | .ok a => Q a
  | .error e => E e

abbrev Fails {α : Type} (E : Error → Prop) (x : Except Error α) : Prop := Ends (fun _ => True) E x

namespace Ends

variable {α β ε : Type} {Q : α → Prop} {R : β → Prop} {E F : Error → Prop}

theorem bind {x : Except Error α} {f : α → Except Error β} (hx : Ends Q E x)
    (hf : ∀ a, Q a → Ends R E (f a)) : Ends R E (x >>= f) := by
  cases x with
  | error e => exact hx
  | ok a => exact hf a hx

theorem mono {P : α → Prop} {x : Except Error α} (hx : Ends Q E x) (hq : ∀ a, Q a → P a)
    (he : ∀ e, E e → F e) : Ends P F x := by
  cases x with
  | error e => exact he e hx
  | ok a => exact hq a hx

theorem and {x : Except Error α} (he : Ends Q E x) (hf : Fails F x) :
    Ends Q (fun e => E e ∧ F e) x := by
  cases x with
  | error e => exact ⟨he, hf⟩
  | ok a => exact he

theorem mapError {f : ε → Error} {x : Except ε α} (hq : ∀ a, x = .ok a → Q a)
    (he : ∀ e, x = .error e → E (f e)) : Ends Q E (x.mapError f) := by
  cases x with
  | error e => exact he e rfl
  | ok a => exact hq a rfl

end Ends

def Cause.isValueFault : Cause → Bool
  | .conversion _ => true
  | .undefinedVariable _ => true
  | .evaluation _ => true
  | .filter _ _ => true
  | _ => false

theorem Cause.not_isCompileTime_of_isValueFault {c : Cause} (h : c.isValueFault = true) :
    c.isCompileTime = false := by
  cases c with
  | conversion | undefinedVariable | evaluation | filter => rfl
  | malformed | undefinedTag | undefinedFilter | store | recursiveInclude | cancelled | output =>
    cases h

/-- An error about values, without a place. -/
def Error.IsValueFault (e : Error) : Prop := e.cause.isValueFault = true ∧ e.location = none

theorem Filter.call_fails (f : Filter) (args : List Value) (named : Bindings) :
    Fails Error.IsValueFault (f.call args named) := by
  simp only [Filter.call]
  split
  · exact ⟨rfl, rfl⟩
  · exact .bind (.mapError (fun _ _ => trivial) fun _ _ => ⟨rfl, rfl⟩) fun _ _ =>
      .mapError (fun _ _ => trivial) fun _ _ => ⟨rfl, rfl⟩

theorem Operator.apply_fails (op : Operator) (a b : Value) :
    Fails Error.IsValueFault (op.apply a b) := by
  have hnumber : Fails Error.IsValueFault (do
      let x ← (Shape.number.convert a).mapError (⟨.conversion ·, none⟩)
      let y ← (Shape.number.convert b).mapError (⟨.conversion ·, none⟩)
      (Arithmetic.apply op x y).mapError fun fault => ⟨.evaluation (.arithmetic fault), none⟩) :=
    .bind (.mapError (fun _ _ => trivial) fun _ _ => ⟨rfl, rfl⟩) fun _ _ =>
      .bind (.mapError (fun _ _ => trivial) fun _ _ => ⟨rfl, rfl⟩) fun _ _ =>
        .mapError (fun _ _ => trivial) fun _ _ => ⟨rfl, rfl⟩
  cases op with
  | or | and | eq | ne | lt | le | gt | ge | contains => exact trivial
  | add | sub | mul | div | mod => exact hnumber

namespace Expr

theorem mem_ofNamed {call : FilterCall} {named : List (String × Expr)} :
    call ∈ ofNamed named ↔ ∃ e ∈ named.map Prod.snd, call ∈ filterCalls e := by
  induction named with
  | nil => simp [ofNamed]
  | cons entry named ih =>
    obtain ⟨key, e⟩ := entry
    simp only [ofNamed, List.mem_append, ih, List.map_cons, List.mem_cons, exists_eq_or_imp]

theorem toInt_fails (v : Value) : Fails Error.IsValueFault (toInt v) := by
  simp only [toInt]
  split
  · exact trivial
  · exact ⟨rfl, rfl⟩
  · exact ⟨rfl, rfl⟩

theorem rangeList_fails (first last : Int) : Fails Error.IsValueFault (rangeList first last) := by
  simp only [rangeList]
  split
  · exact ⟨rfl, rfl⟩
  · exact trivial

/-- Every call is of a filter that is registered, or its failure is one of `E`. -/
def Covered (env : Environment) (E : Error → Prop) (calls : List FilterCall) : Prop :=
  ∀ call ∈ calls,
    Table.contains call.name env.filters = true ∨ E ⟨.undefinedFilter call.name, none⟩

theorem Covered.of_append {env : Environment} {E : Error → Prop} {calls more : List FilterCall}
    (h : Covered env E (calls ++ more)) : Covered env E calls ∧ Covered env E more := by
  constructor
  · intro call hcall
    exact h call (List.mem_append_left more hcall)
  · intro call hcall
    exact h call (List.mem_append_right calls hcall)

section

variable {env : Environment} {E : Error → Prop} (hE : ∀ e, e.IsValueFault → E e)
include hE

theorem of_valueFault {α : Type} {x : Except Error α} (h : Fails Error.IsValueFault x) :
    Fails E x := h.mono (fun _ _ => trivial) hE

theorem eval_binary_fails (op : Operator) {left right : Expr} (hl : Fails E (eval env left))
    (hr : Fails E (eval env right)) : Fails E (eval env (.binary op left right)) := by
  cases op with
  | and =>
    simp only [eval]
    refine .bind hl fun v _ => ?_
    split
    · exact .bind hr fun _ _ => trivial
    · exact trivial
  | or =>
    simp only [eval]
    refine .bind hl fun v _ => ?_
    split
    · exact trivial
    · exact .bind hr fun _ _ => trivial
  | eq | ne | lt | le | gt | ge | contains | add | sub | mul | div | mod =>
    simp only [eval]
    split
    · exact .bind hr fun _ _ => trivial
    · split
      · exact .bind hl fun _ _ => trivial
      · exact .bind hl fun a _ => .bind hr fun b _ => of_valueFault hE (Operator.apply_fails _ a b)

end

variable {env : Environment} {E : Error → Prop}

mutual

theorem eval_fails (hE : ∀ e, e.IsValueFault → E e) :
    ∀ e : Expr, Covered env E (filterCalls e) → Fails E (eval env e)
  | .literal _, _ => by
    simp only [eval]
    exact trivial
  | .empty, _ => by
    simp only [eval]
    exact trivial
  | .variable name, _ => by
    simp only [eval]
    split
    · exact trivial
    · split
      · exact hE _ ⟨rfl, rfl⟩
      · exact trivial
  | .property base _, h => by
    simp only [filterCalls] at h
    simp only [eval]
    exact .bind (eval_fails hE base h) fun _ _ => trivial
  | .index base key, h => by
    simp only [filterCalls] at h
    simp only [eval]
    refine .bind (eval_fails hE key h.of_append.2) fun _ _ => ?_
    exact .bind (eval_fails hE base h.of_append.1) fun _ _ => trivial
  | .range first last, h => by
    simp only [filterCalls] at h
    simp only [eval]
    refine .bind (eval_fails hE first h.of_append.1) fun a _ => ?_
    refine .bind (of_valueFault hE (toInt_fails a)) fun _ _ => ?_
    refine .bind (eval_fails hE last h.of_append.2) fun b _ => ?_
    refine .bind (of_valueFault hE (toInt_fails b)) fun _ _ => ?_
    exact of_valueFault hE (rangeList_fails _ _)
  | .not e, h => by
    simp only [filterCalls] at h
    simp only [eval]
    exact .bind (eval_fails hE e h) fun _ _ => trivial
  | .binary op left right, h => by
    simp only [filterCalls] at h
    have hleft := eval_fails hE left h.of_append.1
    have hright := eval_fails hE right h.of_append.2
    exact eval_binary_fails hE op hleft hright
  | .filtered base calls, h => by
    simp only [filterCalls] at h
    simp only [eval]
    refine .bind (eval_fails hE base h.of_append.2) fun v _ => ?_
    exact applyCalls_fails hE calls v h.of_append.1

theorem applyCalls_fails (hE : ∀ e, e.IsValueFault → E e) :
    ∀ (calls : List FilterCall) (v : Value), Covered env E (ofCalls calls) →
    Fails E (applyCalls env calls v)
  | [], _, _ => by
    simp only [applyCalls]
    exact trivial
  | .mk name args named span :: calls, v, h => by
    simp only [ofCalls] at h
    have hname := h (.mk name args named span) (by simp)
    have hrest := h.of_append.2
    have hargs : Covered env E (ofArgs args) ∧ Covered env E (ofNamed named) :=
      Covered.of_append fun call hcall => h.of_append.1 call (List.mem_cons_of_mem _ hcall)
    simp only [applyCalls]
    cases hf : Table.find? name env.filters with
    | none =>
      refine hname.resolve_left fun hc => ?_
      simp [Table.contains, FilterCall.name, hf] at hc
    | some f =>
      refine .bind (evalArgs_fails hE args hargs.1) fun values _ => ?_
      refine .bind (evalNamed_fails hE [] named hargs.2) fun done _ => ?_
      refine .bind (of_valueFault hE (f.call_fails _ _)) fun w _ => ?_
      exact applyCalls_fails hE calls w hrest

theorem evalArgs_fails (hE : ∀ e, e.IsValueFault → E e) :
    ∀ args : List Expr, Covered env E (ofArgs args) →
    Fails E (evalArgs env args)
  | [], _ => by
    simp only [evalArgs]
    exact trivial
  | e :: args, h => by
    simp only [ofArgs] at h
    simp only [evalArgs]
    refine .bind (eval_fails hE e h.of_append.1) fun _ _ => ?_
    exact .bind (evalArgs_fails hE args h.of_append.2) fun _ _ => trivial

theorem evalNamed_fails (hE : ∀ e, e.IsValueFault → E e) :
    ∀ (done : Bindings) (named : List (String × Expr)),
    Covered env E (ofNamed named) → Fails E (evalNamed env done named)
  | _, [], _ => by
    simp only [evalNamed]
    exact trivial
  | done, (key, e) :: named, h => by
    simp only [ofNamed] at h
    simp only [evalNamed]
    refine .bind (eval_fails hE e h.of_append.1) fun v _ => ?_
    exact evalNamed_fails hE (Table.insert key v done) named h.of_append.2

end

end Expr

end Stencil
