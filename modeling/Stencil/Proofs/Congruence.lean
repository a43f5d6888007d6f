import Stencil.Proofs.Parts
import Stencil.Proofs.Steps

/-!
# Congruences

A relation between two renders that sequencing keeps and that holds between the single steps of
nodes holds between the runs of all nodes. Properties of one render are the relations that do not
look at the second one.
-/
namespace Stencil.Render

variable {ok : Part → Prop} {R : ∀ {α : Type}, Render α → Render α → Prop}

/-- What a relation has to keep for steps that evaluate expressions that are `ok`. -/
structure EvalCongruence (A B : Engine) (ok : Part → Prop)
    (R : ∀ {α : Type}, Render α → Render α → Prop) : Prop where
  ret {α : Type} (v : α) : R (pure v) (pure v)
  seq {α β : Type} {x y : Render α} {f g : α → Render β} :
    R x y → (∀ v, R (f v) (g v)) → R (x >>= f) (y >>= g)
  toInt (v : Value) : R (liftExcept (Expr.toInt v)) (liftExcept (Expr.toInt v))
  eval {e : Expr} : ok (.expr e) → R (eval A e) (eval B e)
  /-- The bounds of a range are expressions in their own right to a loop. -/
  bounds {first last : Expr} : ok (.expr (.range first last)) → ok (.expr first) ∧ ok (.expr last)

/-- What a relation has to keep, for nodes all of whose parts are `ok`. -/
structure Congruence (A B : Setting) (a b : Includer) (ok : Part → Prop)
    (R : ∀ {α : Type}, Render α → Render α → Prop) : Prop
    extends EvalCongruence A.engine B.engine ok R where
  check : R (check A.interrupt) (check B.interrupt)
  write (text : String) : R (write text) (write text)
  assign {name : String} (v : Value) : ok (.target name) →
    R (modifyScope (Scope.assign name v)) (modifyScope (Scope.assign name v))
  loop (name : String) (items : LoopItems) (count : Nat) {x y : Render Signal} :
    R x y → R (inLoop (iterate name items x 0 count)) (inLoop (iterate name items y 0 count))
  captured {x y : Render Signal} : R x y → R (captured x) (captured y)
  nextCycle (key : CycleKey) (count : Nat) : R (nextCycle key count) (nextCycle key count)
  located {l : Location} {x y : Render Signal} : ok (.place l) → R x y →
    R (locatedAt l x) (locatedAt l y)
  inclusion {isolated : Bool} {template : Expr} {subject : Option (Expr × Option String)}
    {bindings : List (String × Expr)} :
    (∀ p ∈ (Action.include isolated template subject bindings).parts, ok p) →
    R (inclusion A.engine a isolated template subject bindings)
      (inclusion B.engine b isolated template subject bindings)

namespace EvalCongruence

variable {A B : Engine} (h : EvalCongruence A B ok R)
include h

theorem guard {g : Guard} (hg : ∀ e ∈ g.expressions, ok (.expr e)) :
    R (guardHolds A g) (guardHolds B g) := by
  cases g with
  | always => exact h.ret true
  | holds e => exact h.seq (h.eval (hg e (by simp [Guard.expressions]))) fun _ => h.ret _
  | fails e => exact h.seq (h.eval (hg e (by simp [Guard.expressions]))) fun _ => h.ret _

theorem anySame (subject : Value) {values : List Expr} (hv : ∀ e ∈ values, ok (.expr e)) :
    R (anySame A subject values) (anySame B subject values) := by
  induction values with
  | nil => exact h.ret false
  | cons e values ih =>
    refine h.seq (h.eval (hv e (by simp))) fun v => ?_
    split
    · exact h.ret true
    · exact ih fun e he => hv e (by simp [he])

theorem cycleKey (o : Occurrence) {group : Option Expr} (hg : ∀ e ∈ group, ok (.expr e)) :
    R (cycleKey A o group) (cycleKey B o group) := by
  cases group with
  | none => exact h.ret _
  | some e => exact h.seq (h.eval (hg e rfl)) fun _ => h.ret _

theorem integer {e : Expr} (he : ok (.expr e)) {β : Type} {f g : Int → Render β}
    (hfg : ∀ n, R (f n) (g n)) :
    R (Render.eval A e >>= fun v => liftExcept (Expr.toInt v) >>= f)
      (Render.eval B e >>= fun v => liftExcept (Expr.toInt v) >>= g) :=
  h.seq (h.eval he) fun v => h.seq (h.toInt v) hfg

theorem modifier {e : Option Expr} (he : ∀ x ∈ e, ok (.expr x)) :
    R (modifier? A e) (modifier? B e) := by
  cases e with
  | none => exact h.ret _
  | some e => exact h.integer (he e rfl) fun _ => h.ret _

theorem loopItems {source : Expr} {m : LoopModifiers} (hs : ok (.expr source))
    (hl : ∀ e ∈ m.limit, ok (.expr e)) (ho : ∀ e ∈ m.offset, ok (.expr e)) :
    R (loopItems A source m) (loopItems B source m) := by
  refine h.seq (h.modifier ho) fun offset => h.seq (h.modifier hl) fun limit => ?_
  split
  · obtain ⟨hf, hl⟩ := h.bounds hs
    exact h.integer hf fun _ => h.integer hl fun _ => h.ret _
  · exact h.seq (h.eval hs) fun _ => h.ret _

theorem iterate (name : String)
    (hset : ∀ v w, R (modifyScope fun s => (s.setLocal name v).setLocal "forloop" w)
      (modifyScope fun s => (s.setLocal name v).setLocal "forloop" w))
    (items : LoopItems) {x y : Render Signal} (hxy : R x y) (index left : Nat) :
    R (iterate name items x index left) (iterate name items y index left) := by
  induction left generalizing index with
  | zero => exact h.ret _
  | succ left ih =>
    refine h.seq (hset _ _) fun _ => h.seq hxy fun signal => ?_
    cases signal with
    | leave => exact h.ret _
    | normal | next => exact ih (index + 1)

end EvalCongruence

namespace Congruence

variable {A B : Setting} {a b : Includer} (h : Congruence A B a b ok R)
include h

theorem writeSignal (signal : Signal) : R (writeSignal signal) (writeSignal signal) := by
  cases signal with
  | normal => exact h.ret ()
  | leave => exact h.write _
  | next => exact h.write _

mutual

/-- Related steps make related runs. -/
theorem ofNodes : ∀ nodes : List Node, (∀ p ∈ partsOf nodes, ok p) →
    R (runNodes A a nodes) (runNodes B b nodes)
  | [], _ => h.ret _
  | node :: nodes, hok => by
    simp only [partsOf, List.mem_append] at hok
    simp only [runNodes]
    refine h.seq h.check fun _ => h.seq (ofNode node fun p hp => hok p (.inl hp)) fun signal => ?_
    cases signal with
    | normal => exact ofNodes nodes fun p hp => hok p (.inr hp)
    | leave | next => exact h.ret _

theorem ofNode : ∀ node : Node, (∀ p ∈ node.parts, ok p) →
    R (runNode A a node) (runNode B b node)
  | .text s, _ => by
    simp only [runNode]
    exact h.seq (h.write s) fun _ => h.ret _
  | .output e l, hok => by
    simp only [Node.parts, List.mem_cons] at hok
    simp only [runNode]
    refine h.located (hok _ (.inr (.inl rfl))) (h.seq (h.eval (hok _ (.inl rfl))) fun v => ?_)
    exact h.seq (h.write _) fun _ => h.ret _
  | .tag _ _ l action, hok => by
    simp only [Node.parts, List.mem_cons] at hok
    simp only [runNode]
    exact h.located (hok _ (.inl rfl)) (ofAction action fun p hp => hok p (.inr hp))

theorem ofAction : ∀ action : Action, (∀ p ∈ action.parts, ok p) →
    R (runAction A a action) (runAction B b action)
  | .nothing, _ => by
    simp only [runAction]
    exact h.ret _
  | .write s, _ => by
    simp only [runAction]
    exact h.seq (h.write s) fun _ => h.ret _
  | .emit e, hok => by
    simp only [Action.parts, List.mem_cons] at hok
    simp only [runAction]
    exact h.seq (h.eval (hok _ (.inl rfl))) fun _ => h.seq (h.write _) fun _ => h.ret _
  | .assign target e, hok => by
    simp only [Action.parts, Statement.parts, Statement.expressions, List.map, List.mem_cons] at hok
    simp only [runAction]
    refine h.seq (h.eval (hok _ (.inr (.inl rfl)))) fun v => ?_
    exact h.seq (h.assign v (hok _ (.inl rfl))) fun _ => h.ret _
  | .capture target body, hok => by
    simp only [Action.parts, List.mem_cons] at hok
    simp only [runAction]
    refine h.seq (h.captured (ofNodes body fun p hp => hok p (.inr hp))) fun (signal, text) => ?_
    exact h.seq (h.assign _ (hok _ (.inl rfl))) fun _ => h.ret _
  | .conditional branches, hok => by
    simp only [Action.parts] at hok
    simp only [runAction]
    exact ofBranches branches hok
  | .choice subject whens otherwise, hok => by
    simp only [Action.parts, List.mem_cons, List.mem_append] at hok
    simp only [runAction]
    refine h.seq (h.eval (hok _ (.inl rfl))) fun v => ?_
    exact ofWhens v (ofNodes otherwise fun p hp => hok p (.inr (.inr hp))) whens
      fun p hp => hok p (.inr (.inl hp))
  | .loop name source m body otherwise, hok => by
    simp only [Action.parts, List.mem_append] at hok
    have hexprs : ∀ e ∈ (Statement.loop name source m).expressions, ok (.expr e) := fun e he =>
      hok _ (.inl (List.mem_map_of_mem he))
    simp only [Statement.expressions, List.mem_cons, List.mem_append, Option.mem_toList] at hexprs
    simp only [runAction]
    refine h.seq (h.loopItems (hexprs _ (.inl rfl)) (fun e he => hexprs e (.inr (.inl he)))
      fun e he => hexprs e (.inr (.inr he))) fun items => ?_
    split
    · exact ofNodes otherwise fun p hp => hok p (.inr (.inr hp))
    · exact h.loop name items items.count (ofNodes body fun p hp => hok p (.inr (.inl hp)))
  | .jump signal, _ => by
    simp only [runAction]
    exact h.ret _
  | .cycle o group values, hok => by
    have hexprs : ∀ e ∈ (Statement.cycle group values).expressions, ok (.expr e) := fun e he =>
      hok _ (List.mem_map_of_mem he)
    simp only [Statement.expressions, List.mem_append, Option.mem_toList] at hexprs
    simp only [runAction]
    refine h.seq (h.cycleKey o fun e he => hexprs e (.inl he)) fun key => ?_
    refine h.seq (h.nextCycle _ _) fun position => ?_
    split
    · rename_i e he
      refine h.seq (h.eval (hexprs e (.inr (List.mem_of_getElem? he)))) fun v => ?_
      exact h.seq (h.write _) fun _ => h.ret _
    · exact h.ret _
  | .include isolated template subject bindings, hok => by
    simp only [runAction]
    exact h.inclusion hok
  | .outline tag body clauses, hok => by
    simp only [Action.parts, List.mem_append] at hok
    simp only [runAction]
    refine h.seq (h.write _) fun _ => ?_
    refine h.seq (ofNodes body fun p hp => hok p (.inl hp)) fun signal => ?_
    cases signal with
    | normal => exact ofClauses clauses fun p hp => hok p (.inr hp)
    | leave | next => exact h.seq (h.writeSignal _) fun _ => h.ret _

theorem ofBranches : ∀ branches : List (Guard × List Node), (∀ p ∈ branchParts branches, ok p) →
    R (runBranches A a branches) (runBranches B b branches)
  | [], _ => by
    simp only [runBranches]
    exact h.ret _
  | (guard, body) :: branches, hok => by
    simp only [branchParts, List.mem_append] at hok
    simp only [runBranches]
    refine h.seq (h.guard fun e he => hok _ (.inl (List.mem_map_of_mem he))) fun holds => ?_
    split
    · exact ofNodes body fun p hp => hok p (.inr (.inl hp))
    · exact ofBranches branches fun p hp => hok p (.inr (.inr hp))

theorem ofWhens (subject : Value) {x y : Render Signal} (hxy : R x y) :
    ∀ whens : List (List Expr × List Node), (∀ p ∈ whenParts whens, ok p) →
    R (runWhens A a subject x whens) (runWhens B b subject y whens)
  | [], _ => by
    simp only [runWhens]
    exact hxy
  | (values, body) :: whens, hok => by
    simp only [whenParts, List.mem_append] at hok
    simp only [runWhens]
    have hvalues : ∀ e ∈ values, ok (.expr e) := fun e he => hok _ (.inl (List.mem_map_of_mem he))
    refine h.seq (h.anySame subject hvalues) fun same => ?_
    split
    · exact ofNodes body fun p hp => hok p (.inr (.inl hp))
    · exact ofWhens subject hxy whens fun p hp => hok p (.inr (.inr hp))

theorem ofClauses : ∀ clauses : List (TagSource × List Node), (∀ p ∈ clauseParts clauses, ok p) →
    R (runClauses A a clauses) (runClauses B b clauses)
  | [], _ => by
    simp only [runClauses]
    exact h.seq (h.write _) fun _ => h.ret _
  | (tag, body) :: clauses, hok => by
    simp only [clauseParts, List.mem_append] at hok
    simp only [runClauses]
    refine h.seq (h.write _) fun _ => ?_
    refine h.seq (ofNodes body fun p hp => hok p (.inl hp)) fun signal => ?_
    cases signal with
    | normal => exact ofClauses clauses fun p hp => hok p (.inr hp)
    | leave | next => exact h.seq (h.writeSignal _) fun _ => h.ret _

end

end Congruence

/-- What inclusions keep if included templates have it, all templates have, however deep. -/
theorem Congruence.within {A : Setting} {R : ∀ {α : Type}, Render α → Render α → Prop}
    (h : ∀ a : Includer, (∀ run, a = some run → ∀ nodes, R (run nodes) (run nodes)) →
      Congruence A A a a (fun _ => True) R) (room : Nat) (nodes : List Node) :
    R (runWithin A room nodes) (runWithin A room nodes) := by
  induction room generalizing nodes with
  | zero =>
    refine (h none fun run hrun => ?_).ofNodes nodes fun _ _ => trivial
    cases hrun
  | succ room ih =>
    refine (h (some (runWithin A room)) fun run hrun nodes => ?_).ofNodes nodes fun _ _ => trivial
    cases hrun
    exact ih nodes

theorem Leaves.evaluation {γ : Type} (f : State → γ) (engine : Engine) :
    EvalCongruence engine engine (fun _ => True) fun x _ => Leaves f x where
  ret := .ret f
  seq := .seq
  toInt _ _ := rfl
  eval _ _ := rfl
  bounds _ := ⟨trivial, trivial⟩

end Stencil.Render
