import Stencil.Proofs.Machine

/-!
# Properties of launches

An action begins, and what waits for a result goes on, by a few steps of a render and a launch. A
property of launches that such steps keep holds however the machine goes on, but for the loops and
inclusions, which change the scope.
-/
namespace Stencil.Render.Machine

/-- The parts of what waits. -/
def Pending.parts : Pending → List Part
  | .rest nodes => partsOf nodes
  | .place l => [.place l]
  | .capture _ => []
  | .loop _ _ body _ _ => partsOf body
  | .inclusion _ => []
  | .outline clauses => clauseParts clauses

/-- What a property of launches has to keep, for steps that are `Z` and nodes all of whose parts are
`ok`. -/
structure Launching (engine : Engine) (ok : Part → Prop) (Z : ∀ {α : Type}, Render α → Prop)
    (P : Render Launch → Prop) : Prop
    extends EvalCongruence engine engine ok fun x _ => Z x where
  chain {α : Type} {z : Render α} {f : α → Render Launch} : Z z → (∀ a, P (f a)) → P (z >>= f)
  finish (signal : Signal) : P (pure (.finish signal))
  nodes {nodes : List Node} : (∀ p ∈ partsOf nodes, ok p) → P (pure (.nodes nodes))
  inCapture {target : String} {body : List Node} : (∀ p ∈ partsOf body, ok p) →
    P (pure ⟨.nodes body, [.capture target]⟩)
  inOutline {clauses : List (TagSource × List Node)} {body : List Node} :
    (∀ p ∈ clauseParts clauses, ok p) → (∀ p ∈ partsOf body, ok p) →
    P (pure ⟨.nodes body, [.outline clauses]⟩)
  write (text : String) : Z (write text)
  assign (name : String) (v : Value) : Z (modifyScope (Scope.assign name v))
  openCapture : Z openCapture
  closeCapture : Z closeCapture
  nextCycle (key : CycleKey) (count : Nat) : Z (nextCycle key count)

namespace Launching

variable {engine : Engine} {ok : Part → Prop} {Z : ∀ {α : Type}, Render α → Prop}
  {P : Render Launch → Prop} (h : Launching engine ok Z P)
include h

theorem emit {e : Expr} (he : ok (.expr e)) :
    P (Render.eval engine e >>= fun v => Render.write v.display >>= fun _ =>
      pure (.finish .normal)) :=
  h.chain (h.eval he) fun v => h.chain (h.write v.display) fun _ => h.finish .normal

theorem branch {branches : List (Guard × List Node)} (hok : ∀ p ∈ branchParts branches, ok p) :
    P (branch engine branches) := by
  induction branches with
  | nil => exact h.finish _
  | cons branch branches ih =>
    obtain ⟨hguard, hrest⟩ := List.forall_mem_append.mp hok
    obtain ⟨hbody, hrest⟩ := List.forall_mem_append.mp hrest
    refine h.chain (h.guard fun e he => hguard _ (List.mem_map_of_mem he)) fun holds => ?_
    split
    · exact h.nodes hbody
    · exact ih hrest

theorem choice (subject : Value) {otherwise : List Node} (ho : ∀ p ∈ partsOf otherwise, ok p)
    {whens : List (List Expr × List Node)} (hok : ∀ p ∈ whenParts whens, ok p) :
    P (choice engine subject otherwise whens) := by
  induction whens with
  | nil => exact h.nodes ho
  | cons when whens ih =>
    obtain ⟨hvalues, hrest⟩ := List.forall_mem_append.mp hok
    obtain ⟨hbody, hrest⟩ := List.forall_mem_append.mp hrest
    have hvalues (e : Expr) (he : e ∈ when.1) : ok (.expr e) := hvalues _ (List.mem_map_of_mem he)
    refine h.chain (h.anySame subject hvalues) fun same => ?_
    split
    · exact h.nodes hbody
    · exact ih hrest

theorem nextClause {clauses : List (TagSource × List Node)}
    (hok : ∀ p ∈ clauseParts clauses, ok p) : P (nextClause clauses) := by
  cases clauses with
  | nil => exact h.chain (h.write _) fun _ => h.finish _
  | cons clause clauses =>
    obtain ⟨hbody, hrest⟩ := List.forall_mem_append.mp hok
    exact h.chain (h.write _) fun _ => h.inOutline hrest hbody

/-- Any action begins so, if loops and inclusions do. -/
theorem enter
    (hloop : ∀ name (items : LoopItems) body, (∀ p ∈ partsOf body, ok p) →
      P (modifyScope Scope.enterLoop >>= fun _ => nextItem name items body 0 items.count))
    (action : Action) (hok : ∀ p ∈ action.parts, ok p)
    (hinclude : ∀ isolated template subject bindings,
      action = .include isolated template subject bindings →
      P (openInclusion engine isolated template subject bindings)) : P (enter engine action) := by
  cases action with
  | nothing | jump signal => exact h.finish _
  | write text => exact h.chain (h.write _) fun _ => h.finish _
  | emit e => exact h.emit (hok _ List.mem_cons_self)
  | assign target e =>
    have he : ok (.expr e) := hok _ (List.mem_cons_of_mem _ List.mem_cons_self)
    exact h.chain (h.eval he) fun v => h.chain (h.assign target v) fun _ => h.finish _
  | capture target body =>
    exact h.chain h.openCapture fun _ => h.inCapture (List.forall_mem_cons.mp hok).2
  | conditional branches => exact h.branch hok
  | choice subject whens otherwise =>
    obtain ⟨hsubject, hrest⟩ := List.forall_mem_cons.mp hok
    obtain ⟨hwhens, ho⟩ := List.forall_mem_append.mp hrest
    exact h.chain (h.eval hsubject) fun v => h.choice v ho hwhens
  | loop name source modifiers body otherwise =>
    obtain ⟨hs, hrest⟩ := List.forall_mem_append.mp hok
    obtain ⟨hbody, ho⟩ := List.forall_mem_append.mp hrest
    have hexpr (e : Expr) (he : e ∈ (Statement.loop name source modifiers).expressions) :
        ok (.expr e) := hs _ (List.mem_map_of_mem he)
    simp only [Statement.expressions, List.mem_cons, List.mem_append, Option.mem_toList] at hexpr
    refine h.chain (h.loopItems (hexpr _ (.inl rfl)) (fun e he => hexpr e (.inr (.inl he)))
      fun e he => hexpr e (.inr (.inr he))) fun items => ?_
    split
    · exact h.nodes ho
    · exact hloop name items body hbody
  | cycle occurrence group values =>
    have hexpr (e : Expr) (he : e ∈ (Statement.cycle group values).expressions) :
        ok (.expr e) := hok _ (List.mem_map_of_mem he)
    simp only [Statement.expressions, List.mem_append, Option.mem_toList] at hexpr
    refine h.chain (h.cycleKey occurrence fun e he => hexpr e (.inl he)) fun key => ?_
    refine h.chain (h.nextCycle key _) fun position => ?_
    cases hvalue : values[position]? with
    | none => exact h.finish _
    | some e => exact h.emit (hexpr e (.inr (List.mem_of_getElem? hvalue)))
  | «include» isolated template subject bindings => exact hinclude _ _ _ _ rfl
  | outline tag body clauses =>
    obtain ⟨hbody, hclauses⟩ := List.forall_mem_append.mp hok
    exact h.chain (h.write _) fun _ => h.inOutline hclauses hbody

/-- Whatever waits for a signal goes on so, if loops and inclusions do. -/
theorem resume (p : Pending) (hok : ∀ part ∈ p.parts, ok part) (signal : Signal)
    (hloop : ∀ name items body index left, p = .loop name items body index left →
      ∀ left, P (nextItem name items body index left))
    (hinclusion : ∀ caller, p = .inclusion caller → P (resume p (.ok signal))) :
    P (resume p (.ok signal)) := by
  have hlift (signal : Signal) : Z (Render.liftExcept (.ok signal)) := h.ret signal
  have hmark (signal : Signal) : Z (writeSignal signal) := by
    cases signal with
    | normal => exact h.ret ()
    | leave | next => exact h.write _
  cases p with
  | rest nodes =>
    cases signal with
    | normal => exact h.nodes hok
    | leave | next => exact h.chain (hlift _) fun _ => h.finish _
  | place l => exact h.chain (hlift signal) fun _ => h.finish _
  | capture target =>
    refine h.chain h.closeCapture fun text => h.chain (hlift signal) fun _ => ?_
    exact h.chain (h.assign target _) fun _ => h.finish _
  | loop name items body index left =>
    cases signal with
    | normal | next => exact hloop _ _ _ _ _ rfl left
    | leave => exact hloop _ _ _ _ _ rfl 0
  | inclusion caller => exact hinclusion caller rfl
  | outline clauses =>
    cases signal with
    | normal => exact h.nextClause hok
    | leave | next =>
      exact h.chain (hlift _) fun signal => h.chain (hmark signal) fun _ => h.finish _

end Launching

end Stencil.Render.Machine
