import Stencil.Proofs.Sessions
import Stencil.Proofs.Truncation

/-!
# Interrupted renders

Every node begins with a question whether to go on, and nothing else asks. Once the answer is to
stop and stays so, no node begins any more. What was written until then is a beginning of what is
written when nothing interrupts the render, and so it is where the sink is full.
-/
namespace Stencil.Render

namespace Machine

variable {setting : Setting} {engine : Engine} {α : Type}

/-- A step that begins no node and does not ask whether to go on. -/
def Plain (x : Render Launch) : Prop :=
  ∀ waiting s, (settle waiting (x s)).state.checks = s.checks ∧
    ∀ node, (settle waiting (x s)).control ≠ .node node

namespace Plain

theorem go {l : Launch} (h : ∀ node, l.control ≠ .node node) : Plain (pure l) :=
  fun _ _ => ⟨rfl, h⟩

theorem finish (signal : Signal) : Plain (pure (.finish signal)) :=
  go fun _ h => by cases h

theorem nodes (nodes : List Node) (pending : List Pending) : Plain (pure ⟨.nodes nodes, pending⟩) :=
  go fun _ h => by cases h

theorem fail (e : Error) : Plain (throw e) := fun _ _ => ⟨rfl, fun _ h => by cases h⟩

theorem seq {z : Render α} {f : α → Render Launch} (hz : Leaves State.checks z)
    (h : ∀ a, Plain (f a)) : Plain (z >>= f) := by
  intro waiting s
  refine hz.elim (P := fun r => (settle waiting r).state.checks = s.checks ∧
    ∀ node, (settle waiting r).control ≠ .node node) ?_ ?_
  · intro e t ht
    exact ⟨ht, fun _ h => by cases h⟩
  · intro a t ht
    obtain ⟨hchecks, hcontrol⟩ := h a waiting t
    exact ⟨hchecks.trans ht, hcontrol⟩

theorem located (l : Location) {x : Render Launch} (h : Plain x) : Plain (locatedAt l x) := by
  intro waiting s
  obtain ⟨hchecks, hcontrol⟩ := h waiting s
  simp only [locatedAt]
  rcases hr : x s with ⟨e | a, t⟩
  · rw [hr] at hchecks
    exact ⟨hchecks, fun _ h => by cases h⟩
  · rw [hr] at hchecks hcontrol
    exact ⟨hchecks, hcontrol⟩

end Plain

theorem write_leaves_checks (text : String) : Leaves State.checks (write text) :=
  write_leaves (fun _ _ _ => rfl) text

theorem Plain.launching (engine : Engine) :
    Launching engine (fun _ => True) (fun x => Leaves State.checks x) Plain where
  toEvalCongruence := Leaves.evaluation State.checks engine
  chain := .seq
  finish := .finish
  nodes _ := .nodes _ []
  inCapture _ := .nodes _ _
  inOutline _ _ := .nodes _ _
  write := write_leaves_checks
  assign _ _ _ := rfl
  openCapture _ := rfl
  closeCapture _ := rfl
  nextCycle _ _ _ := rfl

theorem nextItem_plain (name : String) (items : LoopItems) (body : List Node) (index left : Nat) :
    Plain (nextItem name items body index left) := by
  cases left with
  | zero => exact .seq (fun _ => rfl) fun _ => .finish _
  | succ left => exact .seq (fun _ => rfl) fun _ => .nodes _ _

theorem openInclusion_plain (isolated : Bool) (template : Expr)
    (subject : Option (Expr × Option String)) (bindings : List (String × Expr)) :
    Plain (openInclusion engine isolated template subject bindings) := by
  refine .seq (fun _ => rfl) fun v => .seq (fun _ => rfl) fun caller => ?_
  split
  · exact .fail _
  · refine .seq (fun _ => rfl) fun included => .seq (params_leaves _ _ _ _ _) fun params => ?_
    exact .seq (fun _ => rfl) fun _ => .nodes _ _

theorem enter_plain (action : Action) : Plain (enter engine action) := by
  apply (Plain.launching engine).enter
  · intro name items body _
    exact .seq (fun _ => rfl) fun _ => nextItem_plain name items body 0 items.count
  · exact fun _ _ => trivial
  · intro isolated template subject bindings _
    exact openInclusion_plain isolated template subject bindings

theorem resume_plain (p : Pending) (r : Except Error Signal) : Plain (resume p r) := by
  cases r with
  | error e =>
    intro waiting s
    cases p with
    | rest | place | capture | loop | inclusion | outline => exact ⟨rfl, fun _ h => by cases h⟩
  | ok signal =>
    apply (Plain.launching {}).resume
    · exact fun _ _ => trivial
    · intro name items body index _ _ left
      exact nextItem_plain name items body index left
    · intro caller h
      rw [h]
      refine .seq (z := modifyScope fun _ => caller) (fun _ => rfl) fun _ => ?_
      exact .seq (fun _ => rfl) fun _ => .finish _

/-- A step does not forget how often was asked, and begins a node only where it is told to go on. -/
theorem step_begins {c d : Config} (h : step setting c = some d) :
    c.state.checks ≤ d.state.checks ∧
      ∀ node, d.control = .node node →
        setting.interrupt c.state.checks c.state.sink.held.size = false := by
  obtain ⟨control, waiting, s⟩ := c
  have hplain {x : Render Launch} (hx : Plain x) (hd : some (settle waiting (x s)) = some d) :
      s.checks ≤ d.state.checks ∧
        ∀ node, d.control = .node node → setting.interrupt s.checks s.sink.held.size = false := by
    cases hd
    obtain ⟨hchecks, hcontrol⟩ := hx waiting s
    exact ⟨Nat.le_of_eq hchecks.symm, fun node hnode => absurd hnode (hcontrol node)⟩
  cases control with
  | nodes nodes =>
    cases nodes with
    | nil =>
      cases h
      exact ⟨Nat.le_refl _, fun _ h => by cases h⟩
    | cons node nodes =>
      cases h
      dsimp only
      cases hstop : setting.interrupt s.checks s.sink.held.size with
      | false =>
        refine ⟨?_, fun _ _ => rfl⟩
        simp [bind_apply, check, hstop, settle]
      | true =>
        simp [bind_apply, check, hstop, settle]
  | node node =>
    cases node with
    | text text => exact hplain (.seq (write_leaves_checks text) fun _ => .finish _) h
    | output e l => exact hplain (.located l ((Plain.launching _).emit (e := e) trivial)) h
    | tag isBlock name l action =>
      cases h
      exact ⟨Nat.le_refl _, fun _ h => by cases h⟩
  | action action => exact hplain (enter_plain action) h
  | done r =>
    cases waiting with
    | nil => cases h
    | cons p waiting =>
      cases h
      obtain ⟨hchecks, hcontrol⟩ := resume_plain p r waiting s
      exact ⟨Nat.le_of_eq hchecks.symm, fun node hnode => absurd hnode (hcontrol node)⟩

theorem no_node_begins {c d : Config}
    (hstop : ∀ k ≥ c.state.checks, ∀ bytes, setting.interrupt k bytes = true)
    (h : Relation.TransGen (fun c d => step setting c = some d) c d) (node : Node) :
    d.control ≠ .node node := by
  have hlast {b d : Config} (hb : c.state.checks ≤ b.state.checks)
      (hbd : step setting b = some d) : d.control ≠ .node node := by
    intro hnode
    have hgo := (step_begins hbd).2 node hnode
    rw [hstop _ hb] at hgo
    cases hgo
  have hcount {d : Config} (h : Relation.TransGen (fun c d => step setting c = some d) c d) :
      c.state.checks ≤ d.state.checks := by
    induction h with
    | single hcd => exact (step_begins hcd).1
    | tail _ hbd ih => exact Nat.le_trans ih (step_begins hbd).1
  cases h with
  | single hcd => exact hlast (Nat.le_refl _) hcd
  | tail hcb hbd => exact hlast (hcount hcb) hbd

end Machine

section

variable {session : Session} {template : Template} {bindings : Bindings}

theorem render_atLimit (upper : Bool) (interrupt : Interrupt) (n : Nat) :
    let full := (session.render template bindings { upper } interrupt).1
    let cut := (session.render template bindings { limit := some n, upper } interrupt).1
    cut.2.held = full.2.held.extract 0 n ∧
      (full.2.held.size ≤ n → cut.2.flush = .ok () → cut.1 = full.1) ∧
      (n < full.2.held.size → cut.1 = .error ⟨.output .full, none⟩) := by
  have hrelated := Cut.run_relates session.engine (check_atLimit n interrupt)
    (write_atLimit n) template.nodes
  have hstart : (Cut.atLimit n).along { limit := some n, upper } { upper } :=
    ⟨rfl, rfl, rfl, rfl, Nat.zero_le n⟩
  rcases hrelated.along (session.start bindings { limit := some n, upper }) _ hstart with
    ⟨k, hk, hy⟩ | ⟨e, he, rfl, hpast⟩
  · have hfull := render_of_run hy
    have hcut := render_of_run (Prod.eta (run ⟨session.engine, interrupt⟩ template.nodes
      (session.start bindings { limit := some n, upper }))).symm
    obtain ⟨hheld, hsize⟩ := Sink.Limits.extract hk
    dsimp only
    rw [hcut, hfull]
    refine ⟨hheld, fun _ hflush => ?_, fun hn => absurd hsize (Nat.not_le.mpr hn)⟩
    have hj : (run ⟨session.engine, interrupt⟩ template.nodes
      (session.start bindings { limit := some n, upper })).2.sink.flush = .ok () := hflush
    simp only [outcome, State.withSink, hj, Sink.flush_of_unlimited hk.unlimited]
  · have hcut := render_of_run (Prod.ext he rfl)
    have hfull := render_of_run (Prod.eta (run ⟨session.engine, interrupt⟩ template.nodes
      (session.start bindings { upper }))).symm
    obtain ⟨hheld, hsize⟩ := Sink.Fills.extract hpast
    dsimp only
    rw [hcut, hfull]
    exact ⟨hheld, fun hn => absurd hsize (Nat.not_lt.mpr hn), fun _ => rfl⟩

theorem render_byInterrupt (upper : Bool) (interrupt : Interrupt) :
    let full := (session.render template bindings { upper } fun _ _ => false).1
    let cut := (session.render template bindings { upper } interrupt).1
    cut.2.Begins full.2 ∧
      (cut.1 = .error ⟨.cancelled, none⟩ ∨ cut.1 = full.1 ∧ cut.2.held = full.2.held) := by
  have hrelated := Cut.run_relates session.engine (check_byInterrupt interrupt)
    write_byInterrupt template.nodes
  rcases hrelated.along (session.start bindings { upper }) { upper } rfl with
    ⟨k, hk, hy⟩ | ⟨e, he, rfl, hpast⟩
  · have hfull := render_of_run hy
    have hcut := render_of_run (Prod.eta (run ⟨session.engine, interrupt⟩ template.nodes
      (session.start bindings { upper }))).symm
    obtain rfl : _ = k := hk
    dsimp only
    rw [hcut, hfull]
    exact ⟨.refl _, .inr ⟨rfl, rfl⟩⟩
  · have hcut := render_of_run (Prod.ext he rfl)
    have hfull := render_of_run (Prod.eta (run ⟨session.engine, fun _ _ => false⟩ template.nodes
      (session.start bindings { upper }))).symm
    dsimp only
    rw [hcut, hfull]
    exact ⟨hpast, .inl rfl⟩

end

/-- A sink that is full and a request to stop only cut a render short. -/
theorem render_truncated (session : Session) (template : Template) (bindings : Bindings)
    (upper : Bool) :
    (∀ interrupt n,
      let full := (session.render template bindings { upper } interrupt).1
      let cut := (session.render template bindings { limit := some n, upper } interrupt).1
      cut.2.held = full.2.held.extract 0 n ∧
        (full.2.held.size ≤ n → cut.2.flush = .ok () → cut.1 = full.1) ∧
        (n < full.2.held.size → cut.1 = .error ⟨.output .full, none⟩)) ∧
    (∀ interrupt,
      let full := (session.render template bindings { upper } fun _ _ => false).1
      let cut := (session.render template bindings { upper } interrupt).1
      cut.2.Begins full.2 ∧
        (cut.1 = .error ⟨.cancelled, none⟩ ∨ cut.1 = full.1 ∧ cut.2.held = full.2.held)) ∧
    ∀ interrupt sink,
      let setting : Setting := ⟨session.engine, interrupt⟩
      let s := session.start bindings sink
      Machine.Steps setting (Machine.start template.nodes s)
        (Machine.stop [] (run setting template.nodes s)) ∧
      ∀ c d node, Machine.Steps setting (Machine.start template.nodes s) c →
        (∀ k ≥ c.state.checks, ∀ bytes, interrupt k bytes = true) →
        Relation.TransGen (fun c d => Machine.step setting c = some d) c d →
        d.control ≠ .node node := by
  refine ⟨fun interrupt n => render_atLimit upper interrupt n,
    fun interrupt => render_byInterrupt upper interrupt, fun interrupt sink => ⟨?_, ?_⟩⟩
  · exact Machine.steps_run _ _ _
  · intro c d node _ hstop hsteps
    exact Machine.no_node_begins hstop hsteps node

/-- A text of three bytes is cut after two, and not written at all when the render has to stop. -/
theorem render_truncated_text :
    let session : Session := { engine := {} }
    let template : Template := ⟨[.text "abc"], ⟨"abc", none⟩⟩
    (session.render template [] { limit := some 2 } fun _ _ => false).1.1
      = .error ⟨.output .full, none⟩ ∧
    (session.render template [] { limit := some 3 } fun _ _ => false).1.1
      = (session.render template [] {} fun _ _ => false).1.1 ∧
    ∀ d node, Relation.TransGen
        (fun c d => Machine.step ⟨session.engine, fun _ _ => true⟩ c = some d)
        (Machine.start template.nodes (session.start [] {})) d → d.control ≠ .node node := by
  intro session template
  have h := render_truncated session template [] false
  refine ⟨(h.1 _ 2).2.2 (by decide), (h.1 _ 3).2.1 (by decide) rfl, fun d node hd => ?_⟩
  exact (h.2.2 (fun _ _ => true) {}).2 _ d node .refl (fun _ _ _ => rfl) hd

end Stencil.Render
