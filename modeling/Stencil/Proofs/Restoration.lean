import Stencil.Proofs.Sessions

/-!
# Scopes after a run

A scope that a render comes to is made of the layers of the open loops, the template's own variables
and what surrounds the template. A run of nodes puts all of it back but for the own variables that
it assigns, however it ends.
-/
namespace Stencil

namespace Scope

def loops (s : Scope) : List Layer := s.layers.takeWhile (·.kind = .loop)

def own (s : Scope) : Bindings :=
  ((s.layers.find? (·.kind = .template)).map Layer.vars).getD []

def loopVariable? (s : Scope) (name : String) : Option Value :=
  (s.loops.map Layer.vars).findSome? (Table.find? name)

def outerVariable? (s : Scope) (name : String) : Option Value :=
  s.outer.findSome? (Table.find? name)

/-- All of a scope is as it was but for its own variables among `targets`. -/
structure Restored (targets : List String) (s t : Scope) : Prop where
  wellFormed : t.WellFormed
  kinds : t.kinds = s.kinds
  loops : t.loops = s.loops
  own : ∀ name ∉ targets, Table.find? name t.own = Table.find? name s.own
  outer : t.outer = s.outer
  depth : t.depth = s.depth

/-- Below its loops a scope has the template's own variables and no other layer. -/
theorem WellFormed.layers_eq {s : Scope} (h : s.WellFormed) :
    s.layers = s.loops ++ [⟨.template, s.own⟩] := by
  obtain ⟨n, hn⟩ := h
  obtain ⟨layers, outer, depth⟩ := s
  simp only [Scope.kinds, Scope.loops, Scope.own] at hn ⊢
  induction n generalizing layers with
  | zero =>
    obtain ⟨l, rfl, hl⟩ : ∃ l, layers = [l] ∧ l.kind = .template := by
      simpa [List.map_eq_singleton_iff] using hn
    obtain ⟨kind, vars⟩ := l
    subst hl
    rfl
  | succ n ih =>
    rw [List.replicate_succ, List.cons_append, List.map_eq_cons_iff] at hn
    obtain ⟨l, rest, rfl, hl, hrest⟩ := hn
    simpa [hl] using ih rest hrest

theorem WellFormed.lookup_eq {s : Scope} (h : s.WellFormed) (name : String) :
    s.lookup name =
      ((s.loopVariable? name).or (Table.find? name s.own)).or (s.outerVariable? name) := by
  have hbindings : s.bindings = s.loops.map Layer.vars ++ s.own :: s.outer := by
    rw [bindings, h.layers_eq]
    simp
  rw [lookup, hbindings, List.findSome?_append, Option.or_assoc, List.findSome?_cons]
  cases hown : Table.find? name s.own with
  | none => rfl
  | some v => rfl

theorem WellFormed.own_assign {s : Scope} (h : s.WellFormed) (name : String) (v : Value) :
    (s.assign name v).own = Table.insert name v s.own := by
  obtain ⟨n, hn⟩ := h
  obtain ⟨layers, outer, depth⟩ := s
  simp only [Scope.kinds, Scope.assign, Scope.own] at hn ⊢
  induction n generalizing layers with
  | zero =>
    obtain ⟨l, rfl, hl⟩ : ∃ l, layers = [l] ∧ l.kind = .template := by
      simpa [List.map_eq_singleton_iff] using hn
    simp [Layer.assign, Layer.set, hl]
  | succ n ih =>
    rw [List.replicate_succ, List.cons_append, List.map_eq_cons_iff] at hn
    obtain ⟨l, rest, rfl, hl, hrest⟩ := hn
    simpa [Layer.assign, hl] using ih rest hrest

theorem WellFormed.find?_own_assign {s : Scope} (h : s.WellFormed) (name : String) (v : Value) :
    Table.find? name (s.assign name v).own = some v := by
  rw [h.own_assign]
  exact Table.find?_insert_self name v s.own

namespace Kept

variable {targets : List String} {s t : Scope}

theorem loops_eq (h : Kept targets s t) : t.loops = s.loops := by
  have hlayers := h.layers
  simp only [Scope.loops]
  generalize s.layers = before, t.layers = after at hlayers ⊢
  induction hlayers with
  | nil => rfl
  | @cons l m ls ms hl _ ih =>
    have hkind := hl.kind
    cases hk : l.kind with
    | template =>
      rw [hk] at hkind
      simp [hk, hkind]
    | loop =>
      have hm : m = l := by
        obtain ⟨lk, lv⟩ := l
        obtain ⟨mk, mv⟩ := m
        simp only [Layer.mk.injEq]
        exact ⟨hkind, hl.loop hk⟩
      simp [hm, hk, ih]

theorem own_eq (h : Kept targets s t) {name : String} (hn : name ∉ targets) :
    Table.find? name t.own = Table.find? name s.own := by
  have hlayers := h.layers
  simp only [Scope.own]
  generalize s.layers = before, t.layers = after at hlayers ⊢
  induction hlayers with
  | nil => rfl
  | @cons l m ls ms hl _ ih =>
    have hkind := hl.kind
    cases hk : l.kind with
    | template =>
      rw [hk] at hkind
      simpa [hk, hkind] using hl.other name hn
    | loop =>
      rw [hk] at hkind
      simpa [hk, hkind] using ih

theorem wellFormed (h : Kept targets s t) (hs : s.WellFormed) : t.WellFormed := by
  obtain ⟨n, hn⟩ := hs
  exact ⟨n, h.kinds.trans hn⟩

theorem restored (h : Kept targets s t) (hs : s.WellFormed) : Restored targets s t where
  wellFormed := h.wellFormed hs
  kinds := h.kinds
  loops := h.loops_eq
  own _ hn := h.own_eq hn
  outer := h.outer
  depth := h.depth

end Kept

namespace Restored

variable {targets : List String} {s t : Scope}

/-- What is not assigned is seen as before. -/
theorem lookup_eq (h : Restored targets s t) (hs : s.WellFormed) {name : String}
    (hn : name ∉ targets) : t.lookup name = s.lookup name := by
  rw [h.wellFormed.lookup_eq, hs.lookup_eq]
  simp only [loopVariable?, outerVariable?, h.loops, h.outer, h.own name hn]

/-- The variables of open loops are seen as before, also when they are assigned. -/
theorem lookup_loop (h : Restored targets s t) {name : String} {v : Value}
    (hv : s.loopVariable? name = some v) : t.lookup name = some v := by
  have ht : t.loopVariable? name = some v := by
    rw [← hv]
    simp only [loopVariable?, h.loops]
  rw [h.wellFormed.lookup_eq, ht]
  rfl

end Restored

end Scope

namespace Render

variable {session : Session} {interrupt : Interrupt} {template : Template} {bindings : Bindings}
  {sink : Sink} {c : Machine.Config}

/-- A render comes to no scope without a layer of its template below the loops. -/
theorem wellFormed_of_steps
    (h : Machine.Steps ⟨session.engine, interrupt⟩
      (Machine.start template.nodes (session.start bindings sink)) c) :
    c.state.scope.WellFormed :=
  Machine.Fits.wellFormed (h.fits (Machine.start_fits _ session template.nodes bindings sink))

theorem runAction_assign (setting : Setting) (includer : Includer) {target : String} {e : Expr}
    {v : Value} {s : State}
    (h : e.eval (setting.engine.environment s.scope) = .ok v) :
    runAction setting includer (.assign target e) s =
      (.ok .normal, { s with scope := s.scope.assign target v }) := by
  have heval : eval setting.engine e s = (.ok v, s) := Prod.ext h rfl
  simp only [runAction]
  rw [bind_of_ok heval]
  rfl

theorem runAction_capture (setting : Setting) (includer : Includer) {target text : String}
    {body : List Node}
    {signal : Signal} {s t : State}
    (h : captured (runNodes setting includer body) s = (.ok (signal, text), t)) :
    runAction setting includer (.capture target body) s =
      (.ok signal, { t with scope := t.scope.assign target (.str text) }) := by
  simp only [runAction]
  rw [bind_of_ok h]
  rfl

/-- However a run of nodes ends, in whichever state a render comes to, it leaves the scope as it was
but for the template's own variables among its targets. An included template leaves all of it, and
what is assigned or captured is among the own variables from then on. -/
theorem runNodes_restores_scope (session : Session) (interrupt : Interrupt) (template : Template)
    (bindings : Bindings) (sink : Sink)
    (hc : Machine.Steps ⟨session.engine, interrupt⟩
      (Machine.start template.nodes (session.start bindings sink)) c) (includer : Includer) :
    c.state.scope.WellFormed ∧
    (∀ nodes,
      let after := (runNodes ⟨session.engine, interrupt⟩ includer nodes c.state).2.scope
      c.state.scope.Restored (targetsOf nodes) after ∧
      (∀ name ∉ targetsOf nodes, after.lookup name = c.state.scope.lookup name) ∧
      ∀ name v, c.state.scope.loopVariable? name = some v → after.lookup name = some v) ∧
    (∀ isolated name subject params,
      (runAction ⟨session.engine, interrupt⟩ includer (.include isolated name subject params)
        c.state).2.scope = c.state.scope) ∧
    (∀ target e v, e.eval (session.engine.environment c.state.scope) = .ok v →
      let after := runAction ⟨session.engine, interrupt⟩ includer (.assign target e) c.state
      after.1 = .ok .normal ∧ Table.find? target after.2.scope.own = some v) ∧
    ∀ target body signal text t,
      captured (runNodes ⟨session.engine, interrupt⟩ includer body) c.state
        = (.ok (signal, text), t) →
      let after := runAction ⟨session.engine, interrupt⟩ includer (.capture target body) c.state
      after.1 = .ok signal ∧ Table.find? target after.2.scope.own = some (.str text) := by
  have hwell := wellFormed_of_steps hc
  refine ⟨hwell, fun nodes => ?_, fun isolated name subject params => ?_,
    fun target e v he => ?_, fun target body signal text t ht => ?_⟩
  · have hkept := runNodes_bindsOnly ⟨session.engine, interrupt⟩ includer nodes c.state
    have hrestored := hkept.restored hwell
    exact ⟨hrestored, fun name hn => hrestored.lookup_eq hwell hn,
      fun name v hv => hrestored.lookup_loop hv⟩
  · simp only [runAction]
    exact inclusion_leaves_scope session.engine includer isolated name subject params c.state
  · dsimp only
    rw [runAction_assign ⟨session.engine, interrupt⟩ includer he]
    exact ⟨rfl, hwell.find?_own_assign target v⟩
  · have hkept := runNodes_bindsOnly ⟨session.engine, interrupt⟩ includer body
      { c.state with captures := "" :: c.state.captures }
    have hscope : t.scope =
        (runNodes ⟨session.engine, interrupt⟩ includer body
          { c.state with captures := "" :: c.state.captures }).2.scope := by
      rw [← congrArg (fun r => r.2.scope) ht]
      rfl
    rw [← hscope] at hkept
    have hafter : t.scope.WellFormed := hkept.wellFormed hwell
    dsimp only
    rw [runAction_capture ⟨session.engine, interrupt⟩ includer ht]
    exact ⟨rfl, hafter.find?_own_assign target (.str text)⟩

/-- A loop variable outlives an assignment to it in the body of its loop. -/
theorem runNodes_restores_loop_variable :
    let assignment : Node :=
      .tag false "assign" ⟨none, 1, 20, 19⟩ (.assign "x" (.literal (.int 7)))
    let template : Template := ⟨[.tag true "for" ⟨none, 1, 1, 0⟩
      (.loop "x" (.literal (.list [.int 1, .int 2])) {} [assignment] [])], ⟨"", none⟩⟩
    let session : Session := { engine := {} }
    ∃ c, Machine.Steps ⟨session.engine, fun _ _ => false⟩
        (Machine.start template.nodes (session.start [] {})) c ∧
      c.control = .nodes [assignment] ∧
      (runNodes ⟨session.engine, fun _ _ => false⟩ none [assignment] c.state).2.scope.lookup "x"
        = some (.int 1) := by
  intro assignment template session
  refine ⟨_, .head rfl (.head rfl (.head rfl .refl)), rfl, ?_⟩
  have h := runNodes_restores_scope session (fun _ _ => false) template [] {}
    (.head rfl (.head rfl (.head rfl .refl))) none
  exact (h.2.1 [assignment]).2.2 "x" (.int 1) rfl

end Render

end Stencil
