import Stencil.Engine
import Stencil.Proofs.Loading

/-!
# Renders and what is cached

A render sees of the cache only what names stand for. Two renders over caches in which all names stand
for the same templates end alike, whatever was loaded before them.
-/
namespace Stencil

/-- The state with other things loaded. -/
def State.withMemory (s : State) (m : Cache × List String) : State :=
  { s with cache := m.1, reads := m.2 }

namespace Render

variable {engine : Engine} {α β : Type}

/-- A step that goes the same way over all caches in which names stand for the same templates. -/
def Transparent (engine : Engine) (x : Render α) : Prop :=
  ∀ (s : State) m, m.1.served engine = s.cache.served engine →
    ∃ n, n.1.served engine = (x s).2.cache.served engine ∧
      x (s.withMemory m) = ((x s).1, (x s).2.withMemory n)

/-- A step that neither looks at what is loaded nor loads. -/
def Forgetful (x : Render α) : Prop :=
  ∀ (s : State) m, x (s.withMemory m) = ((x s).1, (x s).2.withMemory m)

theorem Forgetful.leaves {x : Render α} (h : Forgetful x) : Leaves memory x := by
  intro s
  have hs := h s (memory s)
  change x s = _ at hs
  rw [hs]
  rfl

theorem write_forgetful (text : String) : Forgetful (write text) := by
  intro s m
  simp only [write, State.withMemory]
  cases s.captures with
  | nil => rfl
  | cons buffer captures => rfl

namespace Transparent

theorem of_forgetful {x : Render α} (h : Forgetful x) : Transparent engine x := by
  intro s m hm
  have hcache : (x s).2.cache = s.cache := congrArg Prod.fst (h.leaves s)
  exact ⟨m, by rw [hcache, hm], h s m⟩

theorem ret (a : α) : Transparent engine (pure a : Render α) := of_forgetful fun _ _ => rfl

theorem seq {x : Render α} {f : α → Render β} (hx : Transparent engine x)
    (hf : ∀ a, Transparent engine (f a)) : Transparent engine (x >>= f) := by
  intro s m hm
  obtain ⟨n, hn, hsame⟩ := hx s m hm
  rcases hr : x s with ⟨e | a, t⟩
  · rw [hr] at hn hsame
    rw [bind_of_error hr, bind_of_error hsame]
    exact ⟨n, hn, rfl⟩
  · rw [hr] at hn hsame
    rw [bind_of_ok hr, bind_of_ok hsame]
    exact hf a t n hn

/-- A step between two that have to do with the cache in no way. -/
theorem wrap (before : State → State)
    (after : State → Except Error α × State → Except Error β × State) {x : Render α}
    (h : Transparent engine x)
    (hbefore : ∀ s m, before (s.withMemory m) = (before s).withMemory m)
    (hafter : ∀ s m r t n, after (s.withMemory m) (r, t.withMemory n) =
      ((after s (r, t)).1, (after s (r, t)).2.withMemory n)) :
    Transparent engine fun s => after s (x (before s)) := by
  intro s m hm
  -- neither side touches the cache, as one sees from the memory that the state has anyway
  have hstart : (before s).cache = s.cache := by
    have hb := hbefore s (memory s)
    change before s = _ at hb
    rw [hb]
    rfl
  have hend (r : Except Error α) (t : State) : (after s (r, t)).2.cache = t.cache := by
    have ha := hafter s (memory s) r t (memory t)
    change after s (r, t) = _ at ha
    rw [ha]
    rfl
  obtain ⟨n, hn, hsame⟩ := h (before s) m (by rw [hstart, hm])
  refine ⟨n, hn.trans (congrArg (Cache.served engine) (hend _ _)).symm, ?_⟩
  dsimp only
  rw [hbefore, hsame]
  exact hafter s m _ _ n

theorem inLoop {x : Render α} (h : Transparent engine x) : Transparent engine (inLoop x) :=
  h.wrap (fun s => { s with scope := s.scope.enterLoop })
    (fun _ r => (r.1, { r.2 with scope := r.2.scope.leaveLoop })) (fun _ _ => rfl)
    fun _ _ _ _ _ => rfl

theorem inChild (params : Bindings) (isolated : Bool) {x : Render α} (h : Transparent engine x) :
    Transparent engine (inChild params isolated x) :=
  h.wrap (fun s => { s with scope := s.scope.child params isolated })
    (fun s r => (r.1, { r.2 with scope := s.scope })) (fun _ _ => rfl) fun _ _ _ _ _ => rfl

theorem captured {x : Render α} (h : Transparent engine x) : Transparent engine (captured x) :=
  h.wrap (fun s => { s with captures := "" :: s.captures })
    (fun _ r => (r.1.map fun a => (a, r.2.captures.headD ""),
      { r.2 with captures := r.2.captures.tail })) (fun _ _ => rfl) fun _ _ _ _ _ => rfl

theorem locatedAt (l : Location) {x : Render α} (h : Transparent engine x) :
    Transparent engine (locatedAt l x) := by
  intro s m hm
  obtain ⟨n, hn, hsame⟩ := h s m hm
  refine ⟨n, hn, ?_⟩
  simp only [Render.locatedAt, hsame]
  rfl

/-- A name is loaded from the cache or from the store, and stands for the same template. -/
theorem load_eq (engine : Engine) (name : String) (s : State) :
    (load engine name s).1 = s.cache.served engine name := by
  rcases load_cases engine name s with
    ⟨t, hget, hload⟩ | ⟨t, hget, hfetch, hload⟩ | ⟨e, hget, hfetch, hload⟩
  · simp only [hload, Cache.served, hget]
  · simp only [hload, Cache.served, hget, hfetch]
  · simp only [hload, Cache.served, hget, hfetch]

theorem load_leaves_served (engine : Engine) (name : String) (s : State) :
    (load engine name s).2.cache.served engine = s.cache.served engine :=
  funext (OnlyLoads.load engine name s).served

theorem load (engine : Engine) (name : String) : Transparent engine (load engine name) := by
  intro s m hm
  refine ⟨memory (Render.load engine name (s.withMemory m)).2, ?_, ?_⟩
  · rw [load_leaves_served]
    exact (load_leaves_served engine name (s.withMemory m)).trans hm
  · have hname : (s.withMemory m).cache.served engine name = s.cache.served engine name :=
      congrFun hm name
    apply Prod.ext
    · rw [load_eq, load_eq, hname]
    · rfl

theorem params (engine : Engine) (name : String) (subject : Option (Expr × Option String))
    (bindings : List (String × Expr)) : Transparent engine (params engine name subject bindings) := by
  have hnamed (start : Bindings) : Transparent engine fun s =>
      (Expr.evalNamed (engine.environment s.scope) start bindings, s) :=
    of_forgetful fun _ _ => rfl
  cases subject with
  | none => exact .seq (.ret _) hnamed
  | some subject =>
    obtain ⟨e, given?⟩ := subject
    exact .seq (of_forgetful fun _ _ => rfl) fun _ => .seq (.ret _) hnamed

theorem evaluation (engine : Engine) :
    EvalCongruence engine engine (fun _ => True) fun x _ => Transparent engine x where
  ret := .ret
  seq := .seq
  toInt _ := of_forgetful fun _ _ => rfl
  eval _ := of_forgetful fun _ _ => rfl
  bounds _ := ⟨trivial, trivial⟩

theorem congruence (engine : Engine) (interrupt : Interrupt) (a : Includer)
    (ha : ∀ run, a = some run → ∀ nodes, Transparent engine (run nodes)) :
    Congruence ⟨engine, interrupt⟩ ⟨engine, interrupt⟩ a a (fun _ => True)
      fun x _ => Transparent engine x where
  toEvalCongruence := evaluation engine
  check := of_forgetful fun _ _ => rfl
  write text := of_forgetful (write_forgetful text)
  assign _ _ := of_forgetful fun _ _ => rfl
  loop name items count x _ hx := by
    have hscope (f : Scope → Scope) : Transparent engine (modifyScope f) :=
      of_forgetful fun _ _ => rfl
    exact ((evaluation engine).iterate name (fun _ _ => hscope _) items (x := x) (y := x) hx 0
      count).inLoop
  captured hx := hx.captured
  nextCycle _ _ := of_forgetful fun _ _ => rfl
  located _ hx := hx.locatedAt _
  inclusion {isolated template subject bindings} _ := by
    refine .seq (of_forgetful fun _ _ => rfl) fun v => ?_
    cases a with
    | none => exact of_forgetful fun _ _ => rfl
    | some run =>
      refine .seq (.load engine v.display) fun included => ?_
      refine .seq (.params engine v.display subject bindings) fun ps => ?_
      have hchild : Transparent engine (Render.inChild ps isolated (run included.nodes)) :=
        (ha run rfl included.nodes).inChild ps isolated
      exact .seq (.seq hchild fun _ => .ret _) fun _ => .ret _

theorem run (engine : Engine) (interrupt : Interrupt) (nodes : List Node) :
    Transparent engine (run ⟨engine, interrupt⟩ nodes) := fun s =>
  Congruence.within (R := fun x _ => Transparent engine x) (congruence engine interrupt) _ nodes s

theorem template (engine : Engine) (interrupt : Interrupt) (t : Template) :
    Transparent engine (template ⟨engine, interrupt⟩ t) := by
  exact .seq (.seq (run engine interrupt t.nodes) fun _ => .ret _) fun _ =>
    of_forgetful fun _ _ => rfl

end Transparent

end Render

namespace Session

theorem served_load (name : String) (s : Session) :
    (s.load name).2.cache.served s.engine = s.cache.served s.engine :=
  Render.Transparent.load_leaves_served s.engine name (s.start [] {})

theorem served_render (template : Template) (bindings : Bindings) (sink : Sink)
    (interrupt : Interrupt) (s : Session) :
    (s.render template bindings sink interrupt).2.cache.served s.engine =
      s.cache.served s.engine :=
  funext (Render.OnlyLoads.template s.engine interrupt template (s.start bindings sink)).served

/-- Sessions in which names stand for the same templates render alike. -/
theorem render_eq_of_served {s t : Session} (hengine : t.engine = s.engine)
    (hserved : t.cache.served s.engine = s.cache.served s.engine) (template : Template)
    (bindings : Bindings) (sink : Sink) (interrupt : Interrupt) :
    (t.render template bindings sink interrupt).1 =
      (s.render template bindings sink interrupt).1 := by
  obtain ⟨n, -, hsame⟩ := Render.Transparent.template s.engine interrupt template
    (s.start bindings sink) (t.cache, t.reads) hserved
  have hstart : t.start bindings sink = (s.start bindings sink).withMemory (t.cache, t.reads) := rfl
  simp only [render, hengine, hstart, hsame]
  rfl

/-- The sessions of an engine in which templates were loaded and rendered, whether or not that
succeeded, and nothing else was done. -/
inductive Warmed (engine : Engine) : Session → Prop where
  | fresh : Warmed engine { engine }
  | load (name : String) {s : Session} : Warmed engine s → Warmed engine (s.load name).2
  | render (template : Template) (bindings : Bindings) (sink : Sink) (interrupt : Interrupt)
    {s : Session} :
    Warmed engine s → Warmed engine (s.render template bindings sink interrupt).2

theorem Warmed.served {engine : Engine} {s : Session} (h : Warmed engine s) :
    s.engine = engine ∧ s.cache.served engine = engine.fetch := by
  induction h with
  | fresh => exact ⟨rfl, rfl⟩
  | @load name s _ ih =>
    obtain ⟨rfl, hserved⟩ := ih
    exact ⟨rfl, (s.served_load name).trans hserved⟩
  | @render template bindings sink interrupt s _ ih =>
    obtain ⟨rfl, hserved⟩ := ih
    exact ⟨rfl, (s.served_render template bindings sink interrupt).trans hserved⟩

end Session

end Stencil
