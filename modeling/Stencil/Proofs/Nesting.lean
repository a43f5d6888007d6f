import Stencil.Proofs.Soundness

/-!
# Nested inclusions

Every render comes to an end. On its way the depth of the scope is the number of the inclusions that
are open, which the limit bounds, and a render fails with a recursive inclusion if and only if it
comes to an inclusion at the limit whose name has a value.
-/
namespace Stencil

def Error.IsRecursive (e : Error) : Prop := ∃ name limit, e.cause = .recursiveInclude name limit

theorem Error.IsRecursive.placed {e : Error} (h : e.IsRecursive) : e.Placed := by
  obtain ⟨name, limit, hc⟩ := h
  intro l
  simp [locatedAt, hc, Cause.hasPlace]

theorem Error.isRecursive_locatedAt {l : Location} {e : Error} :
    (e.locatedAt l).IsRecursive ↔ e.IsRecursive := by
  simp only [IsRecursive, cause_locatedAt]

abbrev Error.IsOther (e : Error) : Prop := ¬ e.IsRecursive

theorem Error.IsOther.of_cause {e : Error}
    (h : ∀ name limit, e.cause ≠ .recursiveInclude name limit) : e.IsOther :=
  fun ⟨name, limit, hc⟩ => h name limit hc

theorem Error.isOther_of_valueFault (e : Error) (h : e.IsValueFault) : e.IsOther := by
  rintro ⟨name, limit, hc⟩
  rw [IsValueFault, hc] at h
  cases h.1

namespace Render

variable {α β : Type}

/-- A step that fails with such errors only. -/
def FailsOnly (E : Error → Prop) (x : Render α) : Prop := ∀ s, Fails E (x s).1

namespace FailsOnly

variable {E : Error → Prop}

theorem ret (a : α) : FailsOnly E (pure a) := fun _ => trivial

theorem seq {x : Render α} {f : α → Render β} (hx : FailsOnly E x) (hf : ∀ a, FailsOnly E (f a)) :
    FailsOnly E (x >>= f) := by
  intro s
  have h := hx s
  apply bind_elim (P := fun r => Fails E r.1)
  · intro e t ht
    rw [ht] at h
    exact h
  · intro a t _
    exact hf a t

theorem write (h : ∀ fault, E ⟨.output fault, none⟩) (text : String) :
    FailsOnly E (write text) := by
  intro s
  simp only [Render.write]
  cases s.captures with
  | cons buffer captures => trivial
  | nil => exact .mapError (fun _ _ => trivial) fun fault _ => h fault

theorem check (h : E ⟨.cancelled, none⟩) (interrupt : Interrupt) :
    FailsOnly E (check interrupt) := by
  intro s
  simp only [Render.check]
  split
  · exact h
  · trivial

variable (hvalue : ∀ e, Error.IsValueFault e → E e)
  (hfilter : ∀ name, E ⟨.undefinedFilter name, none⟩)
include hvalue hfilter

theorem eval (engine : Engine) (e : Expr) : FailsOnly E (eval engine e) := fun _ =>
  Expr.eval_fails hvalue e fun _ _ => .inr (hfilter _)

theorem params (engine : Engine) (name : String) (subject : Option (Expr × Option String))
    (bindings : List (String × Expr)) : FailsOnly E (params engine name subject bindings) := by
  have hnamed (start : Bindings) : FailsOnly E fun s =>
      (Expr.evalNamed (engine.environment s.scope) start bindings, s) := fun _ =>
    Expr.evalNamed_fails hvalue _ _ fun _ _ => .inr (hfilter _)
  cases subject with
  | none => exact .seq (.ret _) hnamed
  | some subject =>
    obtain ⟨e, given?⟩ := subject
    exact .seq (eval hvalue hfilter engine e) fun v => .seq (.ret _) hnamed

theorem evaluation (engine : Engine) :
    EvalCongruence engine engine (fun _ => True) fun x _ => FailsOnly E x where
  ret := .ret
  seq := .seq
  toInt v _ := (Expr.toInt_fails v).mono (fun _ h => h) hvalue
  eval _ := eval hvalue hfilter engine _
  bounds _ := ⟨trivial, trivial⟩

end FailsOnly

def Spares (x : Render α) : Prop := ∀ s, Fails Error.IsOther (x s).1

namespace Spares

theorem eval (engine : Engine) (e : Expr) : Spares (eval engine e) :=
  FailsOnly.eval Error.isOther_of_valueFault (fun _ => .of_cause nofun) engine e

theorem params (engine : Engine) (name : String) (subject : Option (Expr × Option String))
    (bindings : List (String × Expr)) : Spares (params engine name subject bindings) :=
  FailsOnly.params Error.isOther_of_valueFault (fun _ => .of_cause nofun) engine name subject
    bindings

theorem load {engine : Engine} (hg : engine.grammar.OfStandardTags) (name : String) :
    Spares (load engine name) := by
  intro s
  rcases load_cases engine name s with
    ⟨t, -, hload⟩ | ⟨t, -, -, hload⟩ | ⟨e, -, hfetch, hload⟩
  · rw [hload]
    trivial
  · rw [hload]
    trivial
  · have hends := engine.fetch_ends hg name
    rw [hfetch] at hends
    rw [hload]
    rintro ⟨other, limit, hc⟩
    rcases hends with ⟨htime, -⟩ | ⟨fault, hstore⟩
    · rw [Error.IsCompileTime, hc] at htime
      cases htime
    · rw [hc] at hstore
      cases hstore

theorem write (text : String) : Spares (write text) :=
  FailsOnly.write (fun _ => .of_cause nofun) text

theorem check (interrupt : Interrupt) : Spares (check interrupt) :=
  FailsOnly.check (.of_cause nofun) interrupt

theorem evaluation (engine : Engine) :
    EvalCongruence engine engine (fun _ => True) fun x _ => Spares x :=
  FailsOnly.evaluation Error.isOther_of_valueFault (fun _ => .of_cause nofun) engine

end Spares

namespace Machine

variable {engine : Engine} {setting : Setting}

/-- A step after which the machine has no result that is a recursive inclusion. -/
def Calm (x : Render Launch) : Prop :=
  ∀ waiting s e, (settle waiting (x s)).control = .done (.error e) → e.IsOther

namespace Calm

theorem go {l : Launch} (h : ∀ e, l.control ≠ .done (.error e)) : Calm (pure l) :=
  fun _ _ e he => absurd he (h e)

theorem finish (signal : Signal) : Calm (pure (.finish signal)) :=
  go fun _ h => by cases h

theorem nodes (nodes : List Node) (pending : List Pending) : Calm (pure ⟨.nodes nodes, pending⟩) :=
  go fun _ h => by cases h

theorem seq {z : Render α} {f : α → Render Launch} (hz : Spares z) (h : ∀ a, Calm (f a)) :
    Calm (z >>= f) := by
  intro waiting s
  have hs := hz s
  apply bind_elim (P := fun r => ∀ e, (settle waiting r).control = .done (.error e) → e.IsOther)
  · intro e t ht e' he'
    rw [ht] at hs
    cases he'
    exact hs
  · intro a t _
    exact h a waiting t

theorem located (l : Location) {x : Render Launch} (h : Calm x) : Calm (locatedAt l x) := by
  intro waiting s e he
  simp only [locatedAt] at he
  rcases hr : x s with ⟨e' | a, t⟩
  · rw [hr] at he
    cases he
    have hother := h waiting s e' (by rw [hr]; rfl)
    exact fun hrec => hother (Error.isRecursive_locatedAt.mp hrec)
  · rw [hr] at he
    exact h waiting s e (by rw [hr]; exact he)

end Calm

theorem Calm.launching (engine : Engine) :
    Launching engine (fun _ => True) (fun x => Spares x) Calm where
  toEvalCongruence := Spares.evaluation engine
  chain := .seq
  finish := .finish
  nodes _ := .nodes _ []
  inCapture _ := .nodes _ _
  inOutline _ _ := .nodes _ _
  write := .write
  assign _ _ _ := trivial
  openCapture _ := trivial
  closeCapture _ := trivial
  nextCycle _ _ _ := trivial

theorem modifyScope_spares (f : Scope → Scope) : Spares (modifyScope f) := fun _ => trivial

theorem nextItem_calm (name : String) (items : LoopItems) (body : List Node) (index left : Nat) :
    Calm (nextItem name items body index left) := by
  cases left with
  | zero => exact .seq (modifyScope_spares _) fun _ => .finish _
  | succ left => exact .seq (modifyScope_spares _) fun _ => .nodes _ _

theorem enter_calm {action : Action}
    (h : ∀ isolated name subject bindings, action ≠ .include isolated name subject bindings) :
    Calm (enter engine action) := by
  apply (Calm.launching engine).enter
  · intro name items body _
    exact .seq (modifyScope_spares _) fun _ => nextItem_calm name items body 0 items.count
  · exact fun _ _ => trivial
  · intro isolated name subject bindings hinclude
    exact absurd hinclude (h isolated name subject bindings)

section

variable {isolated : Bool} {template : Expr} {subject : Option (Expr × Option String)}
  {bindings : List (String × Expr)} {s : State}

theorem openInclusion_of_error {e : Error}
    (h : template.eval (engine.environment s.scope) = .error e) :
    openInclusion engine isolated template subject bindings s = (.error e, s) := by
  have heval : Render.eval engine template s = (.error e, s) := Prod.ext h rfl
  rw [openInclusion, bind_of_error heval]

/-- An inclusion whose name has a value is opened, unless it is at the limit. -/
theorem openInclusion_of_ok {v : Value} (h : template.eval (engine.environment s.scope) = .ok v) :
    openInclusion engine isolated template subject bindings s =
      if engine.options.maxIncludeDepth ≤ s.scope.depth then
        (.error ⟨.recursiveInclude v.display engine.options.maxIncludeDepth, none⟩, s)
      else (do
        let included ← load engine v.display
        let values ← params engine v.display subject bindings
        modifyScope (Scope.child values isolated)
        return ⟨.nodes included.nodes, [.inclusion s.scope]⟩ : Render Launch) s := by
  have heval : Render.eval engine template s = (.ok v, s) := Prod.ext h rfl
  have hhere : here s = (.ok s.scope, s) := rfl
  rw [openInclusion, bind_of_ok heval, bind_of_ok hhere, ite_apply]
  rfl

end

/-- An inclusion fails with a recursive inclusion at the limit and nowhere else. -/
theorem openInclusion_recursive {isolated : Bool} {template : Expr}
    {subject : Option (Expr × Option String)} {bindings : List (String × Expr)}
    {waiting : List Pending} {s : State} {e : Error} (hg : engine.grammar.OfStandardTags)
    (h : (settle waiting (openInclusion engine isolated template subject bindings s)).control
      = .done (.error e)) (he : e.IsRecursive) :
    engine.options.maxIncludeDepth ≤ s.scope.depth ∧
      ∃ v, template.eval (engine.environment s.scope) = .ok v ∧
        e = ⟨.recursiveInclude v.display engine.options.maxIncludeDepth, none⟩ := by
  cases hv : template.eval (engine.environment s.scope) with
  | error e' =>
    have hother := Spares.eval engine template s
    rw [eval_apply, hv] at hother
    rw [openInclusion_of_error hv] at h
    cases h
    exact absurd he hother
  | ok v =>
    rw [openInclusion_of_ok hv] at h
    split at h
    · rename_i hlimit
      cases h
      exact ⟨hlimit, v, rfl, rfl⟩
    · have hcalm : Calm (do
          let included ← load engine v.display
          let values ← params engine v.display subject bindings
          modifyScope (Scope.child values isolated)
          return ⟨.nodes included.nodes, [.inclusion s.scope]⟩) :=
        .seq (.load hg _) fun included => .seq (.params _ _ _ _) fun values =>
          .seq (modifyScope_spares _) fun _ => .nodes _ _
      exact absurd he (hcalm waiting s e h)

def Pending.passed : Pending → Error → Error
  | .place l, e => e.locatedAt l
  | _, e => e

theorem resume_error (p : Pending) (e : Error) (waiting : List Pending) (s : State) :
    ∃ t, settle waiting (resume p (.error e) s) = ⟨.done (.error (p.passed e)), waiting, t⟩ ∧
      memory t = memory s := by
  cases p with
  | rest | place | capture | loop | inclusion | outline => exact ⟨_, rfl, rfl⟩

theorem resume_calm (p : Pending) (signal : Signal) : Calm (resume p (.ok signal)) := by
  apply (Calm.launching {}).resume
  · exact fun _ _ => trivial
  · intro name items body index _ _ left
    exact nextItem_calm name items body index left
  · intro caller h
    rw [h]
    refine .seq (modifyScope_spares fun _ => caller) fun _ => ?_
    exact .seq (z := Render.liftExcept (.ok signal)) (fun _ => trivial) fun _ => .finish _

/-- The configuration executes an inclusion at the limit, of a template with a name. -/
structure AtLimit (engine : Engine) (name : String) (c : Config) : Prop where
  depth : c.state.scope.depth = engine.options.maxIncludeDepth
  runs : ∃ isolated template subject bindings v,
    c.control = .action (.include isolated template subject bindings) ∧
    template.eval (engine.environment c.state.scope) = .ok v ∧ v.display = name

/-- A recursive inclusion comes from an inclusion at the limit, or is passed on. -/
theorem step_recursive (hg : setting.engine.grammar.OfStandardTags) {c d : Config} {e : Error}
    (hc : c.Fits setting.engine.options.maxIncludeDepth) (h : step setting c = some d)
    (hd : d.control = .done (.error e)) (he : e.IsRecursive) :
    c.control = .done (.error e) ∨
      ∃ name, AtLimit setting.engine name c ∧
        e = ⟨.recursiveInclude name setting.engine.options.maxIncludeDepth, none⟩ := by
  obtain ⟨control, waiting, s⟩ := c
  have hcalm {x : Render Launch} (hx : Calm x) (hstep : some (settle waiting (x s)) = some d) :
      False := by
    cases hstep
    exact hx waiting s e hd he
  cases control with
  | nodes nodes =>
    cases nodes with
    | nil =>
      cases h
      cases hd
    | cons node nodes =>
      have hnode : Calm (pure ⟨.node node, [.rest nodes]⟩) := .go fun _ h => by cases h
      exact (hcalm (.seq (.check _) fun _ => hnode) h).elim
  | node node =>
    cases node with
    | text text => exact (hcalm (.seq (.write _) fun _ => .finish _) h).elim
    | output e' l =>
      exact (hcalm (.located l ((Calm.launching _).emit (e := e') trivial)) h).elim
    | tag isBlock name l action =>
      cases h
      cases hd
  | action action =>
    by_cases hinclude : ∃ isolated name subject bindings,
        action = .include isolated name subject bindings
    · obtain ⟨isolated, template, subject, bindings, rfl⟩ := hinclude
      cases h
      obtain ⟨hlimit, v, hv, rfl⟩ := openInclusion_recursive hg hd he
      refine .inr ⟨v.display, ⟨Nat.le_antisymm hc.depth_le hlimit, ?_⟩, rfl⟩
      exact ⟨isolated, template, subject, bindings, v, rfl, hv, rfl⟩
    · refine (hcalm (enter_calm ?_) h).elim
      intro isolated name subject bindings heq
      exact hinclude ⟨isolated, name, subject, bindings, heq⟩
  | done r =>
    cases waiting with
    | nil => cases h
    | cons p waiting =>
      cases r with
      | ok signal =>
        cases h
        exact absurd he (resume_calm p signal waiting s e hd)
      | error e' =>
        left
        -- Only a tag changes an error, to add a place, which this one already does without.
        obtain ⟨t, ht, -⟩ := resume_error p e' waiting s
        have hstep : settle waiting (resume p (.error e') s) = d := Option.some.inj h
        rw [ht] at hstep
        subst hstep
        have hpassed : p.passed e' = e := Except.error.inj (Control.done.inj hd)
        have heq : p.passed e' = e' := by
          cases p with
          | place l =>
            rw [← hpassed] at he
            exact (Error.isRecursive_locatedAt.mp he).placed l
          | rest | capture | loop | inclusion | outline => rfl
        rw [← hpassed, heq]

/-- A recursive inclusion that a run ends with comes from an inclusion at the limit on the way. -/
theorem Steps.recursive (hg : setting.engine.grammar.OfStandardTags) {c d : Config} {e : Error}
    (hc : c.Fits setting.engine.options.maxIncludeDepth) (h : Steps setting c d)
    (hd : d.control = .done (.error e)) (he : e.IsRecursive) :
    c.control = .done (.error e) ∨ ∃ name b, Steps setting c b ∧ AtLimit setting.engine name b ∧
      e = ⟨.recursiveInclude name setting.engine.options.maxIncludeDepth, none⟩ := by
  induction h with
  | refl => exact .inl hd
  | @tail b d hcb hbd ih =>
    rcases step_recursive hg (Steps.fits hcb hc) hbd hd he with hb | ⟨name, hlimit, rfl⟩
    · exact ih hb
    · exact .inr ⟨name, b, hcb, hlimit, rfl⟩

/-- An error without a place to it ends the run. -/
theorem error_stops (setting : Setting) {e : Error} (he : e.Placed) (waiting : List Pending)
    (s : State) : ∃ t, Steps setting ⟨.done (.error e), waiting, s⟩ (stop [] (.error e, t)) := by
  induction waiting generalizing s with
  | nil => exact ⟨s, .refl⟩
  | cons p waiting ih =>
    have hpassed : p.passed e = e := by
      cases p with
      | place l => exact he l
      | rest | capture | loop | inclusion | outline => rfl
    obtain ⟨t, ht, -⟩ := resume_error p e waiting s
    rw [hpassed] at ht
    obtain ⟨u, hu⟩ := ih t
    exact ⟨u, .head (congrArg some ht) hu⟩

theorem AtLimit.step {name : String} {c : Config} (h : AtLimit setting.engine name c) :
    Machine.step setting c = some
      ⟨.done (.error ⟨.recursiveInclude name setting.engine.options.maxIncludeDepth, none⟩),
        c.pending, c.state⟩ := by
  obtain ⟨control, waiting, s⟩ := c
  obtain ⟨hdepth, isolated, template, subject, bindings, v, rfl, hv, rfl⟩ := h
  have hle : setting.engine.options.maxIncludeDepth ≤ s.scope.depth := Nat.le_of_eq hdepth.symm
  simp only [Machine.step, enter]
  rw [openInclusion_of_ok hv, if_pos hle]
  rfl

theorem run_recursive_iff (hg : setting.engine.grammar.OfStandardTags) {nodes : List Node}
    {s : State} (hfits : (start nodes s).Fits setting.engine.options.maxIncludeDepth)
    (name : String) (limit : Nat) (place : Option Location) :
    (run setting nodes s).1 = .error ⟨.recursiveInclude name limit, place⟩ ↔
      limit = setting.engine.options.maxIncludeDepth ∧ place = none ∧
        ∃ c, Steps setting (start nodes s) c ∧ AtLimit setting.engine name c := by
  have hsteps := steps_run setting nodes s
  constructor
  · intro h
    have hd : (stop [] (run setting nodes s)).control
        = .done (.error ⟨.recursiveInclude name limit, place⟩) := congrArg Control.done h
    rcases hsteps.recursive hg hfits hd ⟨name, limit, rfl⟩ with hstart | ⟨other, c, hc, hlimit, heq⟩
    · cases hstart
    · cases heq
      exact ⟨rfl, rfl, c, hc, hlimit⟩
  · rintro ⟨rfl, rfl, c, hc, hlimit⟩
    have hplaced : Error.IsRecursive
        ⟨.recursiveInclude name setting.engine.options.maxIncludeDepth, none⟩ := ⟨name, _, rfl⟩
    -- From the limit the machine goes down with the error, and a run has only one end.
    obtain ⟨t, ht⟩ := error_stops setting hplaced.placed c.pending c.state
    have hend := hsteps.eq_of_stop ((hc.tail hlimit.step).trans ht) rfl rfl
    exact Control.done.inj (congrArg Config.control hend)

/-- No sequence of steps goes on for ever from where the machine comes to a stop. -/
theorem Steps.finite {c e : Config} (h : Steps setting c e) (hstop : Machine.step setting e = none)
    (f : Nat → Config) (hf : f 0 = c) : ∃ n, Machine.step setting (f n) ≠ some (f (n + 1)) := by
  induction h using Relation.ReflTransGen.head_induction_on generalizing f with
  | refl =>
    refine ⟨0, ?_⟩
    rw [hf, hstop]
    intro h
    cases h
  | head hcd _ ih =>
    by_cases hnext : Machine.step setting (f 0) = some (f 1)
    · rw [hf, hcd] at hnext
      obtain ⟨n, hn⟩ := ih (fun n => f (n + 1)) (Option.some.inj hnext).symm
      exact ⟨n + 1, hn⟩
    · exact ⟨0, hnext⟩

end Machine

theorem outcome_recursive_iff (r : Except Error Signal) (k : Sink) (name : String) (limit : Nat)
    (place : Option Location) :
    (outcome r k).1 = .error ⟨.recursiveInclude name limit, place⟩ ↔
      r = .error ⟨.recursiveInclude name limit, place⟩ := by
  cases r with
  | error e => simp [outcome]
  | ok signal =>
    cases hf : k.flush with
    | error fault => simp [outcome, hf, Except.mapError]
    | ok u => simp [outcome, hf, Except.mapError]

/-- A render comes to its result from wherever it is, in finitely many steps. Meanwhile no more
inclusions are open than the limit allows, and a recursive inclusion is the result exactly where an
inclusion whose name has a value is executed at the limit. -/
theorem render_stops_within_limit (session : Session)
    (hg : session.engine.grammar.OfStandardTags) (template : Template) (bindings : Bindings)
    (sink : Sink) (interrupt : Interrupt) :
    let setting : Setting := ⟨session.engine, interrupt⟩
    let first := Machine.start template.nodes (session.start bindings sink)
    (∃ r s, (session.render template bindings sink interrupt).1 = outcome r s.sink ∧
      ∀ c, Machine.Steps setting first c → Machine.Steps setting c (Machine.stop [] (r, s))) ∧
    (∀ f : Nat → Machine.Config, f 0 = first →
      ∃ n, Machine.step setting (f n) ≠ some (f (n + 1))) ∧
    (∀ c, Machine.Steps setting first c →
      c.state.scope.depth ≤ session.engine.options.maxIncludeDepth ∧
      c.state.scope.depth = Machine.openInclusions c.pending) ∧
    ∀ name limit place, (session.render template bindings sink interrupt).1.1
        = .error ⟨.recursiveInclude name limit, place⟩ ↔
      limit = session.engine.options.maxIncludeDepth ∧ place = none ∧
        ∃ c, Machine.Steps setting first c ∧ Machine.AtLimit session.engine name c := by
  intro setting first
  have hsteps := Machine.steps_run setting template.nodes (session.start bindings sink)
  have hrender : (session.render template bindings sink interrupt).1 =
      outcome (run setting template.nodes (session.start bindings sink)).1
        (run setting template.nodes (session.start bindings sink)).2.sink :=
    render_of_run (Prod.eta _).symm
  have hfits := Machine.start_fits session.engine.options.maxIncludeDepth session template.nodes
    bindings sink
  refine ⟨⟨_, _, hrender, fun c hc => hc.onward hsteps rfl⟩, hsteps.finite rfl, fun c hc => ?_,
    fun name limit place => ?_⟩
  · have hc := Machine.Steps.fits hc hfits
    exact ⟨hc.depth_le, hc.depth_eq⟩
  · have hrun : (run setting template.nodes (session.start bindings sink)).1
        = .error ⟨.recursiveInclude name limit, place⟩ ↔ _ :=
      Machine.run_recursive_iff hg hfits name limit place
    rw [hrender]
    exact (outcome_recursive_iff _ _ name limit place).trans hrun

/-- With no inclusions allowed, the first one is a recursive inclusion. -/
theorem render_stops_at_limit :
    let session : Session := { engine := {
      grammar := Grammar.addStandardTags {}
      options := { maxIncludeDepth := 0 } } }
    let template : Template := ⟨[.tag false "include" ⟨none, 1, 1, 0⟩
      (.include false (.literal (.str "a")) none [])], ⟨"\x7b% include 'a' %\x7d", none⟩⟩
    (session.render template [] {} fun _ _ => false).1.1
      = .error ⟨.recursiveInclude "a" 0, none⟩ := by
  intro session template
  have h := render_stops_within_limit session (Grammar.OfStandardTags.standard []) template [] {}
    fun _ _ => false
  refine (h.2.2.2 "a" 0 none).mpr ⟨rfl, rfl, _, .head rfl (.head rfl .refl), rfl, ?_⟩
  exact ⟨false, .literal (.str "a"), none, [], .str "a", rfl, rfl, rfl⟩

/-- The name of an inclusion is evaluated before the limit counts. An inclusion at the limit whose
name has no value is no recursive inclusion. -/
theorem include_without_name_at_limit :
    let source : SourceText := ⟨"\x7b% include missing %\x7d", none⟩
    let action : Action := .include false (.variable "missing") none []
    let template : Template := ⟨[.tag false "include" ⟨none, 1, 1, 0⟩ action], source⟩
    let session : Session := { engine := {
      grammar := Grammar.addStandardTags {}
      options := { strictVariables := true, maxIncludeDepth := 0 } } }
    Template.compile session.engine.grammar (.direct 0) source = .ok template ∧
      (∃ c, Machine.Steps ⟨session.engine, fun _ _ => false⟩
          (Machine.start template.nodes (session.start [] {})) c ∧
        c.control = .action action ∧
        c.state.scope.depth = session.engine.options.maxIncludeDepth) ∧
      (session.render template [] {} fun _ _ => false).1.1
        = .error ⟨.undefinedVariable "missing", some ⟨none, 1, 1, 0⟩⟩ := by
  intro source action template session
  refine ⟨?_, ⟨_, .head rfl (.head rfl .refl), rfl, rfl⟩, rfl⟩
  cbv

end Render

end Stencil
