import Stencil.Proofs.Compilation
import Stencil.Proofs.Sessions
import Stencil.Proofs.Truncation

/-!
# Options that cut renders

Strict variables and the limit on inclusions can only end a render earlier. Evaluation under strict
variables goes as it does without them until a variable is undefined, and a render as it does under
a higher limit until the limit is reached.
-/
namespace Stencil

namespace Options

/-- The options under which undefined variables are nil and inclusions may be `depth` deep. -/
def relaxed (depth : Nat) (o : Options) : Options :=
  { o with strictVariables := false, maxIncludeDepth := depth }

end Options

namespace Engine

def relaxed (depth : Nat) (engine : Engine) : Engine :=
  { engine with options := engine.options.relaxed depth }

end Engine

namespace Session

def relaxed (depth : Nat) (s : Session) : Session := { s with engine := s.engine.relaxed depth }

end Session

/-- Whether an error of this cause may be absent under other options. -/
def Cause.dependsOnOptions : Cause → Bool
  | .undefinedVariable _ => true
  | .recursiveInclude .. => true
  | _ => false

/-- The first computation ends as the second one does, or where a variable is undefined. -/
def Relaxes {α : Type} (x y : Except Error α) : Prop :=
  x = y ∨ ∃ name, x = .error ⟨.undefinedVariable name, none⟩

namespace Relaxes

variable {α β : Type}

theorem refl (x : Except Error α) : Relaxes x x := .inl rfl

theorem bind {x y : Except Error α} {f g : α → Except Error β} (h : Relaxes x y)
    (hf : ∀ a, Relaxes (f a) (g a)) : Relaxes (x >>= f) (y >>= g) := by
  rcases h with rfl | ⟨name, rfl⟩
  · cases x with
    | error e => exact .refl _
    | ok a => exact hf a
  · exact .inr ⟨name, rfl⟩

end Relaxes

/-- What is looked at where undefined variables are nil. -/
def Environment.relaxed (env : Environment) : Environment := { env with strict := false }

namespace Expr

variable (env : Environment)

theorem eval_binary_relaxes (op : Operator) {left right : Expr}
    (hl : Relaxes (eval env left) (eval env.relaxed left))
    (hr : Relaxes (eval env right) (eval env.relaxed right)) :
    Relaxes (eval env (.binary op left right)) (eval env.relaxed (.binary op left right)) := by
  cases op with
  | and =>
    simp only [eval]
    refine .bind hl fun v => ?_
    split
    · exact .bind hr fun _ => .refl _
    · exact .refl _
  | or =>
    simp only [eval]
    refine .bind hl fun v => ?_
    split
    · exact .refl _
    · exact .bind hr fun _ => .refl _
  | eq | ne | lt | le | gt | ge | contains | add | sub | mul | div | mod =>
    simp only [eval]
    split
    · exact .bind hr fun _ => .refl _
    · split
      · exact .bind hl fun _ => .refl _
      · exact .bind hl fun _ => .bind hr fun _ => .refl _

mutual

theorem eval_relaxes : ∀ e : Expr, Relaxes (eval env e) (eval env.relaxed e)
  | .literal v => .refl _
  | .empty => .refl _
  | .variable name => by
    simp only [eval, Environment.relaxed]
    cases env.lookup name with
    | some v => exact .refl _
    | none =>
      cases env.strict with
      | false => exact .refl _
      | true => exact .inr ⟨name, rfl⟩
  | .property base key => by
    simp only [eval]
    exact .bind (eval_relaxes base) fun _ => .refl _
  | .index base key => by
    simp only [eval]
    exact .bind (eval_relaxes key) fun _ => .bind (eval_relaxes base) fun _ => .refl _
  | .range first last => by
    simp only [eval]
    refine .bind (eval_relaxes first) fun _ => .bind (.refl _) fun _ => ?_
    exact .bind (eval_relaxes last) fun _ => .refl _
  | .not e => by
    simp only [eval]
    exact .bind (eval_relaxes e) fun _ => .refl _
  | .binary op left right => eval_binary_relaxes env op (eval_relaxes left) (eval_relaxes right)
  | .filtered base calls => by
    simp only [eval]
    exact .bind (eval_relaxes base) fun v => applyCalls_relaxes calls v

theorem applyCalls_relaxes : ∀ (calls : List FilterCall) (v : Value),
    Relaxes (applyCalls env calls v) (applyCalls env.relaxed calls v)
  | [], _ => .refl _
  | .mk name args named _ :: calls, v => by
    simp only [applyCalls, show env.relaxed.filters = env.filters from rfl]
    cases Table.find? name env.filters with
    | none => exact .refl _
    | some f =>
      refine .bind (evalArgs_relaxes args) fun values => ?_
      refine .bind (evalNamed_relaxes [] named) fun done => ?_
      exact .bind (.refl _) fun w => applyCalls_relaxes calls w

theorem evalArgs_relaxes : ∀ args : List Expr,
    Relaxes (evalArgs env args) (evalArgs env.relaxed args)
  | [] => .refl _
  | e :: args => by
    simp only [evalArgs]
    exact .bind (eval_relaxes e) fun _ => .bind (evalArgs_relaxes args) fun _ => .refl _

theorem evalNamed_relaxes : ∀ (done : Bindings) (named : List (String × Expr)),
    Relaxes (evalNamed env done named) (evalNamed env.relaxed done named)
  | _, [] => .refl _
  | done, (key, e) :: named => by
    simp only [evalNamed]
    exact .bind (eval_relaxes e) fun v => evalNamed_relaxes (Table.insert key v done) named

end

end Expr

namespace Render

/-- A render that options may end beside one under other options. -/
def Cut.byOptions : Cut where
  along := Eq
  past := Sink.Begins
  error e := e.cause.dependsOnOptions = true
  located e l h := by
    rw [Error.cause_locatedAt]
    exact h

namespace Cut.byOptions

variable {α : Type} {engine : Engine} {depth : Nat} {interrupt : Interrupt}

/-- Two computations on the scope that agree unless the first one meets an undefined variable. -/
theorem of_relaxes {f g : Scope → Except Error α} (h : ∀ scope, Relaxes (f scope) (g scope)) :
    Cut.byOptions.Relates (fun s => (f s.scope, s)) fun s => (g s.scope, s) where
  along s k hk := by
    obtain rfl : s.sink = k := hk
    rcases h s.scope with heq | ⟨name, herror⟩
    · exact .inl ⟨s.sink, rfl, Prod.ext heq.symm rfl⟩
    · exact .inr ⟨_, herror, rfl, .refl s.sink⟩
  past _ _ hj := hj

/-- A render that fails at once where the limit is reached. -/
theorem of_limit {x y : Render α} {name : String} {limit : Nat}
    (hx : ∀ s, x s = (.error ⟨.recursiveInclude name limit, none⟩, s))
    (hy : Cut.byOptions.Relates y y) : Cut.byOptions.Relates x y where
  along s k hk := by
    obtain rfl : s.sink = k := hk
    rw [hx]
    exact .inr ⟨_, rfl, rfl, hy.past s s.sink (.refl s.sink)⟩
  past := hy.past

theorem eval (e : Expr) :
    Cut.byOptions.Relates (eval engine e) (Render.eval (engine.relaxed depth) e) :=
  of_relaxes fun scope => e.eval_relaxes (engine.environment scope)

theorem params (name : String) (subject : Option (Expr × Option String))
    (bindings : List (String × Expr)) : Cut.byOptions.Relates
      (params engine name subject bindings)
      (Render.params (engine.relaxed depth) name subject bindings) := by
  have hnamed (start : Bindings) : Cut.byOptions.Relates
      (fun s => (Expr.evalNamed (engine.environment s.scope) start bindings, s))
      fun s => (Expr.evalNamed ((engine.relaxed depth).environment s.scope) start bindings, s) :=
    of_relaxes fun scope => Expr.evalNamed_relaxes (engine.environment scope) start bindings
  cases subject with
  | none => exact .seq (.of_blind fun _ _ => rfl) hnamed
  | some subject =>
    obtain ⟨e, given?⟩ := subject
    exact .seq (eval e) fun _ => .seq (.of_blind fun _ _ => rfl) hnamed

theorem check : Cut.byOptions.Relates (check interrupt) (Render.check interrupt) where
  along s k hk := by
    obtain rfl : s.sink = k := hk
    exact .inl ⟨s.sink, rfl, rfl⟩
  past _ _ hj := hj

theorem write (text : String) : Cut.byOptions.Relates (write text) (Render.write text) where
  along s k hk := by
    obtain rfl : s.sink = k := hk
    exact .inl ⟨(Render.write text s).2.sink, rfl, rfl⟩
  past s j hj := Sink.Begins.trans hj (begins_of_write text s)

/-- Where the limit is reached, the included template may still run under a higher one. -/
theorem inclusion {f g : Includer}
    (hf : ∀ run ∈ f, ∃ more ∈ g, ∀ nodes, Cut.byOptions.Relates (run nodes) (more nodes))
    (hg : ∀ run ∈ g, ∀ nodes, Cut.byOptions.Relates (run nodes) (run nodes))
    (isolated : Bool) (template : Expr) (subject : Option (Expr × Option String))
    (bindings : List (String × Expr)) : Cut.byOptions.Relates
      (inclusion engine f isolated template subject bindings)
      (Render.inclusion (engine.relaxed depth) g isolated template subject bindings) := by
  have hload (name : String) : Cut.byOptions.Relates (load engine name)
      (load (engine.relaxed depth) name) := .of_blind (load_blind engine name)
  refine .seq (eval template) fun v => ?_
  cases f with
  | some run =>
    obtain ⟨more, rfl, hrun⟩ := hf run rfl
    exact .included (hload v.display) (params v.display subject bindings) hrun isolated
  | none =>
    refine of_limit (fun _ => rfl) ?_
    cases g with
    | none => exact .of_blind fun _ _ => rfl
    | some run =>
      exact .included (.of_blind (load_blind _ _)) (.of_blind (params_blind _ _ _ _)) (hg run rfl)
        isolated

theorem congruence {f g : Includer}
    (hf : ∀ run ∈ f, ∃ more ∈ g, ∀ nodes, Cut.byOptions.Relates (run nodes) (more nodes))
    (hg : ∀ run ∈ g, ∀ nodes, Cut.byOptions.Relates (run nodes) (run nodes)) :
    Congruence ⟨engine, interrupt⟩ ⟨engine.relaxed depth, interrupt⟩ f g (fun _ => True)
      Cut.byOptions.Relates :=
  Relates.congruence eval check write (inclusion hf hg)

/-- With more room for inclusions, a run is cut at most later. -/
theorem runWithin {room more : Nat} (h : room ≤ more) (nodes : List Node) :
    Cut.byOptions.Relates (runWithin ⟨engine, interrupt⟩ room nodes)
      (Render.runWithin ⟨engine.relaxed depth, interrupt⟩ more nodes) := by
  have hself (n : Nat) (nodes : List Node) : Cut.byOptions.Relates
      (Render.runWithin ⟨engine.relaxed depth, interrupt⟩ n nodes)
      (Render.runWithin ⟨engine.relaxed depth, interrupt⟩ n nodes) :=
    runWithin_relates (engine.relaxed depth) check write n nodes
  induction room generalizing more nodes with
  | zero =>
    cases more with
    | zero =>
      refine (congruence ?_ ?_).ofNodes nodes fun _ _ => trivial
      · rintro run ⟨⟩
      · rintro run ⟨⟩
    | succ more =>
      refine (congruence ?_ ?_).ofNodes nodes fun _ _ => trivial
      · rintro run ⟨⟩
      · rintro run ⟨⟩
        exact hself more
  | succ room ih =>
    obtain ⟨more, rfl⟩ : ∃ n, more = n + 1 := ⟨more - 1, by omega⟩
    refine (congruence ?_ ?_).ofNodes nodes fun _ _ => trivial
    · rintro run ⟨⟩
      exact ⟨_, rfl, ih (by omega)⟩
    · rintro run ⟨⟩
      exact hself more

theorem run (h : engine.options.maxIncludeDepth ≤ depth) (nodes : List Node) :
    Cut.byOptions.Relates (run ⟨engine, interrupt⟩ nodes)
      (Render.run ⟨engine.relaxed depth, interrupt⟩ nodes) where
  along s k hk := (runWithin (Nat.sub_le_sub_right h s.scope.depth) nodes).along s k hk
  past s j hj := (runWithin (Nat.sub_le_sub_right h s.scope.depth) nodes).past s j hj

end Cut.byOptions

/-- Strict variables and a limit on inclusions only cut a render short. -/
theorem render_relaxed (session : Session) {depth : Nat}
    (h : session.engine.options.maxIncludeDepth ≤ depth) (template : Template)
    (bindings : Bindings) (sink : Sink) (interrupt : Interrupt) :
    let cut := (session.render template bindings sink interrupt).1
    let full := ((session.relaxed depth).render template bindings sink interrupt).1
    ((∀ e, cut.1 = .error e → e.cause.dependsOnOptions = false) → full = cut) ∧
      ∀ e, cut.1 = .error e → e.cause.dependsOnOptions = true → cut.2.Begins full.2 := by
  let s := session.start bindings sink
  let r := run ⟨session.engine, interrupt⟩ template.nodes s
  let r' := run ⟨session.engine.relaxed depth, interrupt⟩ template.nodes s
  have hcut : (session.render template bindings sink interrupt).1 = outcome r.1 r.2.sink :=
    render_of_run (Prod.eta r).symm
  have hfull : ((session.relaxed depth).render template bindings sink interrupt).1 =
      outcome r'.1 r'.2.sink := render_of_run (Prod.eta r').symm
  have hrelated : Cut.byOptions.Relates (run ⟨session.engine, interrupt⟩ template.nodes)
      (run ⟨session.engine.relaxed depth, interrupt⟩ template.nodes) :=
    Cut.byOptions.run h template.nodes
  dsimp only
  rw [hcut, hfull]
  rcases hrelated.along s sink rfl with ⟨k, rfl, hy⟩ | ⟨e, he, herror, hpast⟩
  · have hsame : r' = r := hy
    rw [hsame]
    exact ⟨fun _ => rfl, fun _ _ _ => .refl _⟩
  · have hr : r.1 = .error e := he
    rw [hr]
    refine ⟨fun hother => ?_, fun _ _ _ => hpast⟩
    have hcause : e.cause.dependsOnOptions = true := herror
    rw [hother e rfl] at hcause
    cases hcause

/-- Without `x`, a strict render stops before the text after it. With `x`, strictness changes
nothing. -/
theorem render_relaxed_output :
    let session : Session := { engine := { options := { strictVariables := true } } }
    let nodes := [.text "a", .output (.variable "x") ⟨none, 1, 2, 1⟩, .text "b"]
    let template : Template := ⟨nodes, ⟨"a\x7b\x7b x \x7d\x7db", none⟩⟩
    let render (s : Session) (bindings : Bindings) :=
      (s.render template bindings {} fun _ _ => false).1
    (render session []).1 = .error ⟨.undefinedVariable "x", some ⟨none, 1, 2, 1⟩⟩ ∧
      (render session []).2.Begins (render (session.relaxed 60) []).2 ∧
      render (session.relaxed 60) [("x", .str "c")] = render session [("x", .str "c")] := by
  intro session nodes template render
  have hlimit : session.engine.options.maxIncludeDepth ≤ 60 := by decide
  refine ⟨rfl, (render_relaxed session hlimit template [] {} _).2 _ rfl rfl, ?_⟩
  refine (render_relaxed session hlimit template [("x", .str "c")] {} _).1 fun e he => ?_
  cases he

end Render

end Stencil
