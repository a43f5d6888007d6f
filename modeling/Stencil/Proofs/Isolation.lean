import Stencil.Proofs.Evaluation
import Stencil.Proofs.Machine
import Stencil.Proofs.Transparency

/-!
# Isolated inclusions

A template that is included isolated sees what it is passed and nothing else of the scope it is
included from, and so does all that it includes itself. Two states that differ in their scopes alone
end such an inclusion alike.
-/
namespace Stencil

def State.withScope (s : State) (scope : Scope) : State := { s with scope }

/-- Two states that may differ in their scopes and in how names came to stand for templates. -/
structure State.Alike (engine : Engine) (s t : State) : Prop where
  cycles : t.cycles = s.cycles
  sink : t.sink = s.sink
  captures : t.captures = s.captures
  checks : t.checks = s.checks
  served : t.cache.served engine = s.cache.served engine

theorem State.Alike.eq_with {engine : Engine} {s t : State} (h : Alike engine s t) :
    t = (s.withScope t.scope).withMemory (t.cache, t.reads) := by
  obtain ⟨scope, cycles, cache, reads, sink, captures, checks⟩ := t
  obtain ⟨rfl, rfl, rfl, rfl, -⟩ := h
  rfl

/-- Two scopes of one depth in which the expressions of an inclusion have the same values. -/
structure Scope.AgreesOn (engine : Engine) (template : Expr)
    (subject : Option (Expr × Option String)) (bindings : List (String × Expr))
    (s other : Scope) : Prop where
  depth : other.depth = s.depth
  template : template.eval (engine.environment other) = template.eval (engine.environment s)
  subject : ∀ e given?, subject = some (e, given?) →
    e.eval (engine.environment other) = e.eval (engine.environment s)
  bindings : ∀ key e, (key, e) ∈ bindings →
    e.eval (engine.environment other) = e.eval (engine.environment s)

theorem Expr.evalNamed_congr {a b : Environment} {named : List (String × Expr)}
    (h : ∀ key e, (key, e) ∈ named → e.eval a = e.eval b) (done : Bindings) :
    Expr.evalNamed a done named = Expr.evalNamed b done named := by
  induction named generalizing done with
  | nil => rfl
  | cons entry named ih =>
    obtain ⟨key, e⟩ := entry
    have he : e.eval a = e.eval b := h key e List.mem_cons_self
    have hrest : ∀ key e, (key, e) ∈ named → e.eval a = e.eval b := fun key e hmem =>
      h key e (List.mem_cons_of_mem _ hmem)
    simp only [Expr.evalNamed, he]
    cases e.eval b with
    | error fault => rfl
    | ok v => exact ih hrest (Table.insert key v done)

theorem Tags.inclusion_ends (isolated : Bool) (filters : Filters) (tag : TagSource) :
    Ends (fun action => ∃ template subject bindings,
        action = .include isolated template subject bindings)
      (fun _ => True) (inclusion isolated filters tag) := by
  simp only [inclusion]
  split
  · trivial
  · have hall : Ends (fun _ => True) (fun _ => True)
        (tag.compileStatement filters .include) := by
      cases tag.compileStatement filters .include <;> trivial
    refine .bind hall fun statement _ => ?_
    cases statement with
    | «include» template subject bindings => exact ⟨template, subject, bindings, rfl⟩
    | expression | assignment | loop | cycle | when => trivial

namespace Render

variable {engine : Engine} {α β : Type} {other : Scope} {s : State}

/-- The step does in another scope what it does in this one, and leaves that scope alone. -/
def SameIn (other : Scope) (s : State) (x : Render α) : Prop :=
  x (s.withScope other) = ((x s).1, (x s).2.withScope other)

namespace SameIn

theorem seq {x : Render α} {f : α → Render β} (hx : SameIn other s x)
    (hscope : Leaves State.scope x) (hf : ∀ a t, t.scope = s.scope → SameIn other t (f a)) :
    SameIn other s (x >>= f) := by
  have hs := hscope s
  simp only [SameIn] at hx ⊢
  rcases hr : x s with ⟨e | a, t⟩
  · rw [hr] at hx
    rw [bind_of_error hr, bind_of_error hx]
  · rw [hr] at hx hs
    rw [bind_of_ok hr, bind_of_ok hx]
    exact hf a t hs

theorem eval {e : Expr}
    (h : e.eval (engine.environment other) = e.eval (engine.environment s.scope)) :
    SameIn other s (eval engine e) := Prod.ext h rfl

theorem params {name : String} {subject : Option (Expr × Option String)}
    {bindings : List (String × Expr)}
    (hs : ∀ e given?, subject = some (e, given?) →
      e.eval (engine.environment other) = e.eval (engine.environment s.scope))
    (hb : ∀ key e, (key, e) ∈ bindings →
      e.eval (engine.environment other) = e.eval (engine.environment s.scope)) :
    SameIn other s (params engine name subject bindings) := by
  have hnamed (start : Bindings) (t : State) (ht : t.scope = s.scope) : SameIn other t fun s =>
      (Expr.evalNamed (engine.environment s.scope) start bindings, s) := by
    refine Prod.ext ?_ rfl
    have hsame := Expr.evalNamed_congr hb start
    rw [← ht] at hsame
    exact hsame
  cases subject with
  | none => exact hnamed [] s rfl
  | some subject =>
    obtain ⟨e, given?⟩ := subject
    refine seq (eval (hs e given? rfl)) (fun _ => rfl) fun v t ht => ?_
    exact seq (x := pure _) rfl (fun _ => rfl) fun start u hu => hnamed start u (hu.trans ht)

/-- The scope of an isolated template has nothing of the scope around it but the depth. -/
theorem inChild {ps : Bindings} {x : Render α} (h : other.depth = s.scope.depth) :
    SameIn other s (inChild ps true x) := by
  have hchild : other.child ps true = s.scope.child ps true := by simp [Scope.child, h]
  simp only [SameIn, Render.inChild, State.withScope, hchild]
  rfl

theorem inclusion (includer : Includer) {template : Expr}
    {subject : Option (Expr × Option String)} {bindings : List (String × Expr)}
    (h : s.scope.AgreesOn engine template subject bindings other) :
    SameIn other s (inclusion engine includer true template subject bindings) := by
  refine seq (eval h.template) (fun _ => rfl) fun v t ht => ?_
  cases includer with
  | none => rfl
  | some run =>
    refine seq (x := load engine v.display) rfl (fun _ => rfl) fun included u hu => ?_
    rw [← hu.trans ht] at h
    refine seq (params h.subject h.bindings) (params_leaves _ _ _ _ _) fun ps w hw => ?_
    -- all that came before is the tag's own; from here on both run in the same child scope
    have hdepth : other.depth = w.scope.depth := by rw [h.depth, hw]
    have hback : Leaves State.scope (Render.inChild ps true (run included.nodes)) := fun _ => rfl
    exact seq (seq (inChild hdepth) hback fun _ _ _ => rfl)
      (.seq hback fun _ => .ret _ _) fun _ _ _ => rfl

theorem locatedAt (l : Location) {x : Render α} (h : SameIn other s x) :
    SameIn other s (locatedAt l x) := by
  simp only [SameIn] at h
  simp only [SameIn, Render.locatedAt, h]
  rfl

end SameIn

/-- An isolated inclusion shows nothing of the scope around it. -/
theorem inclusion_isolated {setting : Setting} {s t : State} (halike : s.Alike setting.engine t)
    {template : Expr} {subject : Option (Expr × Option String)} {bindings : List (String × Expr)}
    (hagrees : s.scope.AgreesOn setting.engine template subject bindings t.scope)
    (isBlock : Bool) (name : String) (l : Location) :
    let node : Node := .tag isBlock name l (.include true template subject bindings)
    (run setting [node] t).1 = (run setting [node] s).1 ∧
      (run setting [node] s).2.Alike setting.engine (run setting [node] t).2 := by
  intro node
  have hroom (room : Nat) : SameIn t.scope s (runWithin setting room [node]) := by
    have hcheck : Leaves State.scope (check setting.interrupt) := fun _ => rfl
    have hleaves : Leaves State.scope (runNode setting (Machine.includerAt setting room) node) :=
      fun u => inclusion_leaves_scope _ _ true template subject bindings u
    rw [Machine.runWithin_eq]
    refine .seq (x := check setting.interrupt) rfl hcheck fun _ u hu => ?_
    rw [← hu] at hagrees
    have hinclusion := SameIn.inclusion (Machine.includerAt setting room) hagrees
    refine .seq (hinclusion.locatedAt l) hleaves fun signal v _ => ?_
    cases signal with
    | normal | leave | next => rfl
  have hscope : SameIn t.scope s (run setting [node]) := by
    have hdepth : t.scope.depth = s.scope.depth := hagrees.depth
    simp only [SameIn, run, State.withScope, hdepth]
    exact hroom _
  have hserved : t.cache.served setting.engine = (s.withScope t.scope).cache.served setting.engine :=
    halike.served
  -- the other scope is in place; what is left is that other things are loaded
  obtain ⟨n, hn, hsame⟩ := Transparent.run setting.engine setting.interrupt [node]
    (s.withScope t.scope) (t.cache, t.reads) hserved
  rw [← halike.eq_with] at hsame
  simp only [SameIn] at hscope
  rw [hscope] at hn hsame
  rw [hsame]
  exact ⟨rfl, rfl, rfl, rfl, rfl, hn⟩

/-- What a `render` tag stands for shows nothing of the scope around it: where its own expressions
have the same values and the depths are equal, two states that differ in their scopes come to the
same result, output and counters. -/
theorem run_isolated (setting : Setting) {filters : Filters} {tag : TagSource} {action : Action}
    (hrender : Tags.render filters tag = .ok action) :
    ∃ template subject bindings, action = .include true template subject bindings ∧
      ∀ s t : State, s.Alike setting.engine t →
        s.scope.AgreesOn setting.engine template subject bindings t.scope →
        ∀ isBlock name l,
          let node : Node := .tag isBlock name l action
          (run setting [node] t).1 = (run setting [node] s).1 ∧
            (run setting [node] s).2.Alike setting.engine (run setting [node] t).2 := by
  have hends := Tags.inclusion_ends true filters tag
  rw [← Tags.render, hrender] at hends
  obtain ⟨template, subject, bindings, rfl⟩ := hends
  exact ⟨template, subject, bindings, rfl, fun s t halike hagrees isBlock name l =>
    inclusion_isolated halike hagrees isBlock name l⟩

/-- A template that is rendered with a parameter shows the parameter, and not the variable of that
name, which is another one in each state. -/
theorem run_isolated_param :
    let engine : Engine := {
      grammar := Grammar.addStandardTags {}
      store := .memory [("a", "\x7b\x7bx\x7d\x7d\x7b\x7by\x7d\x7d".toUTF8)] }
    let setting : Setting := { engine }
    let tag : TagSource := ⟨"render", " 'a', x: z ", 9, ⟨none, 1, 1, 0⟩, ⟨"", none⟩, .direct 0⟩
    let action : Action := .include true (.literal (.str "a")) none [("x", .variable "z")]
    let node : Node := .tag false "render" ⟨none, 1, 1, 0⟩ action
    let s : State := { scope := .ofBindings [("x", .int 1), ("z", .int 5)] }
    let t : State := { scope := .ofBindings [("x", .int 2), ("y", .int 3), ("z", .int 5)] }
    Tags.render [] tag = .ok action ∧
      (run setting [node] s).2.sink.held = "5".toUTF8 ∧
      (run setting [node] t).1 = (run setting [node] s).1 ∧
      (run setting [node] s).2.Alike engine (run setting [node] t).2 := by
  intro engine setting tag action node s t
  have hrender : Tags.render [] tag = .ok action := by cbv
  have hheld : (run setting [node] s).2.sink.held = "5".toUTF8 := by cbv
  obtain ⟨template, subject, bindings, haction, h⟩ := run_isolated setting hrender
  obtain ⟨-, rfl, rfl, rfl⟩ := Action.include.inj haction
  have halike : s.Alike setting.engine t := ⟨rfl, rfl, rfl, rfl, rfl⟩
  have hagrees : s.scope.AgreesOn setting.engine (.literal (.str "a")) none [("x", .variable "z")]
      t.scope := by
    refine ⟨rfl, rfl, fun _ _ h => ?_, fun key e h => ?_⟩
    · cases h
    · obtain ⟨rfl, rfl⟩ : key = "x" ∧ e = .variable "z" := by simpa using h
      rfl
  exact ⟨hrender, hheld, h s t halike hagrees false "render" ⟨none, 1, 1, 0⟩⟩

end Render

end Stencil
