import Stencil.Proofs.Isolation

/-!
# Mentioned variables

An expression has the same value wherever its variables have the same values. So a template that
includes others only in isolation shows nothing of the bindings that it is rendered with, but for
those of the variables it mentions.
-/
namespace Stencil

namespace Expr

mutual

/-- The names of the variables in an expression. -/
def mentioned : Expr → List String
  | .literal _ => []
  | .empty => []
  | .variable name => [name]
  | .property base _ => mentioned base
  | .index base key => mentioned base ++ mentioned key
  | .range first last => mentioned first ++ mentioned last
  | .not operand => mentioned operand
  | .binary _ left right => mentioned left ++ mentioned right
  | .filtered base calls => mentioned base ++ mentionedByCalls calls

def mentionedByCalls : List FilterCall → List String
  | [] => []
  | .mk _ args named _ :: calls =>
    mentionedByArgs args ++ (mentionedByNamed named ++ mentionedByCalls calls)

def mentionedByArgs : List Expr → List String
  | [] => []
  | e :: args => mentioned e ++ mentionedByArgs args

def mentionedByNamed : List (String × Expr) → List String
  | [] => []
  | (_, e) :: named => mentioned e ++ mentionedByNamed named

end

end Expr

/-- Two environments that differ at most in the variables whose names are not among these. -/
structure Environment.AgreeOn (names : List String) (a b : Environment) : Prop where
  lookup : ∀ name ∈ names, a.lookup name = b.lookup name
  filters : a.filters = b.filters
  strict : a.strict = b.strict

namespace Environment.AgreeOn

variable {names more : List String} {a b : Environment}

theorem left (h : AgreeOn (names ++ more) a b) : AgreeOn names a b :=
  ⟨fun name hname => h.lookup name (List.mem_append_left more hname), h.filters, h.strict⟩

theorem right (h : AgreeOn (names ++ more) a b) : AgreeOn more a b :=
  ⟨fun name hname => h.lookup name (List.mem_append_right names hname), h.filters, h.strict⟩

end Environment.AgreeOn

namespace Expr

variable {a b : Environment}

theorem eval_binary_congr (op : Operator) {left right : Expr} (hl : eval a left = eval b left)
    (hr : eval a right = eval b right) :
    eval a (.binary op left right) = eval b (.binary op left right) := by
  cases op with
  | or | and | eq | ne | lt | le | gt | ge | contains | add | sub | mul | div | mod =>
    simp only [eval, hl, hr]

-- The recursion is on the expression, as that of the evaluation is.
mutual

/-- Where its variables have the same values, an expression has the same value. -/
theorem eval_agree : ∀ e : Expr, Environment.AgreeOn e.mentioned a b → eval a e = eval b e
  | .literal _, _ => rfl
  | .empty, _ => rfl
  | .variable name, h => by
    simp only [eval, h.lookup name List.mem_cons_self, h.strict]
  | .property base key, h => by
    simp only [eval, eval_agree base h]
  | .index base key, h => by
    simp only [eval, eval_agree base h.left, eval_agree key h.right]
  | .range first last, h => by
    simp only [eval, eval_agree first h.left, eval_agree last h.right]
  | .not operand, h => by
    simp only [eval, eval_agree operand h]
  | .binary op left right, h =>
    eval_binary_congr op (eval_agree left h.left) (eval_agree right h.right)
  | .filtered base calls, h => by
    simp only [eval, eval_agree base h.left]
    exact bind_congr fun v => applyCalls_agree calls h.right v

theorem applyCalls_agree : ∀ calls : List FilterCall,
    Environment.AgreeOn (mentionedByCalls calls) a b →
      ∀ v, applyCalls a calls v = applyCalls b calls v
  | [], _, _ => rfl
  | .mk name args named _ :: calls, h, v => by
    simp only [applyCalls, h.filters, evalArgs_agree args h.left,
      evalNamed_agree named h.right.left []]
    cases Table.find? name b.filters with
    | none => rfl
    | some f =>
      exact bind_congr fun _ => bind_congr fun _ => bind_congr fun w =>
        applyCalls_agree calls h.right.right w

theorem evalArgs_agree : ∀ args : List Expr,
    Environment.AgreeOn (mentionedByArgs args) a b → evalArgs a args = evalArgs b args
  | [], _ => rfl
  | e :: args, h => by
    simp only [evalArgs, eval_agree e h.left, evalArgs_agree args h.right]

theorem evalNamed_agree : ∀ named : List (String × Expr),
    Environment.AgreeOn (mentionedByNamed named) a b →
      ∀ done, evalNamed a done named = evalNamed b done named
  | [], _, _ => rfl
  | (key, e) :: named, h, done => by
    simp only [evalNamed, eval_agree e h.left]
    exact bind_congr fun v => evalNamed_agree named h.right (Table.insert key v done)

end

end Expr

/-- The names of the variables in the expressions of nodes. -/
def mentionedIn (nodes : List Node) : List String := (expressionsOf nodes).flatMap Expr.mentioned

theorem mentioned_subset_mentionedIn {nodes : List Node} {e : Expr}
    (h : .expr e ∈ partsOf nodes) : e.mentioned ⊆ mentionedIn nodes := fun _ hname =>
  List.mem_flatMap.mpr ⟨e, mem_expressionsOf.mpr h, hname⟩

/-- A part that mentions no other variables, and shows none of them to a template it includes. -/
def Part.MentionsOnly (names : List String) : Part → Prop
  | .expr e => e.mentioned ⊆ names
  | .target _ => True
  | .place _ => True
  | .inclusion isolated => isolated = true

/-- The variable of a name in bindings, the first ones first. -/
def Scope.lookupIn (bindings : List Bindings) (name : String) : Option Value :=
  bindings.findSome? (Table.find? name)

/-- The scope with other bindings around the template. -/
def Scope.withOuter (outer : List Bindings) (s : Scope) : Scope := { s with outer }

namespace Scope

variable {outer : List Bindings} {s : Scope}

theorem lookup_withOuter {name : String} (h : lookupIn s.outer name = lookupIn outer name) :
    (s.withOuter outer).lookup name = s.lookup name := by
  simp only [lookupIn] at h
  simp only [lookup, bindings, withOuter, List.findSome?_append, h]

theorem withOuter_setLocal (name : String) (v : Value) :
    (s.withOuter outer).setLocal name v = (s.setLocal name v).withOuter outer := by
  obtain ⟨layers, around, depth⟩ := s
  cases layers <;> rfl

@[simp] theorem outer_setLocal (name : String) (v : Value) :
    (s.setLocal name v).outer = s.outer := by
  obtain ⟨layers, around, depth⟩ := s
  cases layers <;> rfl

end Scope

namespace Render

variable {α β : Type} {names : List String} {around other : List Bindings} {engine : Engine}

/-- A step that does within other bindings what it does within these, and leaves them alone. -/
def Overlooks (around other : List Bindings) (x : Render α) : Prop :=
  ∀ s, s.scope.outer = around → (x s).2.scope.outer = around ∧
    x (s.withScope (s.scope.withOuter other)) =
      ((x s).1, (x s).2.withScope ((x s).2.scope.withOuter other))

namespace Overlooks

theorem of_sameIn {x : Render α} (hscope : Leaves State.scope x)
    (h : ∀ s, s.scope.outer = around → SameIn (s.scope.withOuter other) s x) :
    Overlooks around other x := by
  intro s hs
  rw [hscope s]
  exact ⟨hs, h s hs⟩

theorem ret (a : α) : Overlooks around other (pure a : Render α) :=
  of_sameIn (.ret _ a) fun _ _ => rfl

theorem modifyScope {f : Scope → Scope} (hkeeps : ∀ s, (f s).outer = s.outer)
    (hf : ∀ s, f (s.withOuter other) = (f s).withOuter other) :
    Overlooks around other (modifyScope f) := by
  intro s hs
  refine ⟨(hkeeps s.scope).trans hs, ?_⟩
  simp only [modifyScope_apply, State.withScope, hf]

theorem seq {x : Render α} {f : α → Render β} (hx : Overlooks around other x)
    (hf : ∀ a, Overlooks around other (f a)) : Overlooks around other (x >>= f) := by
  intro s hs
  obtain ⟨hkeeps, hsame⟩ := hx s hs
  rcases hr : x s with ⟨e | a, t⟩
  · rw [hr] at hkeeps hsame
    rw [bind_of_error hr, bind_of_error hsame]
    exact ⟨hkeeps, rfl⟩
  · rw [hr] at hkeeps hsame
    rw [bind_of_ok hr, bind_of_ok hsame]
    exact hf a t hkeeps

theorem inLoop {x : Render α} (hx : Overlooks around other x) :
    Overlooks around other (inLoop x) := by
  intro s hs
  obtain ⟨hkeeps, hsame⟩ := hx { s with scope := s.scope.enterLoop } hs
  refine ⟨hkeeps, ?_⟩
  have hentered : ({ s with scope := (s.scope.withOuter other).enterLoop } : State) =
      { s with scope := s.scope.enterLoop.withOuter other } := rfl
  simp only [State.withScope] at hsame
  simp only [Render.inLoop, State.withScope, hentered, hsame]
  rfl

theorem captured {x : Render α} (hx : Overlooks around other x) :
    Overlooks around other (captured x) := by
  intro s hs
  obtain ⟨hkeeps, hsame⟩ := hx { s with captures := "" :: s.captures } hs
  refine ⟨hkeeps, ?_⟩
  simp only [State.withScope] at hsame
  simp only [Render.captured, State.withScope, hsame]
  rfl

theorem locatedAt (l : Location) {x : Render α} (hx : Overlooks around other x) :
    Overlooks around other (locatedAt l x) := by
  intro s hs
  obtain ⟨hkeeps, hsame⟩ := hx s hs
  refine ⟨hkeeps, ?_⟩
  simp only [Render.locatedAt, hsame]
  rfl

theorem write (text : String) : Overlooks around other (write text) := by
  refine of_sameIn (write_leaves_scope text) fun s _ => ?_
  rcases hc : s.captures with _ | ⟨buffer, captures⟩
  · simp only [SameIn, Render.write, State.withScope, hc]
  · simp only [SameIn, Render.write, State.withScope, hc]

section

variable (h : ∀ name ∈ names, Scope.lookupIn around name = Scope.lookupIn other name)
include h

theorem eval_eq {e : Expr} (he : e.mentioned ⊆ names) {s : Scope} (hs : s.outer = around) :
    e.eval (engine.environment (s.withOuter other)) = e.eval (engine.environment s) := by
  refine Expr.eval_agree e ⟨fun name hname => ?_, rfl, rfl⟩
  exact Scope.lookup_withOuter (hs ▸ h name (he hname))

theorem eval {e : Expr} (he : e.mentioned ⊆ names) : Overlooks around other (eval engine e) :=
  of_sameIn (fun _ => rfl) fun _ hs => .eval (eval_eq h he hs)

theorem evaluation : EvalCongruence engine engine (Part.MentionsOnly names)
    fun x _ => Overlooks around other x where
  ret := ret
  seq := seq
  toInt _ := of_sameIn (fun _ => rfl) fun _ _ => rfl
  eval := eval h
  bounds hp := List.append_subset.mp hp

theorem inclusion (includer : Includer) {template : Expr}
    {subject : Option (Expr × Option String)} {bindings : List (String × Expr)}
    (hexprs : ∀ e ∈ (Statement.include template subject bindings).expressions,
      e.mentioned ⊆ names) :
    Overlooks around other (inclusion engine includer true template subject bindings) := by
  refine of_sameIn (inclusion_leaves_scope _ _ _ _ _ _) fun s hs => .inclusion includer ?_
  simp only [Statement.expressions, List.mem_cons, List.mem_append, Option.mem_toList,
    List.mem_map] at hexprs
  refine ⟨rfl, eval_eq h (hexprs _ (.inl rfl)) hs, fun e given? hsubject => ?_, fun key e he => ?_⟩
  · exact eval_eq h (hexprs e (.inr (.inl (by rw [hsubject]; rfl)))) hs
  · exact eval_eq h (hexprs e (.inr (.inr ⟨(key, e), he, rfl⟩))) hs

theorem congruence (setting : Setting) (includer : Includer) :
    Congruence setting setting includer includer (Part.MentionsOnly names)
      fun x _ => Overlooks around other x where
  toEvalCongruence := evaluation h
  check := of_sameIn (fun _ => rfl) fun _ _ => rfl
  write := write
  assign _ _ := modifyScope (fun _ => rfl) fun _ => rfl
  loop name items count x _ hx := by
    have heval : EvalCongruence setting.engine setting.engine (Part.MentionsOnly names)
        fun x _ => Overlooks around other x := evaluation h
    refine inLoop (heval.iterate name (fun v w => ?_) items (x := x) (y := x) hx 0 count)
    refine modifyScope (fun s => ?_) fun s => ?_
    · rw [Scope.outer_setLocal, Scope.outer_setLocal]
    · rw [Scope.withOuter_setLocal, Scope.withOuter_setLocal]
  captured := captured
  nextCycle _ _ := of_sameIn (fun _ => rfl) fun _ _ => rfl
  located _ hx := locatedAt _ hx
  inclusion {isolated template subject bindings} hparts := by
    obtain ⟨hisolated, hexprs⟩ := List.forall_mem_cons.mp hparts
    obtain rfl : isolated = true := hisolated
    exact inclusion h includer fun e he => hexprs _ (List.mem_map_of_mem he)

/-- Nodes that mention only such variables do not see which of the bindings are around them. -/
theorem run (setting : Setting) {nodes : List Node}
    (hnodes : ∀ p ∈ partsOf nodes, p.MentionsOnly names) :
    Overlooks around other (run setting nodes) := by
  intro s hs
  simp only [Render.run, Machine.runWithin_eq]
  exact (congruence h setting _).ofNodes nodes hnodes s hs

end

end Overlooks

/-- A template whose own tree includes nothing but in isolation renders the same, with the same
bytes, result and cache, under any bindings that agree on the variables it mentions. -/
theorem render_mentioned (session : Session) {template : Template}
    (hinclude : .inclusion false ∉ partsOf template.nodes) {bindings others : Bindings}
    (h : ∀ name ∈ mentionedIn template.nodes,
      Table.find? name bindings = Table.find? name others) (sink : Sink) (interrupt : Interrupt) :
    session.render template others sink interrupt =
      session.render template bindings sink interrupt := by
  have hagree (name : String) (hname : name ∈ mentionedIn template.nodes) :
      Scope.lookupIn [bindings] name = Scope.lookupIn [others] name := by
    simp only [Scope.lookupIn, List.findSome?_cons, h name hname]
  have hparts (p : Part) (hp : p ∈ partsOf template.nodes) :
      p.MentionsOnly (mentionedIn template.nodes) := by
    cases p with
    | expr e => exact mentioned_subset_mentionedIn hp
    | target | place => trivial
    | inclusion isolated =>
      cases isolated with
      | true => rfl
      | false => exact absurd hp hinclude
  have hrun := Overlooks.run hagree ⟨session.engine, interrupt⟩ hparts
  have hflush : Overlooks [bindings] [others] flush := .of_sameIn (fun _ => rfl) fun _ _ => rfl
  have htemplate : Overlooks [bindings] [others]
      (Render.template ⟨session.engine, interrupt⟩ template) :=
    (hrun.seq fun _ => .ret ()).seq fun _ => hflush
  obtain ⟨-, hsame⟩ := htemplate (session.start bindings sink) rfl
  have hstart : (session.start bindings sink).withScope
      ((session.start bindings sink).scope.withOuter [others]) = session.start others sink := rfl
  rw [hstart] at hsame
  simp only [Session.render, hsame]
  rfl

/-- A template that mentions `x`, and renders another one that mentions `y`, shows `x` only. -/
theorem render_mentioned_variable :
    let place : Location := ⟨none, 1, 1, 0⟩
    let rendered : Action := .include true (.literal (.str "a")) none []
    let nodes : List Node := [.output (.variable "x") place, .tag false "render" place rendered]
    let other : Template := ⟨[.output (.variable "y") place], ⟨"", none⟩⟩
    let session : Session := { engine := {}, cache := ⟨[("a", ⟨other, none⟩)]⟩ }
    let template : Template := ⟨nodes, ⟨"", none⟩⟩
    mentionedIn nodes = ["x"] ∧
      (session.render template [("x", .int 1), ("y", .int 2)] {} fun _ _ => false).1.2.held =
        "1".toUTF8 ∧
      session.render template [("x", .int 1), ("y", .int 3)] {} (fun _ _ => false) =
        session.render template [("x", .int 1), ("y", .int 2)] {} fun _ _ => false := by
  intro place rendered nodes other session template
  have hmentioned : mentionedIn nodes = ["x"] := by rfl
  have hinclude : .inclusion false ∉ partsOf nodes := by
    simp [nodes, rendered, partsOf, Node.parts, Action.parts, Statement.parts]
  have hheld : (session.render template [("x", .int 1), ("y", .int 2)] {} fun _ _ => false).1.2.held
      = "1".toUTF8 := by
    simp only [session, template, other, nodes, rendered, place]
    cbv
  refine ⟨hmentioned, hheld, ?_⟩
  refine render_mentioned session hinclude (fun name hname => ?_) _ _
  rw [hmentioned] at hname
  obtain rfl : name = "x" := by simpa using hname
  rfl

end Render

end Stencil
