import Mathlib
import Stencil.Proofs.Mentions

/-!
# Variables that nothing reads

Two states may differ in variables that no expression mentions: a run ends alike from both, and
leaves states that differ in no more. This takes care of what is included too. A template that is
included in isolation sees none of the variables, and any other template must not mention them.
-/
namespace Stencil

/-- The same variables but for the hidden ones. -/
def Table.AlikeBut (hidden : List String) (a b : Bindings) : Prop :=
  ∀ name ∉ hidden, Table.find? name b = Table.find? name a

structure Layer.AlikeBut (hidden : List String) (l m : Layer) : Prop where
  kind : m.kind = l.kind
  vars : Table.AlikeBut hidden l.vars m.vars

structure Scope.AlikeBut (hidden : List String) (s t : Scope) : Prop where
  layers : List.Forall₂ (Layer.AlikeBut hidden) s.layers t.layers
  outer : List.Forall₂ (Table.AlikeBut hidden) s.outer t.outer
  depth : t.depth = s.depth

/-- Two states that may differ in the hidden variables, and in how often it was asked whether to go
on, but in nothing else. -/
def State.AlikeBut (hidden : List String) (s t : State) : Prop :=
  ∃ scope checks, s.scope.AlikeBut hidden scope ∧ t = { s with scope, checks }

section Scopes

variable {hidden : List String} {name : String}

namespace Table.AlikeBut

variable {a b : Bindings}

theorem refl (hidden : List String) (a : Bindings) : AlikeBut hidden a a := fun _ _ => rfl

theorem insert (h : AlikeBut hidden a b) (name : String) (v : Value) :
    AlikeBut hidden (Table.insert name v a) (Table.insert name v b) := by
  intro other hother
  by_cases hname : other = name
  · rw [hname, find?_insert_self, find?_insert_self]
  · rw [find?_insert_of_ne hname, find?_insert_of_ne hname, h other hother]

end Table.AlikeBut

namespace Scope.AlikeBut

variable {s t : Scope}

theorem of_kept (h : Kept hidden s t) : AlikeBut hidden s t where
  layers := h.layers.imp fun _ _ hl => ⟨hl.kind, hl.other⟩
  outer := h.outer ▸ List.forall₂_same.mpr fun _ _ => .refl _ _
  depth := h.depth

theorem bindings (h : AlikeBut hidden s t) :
    List.Forall₂ (Table.AlikeBut hidden) s.bindings t.bindings := by
  refine List.rel_append ?_ h.outer
  rw [List.forall₂_map_left_iff, List.forall₂_map_right_iff]
  exact h.layers.imp fun _ _ hl => hl.vars

theorem lookup_eq (h : AlikeBut hidden s t) (hname : name ∉ hidden) :
    t.lookup name = s.lookup name := by
  have hall := h.bindings
  simp only [lookup]
  generalize s.bindings = as, t.bindings = bs at hall
  induction hall with
  | nil => rfl
  | cons hfirst _ ih => rw [List.findSome?_cons, List.findSome?_cons, hfirst name hname, ih]

theorem assign (h : AlikeBut hidden s t) (name : String) (v : Value) :
    AlikeBut hidden (s.assign name v) (t.assign name v) := by
  refine ⟨?_, h.outer, h.depth⟩
  have hlayers := h.layers
  simp only [Scope.assign]
  generalize s.layers = ls, t.layers = ms at hlayers ⊢
  induction hlayers with
  | nil => exact .nil
  | @cons l m ls ms hl hrest ih =>
    simp only [Layer.assign, hl.kind]
    cases l.kind with
    | template => exact .cons ⟨hl.kind, hl.vars.insert name v⟩ hrest
    | loop => exact .cons hl ih

theorem setLocal (h : AlikeBut hidden s t) (name : String) (v : Value) :
    AlikeBut hidden (s.setLocal name v) (t.setLocal name v) := by
  obtain ⟨ls, around, depth⟩ := s
  obtain ⟨ms, others, deep⟩ := t
  obtain ⟨hlayers, houter, hdepth⟩ := h
  cases hlayers with
  | nil => exact ⟨.nil, houter, hdepth⟩
  | cons hl hrest => exact ⟨.cons ⟨hl.kind, hl.vars.insert name v⟩ hrest, houter, hdepth⟩

theorem enterLoop (h : AlikeBut hidden s t) : AlikeBut hidden s.enterLoop t.enterLoop :=
  ⟨.cons ⟨rfl, .refl _ _⟩ h.layers, h.outer, h.depth⟩

theorem leaveLoop (h : AlikeBut hidden s t) : AlikeBut hidden s.leaveLoop t.leaveLoop := by
  refine ⟨?_, h.outer, h.depth⟩
  have hlayers := h.layers
  simp only [Scope.leaveLoop]
  generalize s.layers = ls, t.layers = ms at hlayers ⊢
  cases hlayers with
  | nil => exact .nil
  | cons _ hrest => exact hrest

theorem child (h : AlikeBut hidden s t) (params : Bindings) :
    AlikeBut hidden (s.child params false) (t.child params false) :=
  ⟨.cons ⟨rfl, .refl _ _⟩ .nil, h.bindings, congrArg (· + 1) h.depth⟩

/-- Nothing is hidden in the scope of an isolated template. -/
theorem child_isolated (h : AlikeBut hidden s t) (params : Bindings) :
    AlikeBut [] (s.child params true) (t.child params true) :=
  ⟨.cons ⟨rfl, .refl _ _⟩ .nil, .nil, congrArg (· + 1) h.depth⟩

theorem eval_eq (h : AlikeBut hidden s t) (engine : Engine) {e : Expr}
    (he : ∀ name ∈ e.mentioned, name ∉ hidden) :
    e.eval (engine.environment t) = e.eval (engine.environment s) :=
  Expr.eval_agree e ⟨fun name hname => h.lookup_eq (he name hname), rfl, rfl⟩

end Scope.AlikeBut

end Scopes

/-- None of the templates that names stand for mentions a hidden variable. -/
def Unread (hidden : List String) (served : String → Except Error Template) : Prop :=
  ∀ name t, served name = .ok t → ∀ other ∈ mentionedIn t.nodes, other ∉ hidden

/-- A part that mentions no hidden variable, and shows none to a template that does. -/
def Part.Avoids (hidden : List String) (served : String → Except Error Template) : Part → Prop
  | .expr e => ∀ name ∈ e.mentioned, name ∉ hidden
  | .inclusion isolated => isolated = true ∨ Unread hidden served
  | .target _ => True
  | .place _ => True

theorem Unread.avoids {hidden : List String} {served : String → Except Error Template}
    (h : Unread hidden served) {name : String} {t : Template} (ht : served name = .ok t) :
    ∀ p ∈ partsOf t.nodes, p.Avoids hidden served := by
  intro p hp
  cases p with
  | expr e => exact fun other hother => h name t ht other (mentioned_subset_mentionedIn hp hother)
  | inclusion isolated => exact .inr h
  | target | place => trivial

theorem avoids_nil {served : String → Except Error Template} (p : Part) : p.Avoids [] served := by
  cases p with
  | expr e => exact fun _ _ => List.not_mem_nil
  | inclusion isolated => exact .inr fun _ _ _ _ _ => List.not_mem_nil
  | target | place => trivial

namespace Render

/-- Two states that go on alike: they are asked the same, and names stand for the same templates. -/
structure Abreast (engine : Engine) (i j : Interrupt) (served : String → Except Error Template)
    (hidden : List String) (s t : State) : Prop where
  alike : s.AlikeBut hidden t
  asked : ∀ n held, j (t.checks + n) held = i (s.checks + n) held
  served : s.cache.served engine = served

/-- The same result in states that go on alike. -/
def EndAlike {α : Type} (engine : Engine) (i j : Interrupt)
    (served : String → Except Error Template) (hidden : List String)
    (p q : Except Error α × State) : Prop :=
  q.1 = p.1 ∧ Abreast engine i j served hidden p.2 q.2

/-- Steps that end alike from states that go on alike. -/
def Unseen {α : Type} (engine : Engine) (i j : Interrupt) (served : String → Except Error Template)
    (hidden : List String) (x y : Render α) : Prop :=
  ∀ s t, Abreast engine i j served hidden s t → EndAlike engine i j served hidden (x s) (y t)

section

variable {α β : Type} {engine : Engine} {i j : Interrupt}
  {served : String → Except Error Template} {hidden : List String}

namespace EndAlike

variable {x y : Render α} {s t : State}

/-- What the two steps come to. -/
theorem elim (h : EndAlike engine i j served hidden (x s) (y t)) :
    ∃ r u scope checks, x s = (r, u) ∧ y t = (r, { u with scope, checks }) ∧
      u.scope.AlikeBut hidden scope ∧ (∀ n held, j (checks + n) held = i (u.checks + n) held) ∧
      u.cache.served engine = served := by
  obtain ⟨hresult, ⟨scope, checks, hscope, hstate⟩, hasked, hs⟩ := h
  rcases hx : x s with ⟨r, u⟩
  rcases hy : y t with ⟨q, v⟩
  rw [hx, hy] at hresult hstate hasked
  rw [hx] at hscope hs
  obtain rfl : q = r := hresult
  obtain rfl : v = { u with scope, checks } := hstate
  exact ⟨q, u, scope, checks, rfl, rfl, hscope, hasked, hs⟩

theorem seq {f g : α → Render β} (h : EndAlike engine i j served hidden (x s) (y t))
    (hf : ∀ a u v, x s = (.ok a, u) → y t = (.ok a, v) → Abreast engine i j served hidden u v →
      EndAlike engine i j served hidden (f a u) (g a v)) :
    EndAlike engine i j served hidden ((x >>= f) s) ((y >>= g) t) := by
  obtain ⟨r, u, scope, checks, hr, hq, hscope, hasked, hs⟩ := h.elim
  have hafter : Abreast engine i j served hidden u { u with scope, checks } :=
    ⟨⟨scope, checks, hscope, rfl⟩, hasked, hs⟩
  cases r with
  | error e =>
    rw [bind_of_error hr, bind_of_error hq]
    exact ⟨rfl, hafter⟩
  | ok a =>
    rw [bind_of_ok hr, bind_of_ok hq]
    exact hf a u _ hr hq hafter

theorem locatedAt (l : Location) (h : EndAlike engine i j served hidden (x s) (y t)) :
    EndAlike engine i j served hidden (locatedAt l x s) (locatedAt l y t) :=
  ⟨congrArg (Except.mapError fun e : Error => e.locatedAt l) h.1, h.2⟩

end EndAlike

namespace Unseen

theorem seq {x y : Render α} {f g : α → Render β} (hx : Unseen engine i j served hidden x y)
    (hf : ∀ a, Unseen engine i j served hidden (f a) (g a)) :
    Unseen engine i j served hidden (x >>= f) (y >>= g) := fun s t h =>
  (hx s t h).seq fun a u v _ _ hafter => hf a u v hafter

/-- A step that looks at the scope alone and leaves the state as it is. -/
theorem of_scope {x y : Render α} (hx : Leaves id x) (hy : Leaves id y)
    (h : ∀ s t : State, s.scope.AlikeBut hidden t.scope → (y t).1 = (x s).1) :
    Unseen engine i j served hidden x y := by
  intro s t hst
  have hs : (x s).2 = s := hx s
  have ht : (y t).2 = t := hy t
  rw [EndAlike, hs, ht]
  refine ⟨?_, hst⟩
  obtain ⟨⟨scope, checks, hscope, rfl⟩, -, -⟩ := hst
  exact h s _ hscope

theorem ret (a : α) : Unseen engine i j served hidden (pure a) (pure a) :=
  of_scope (.ret _ a) (.ret _ a) fun _ _ _ => rfl

/-- A step that has to do neither with scopes nor with whether to go on. -/
theorem of_blind {x : Render α}
    (h : ∀ (s : State) scope checks, x { s with scope, checks } =
      ((x s).1, { (x s).2 with scope, checks }))
    (hserved : Leaves (fun s => s.cache.served engine) x) :
    Unseen engine i j served hidden x x := by
  rintro s _ ⟨⟨scope, checks, hscope, rfl⟩, hasked, hs⟩
  have hself : x s = ((x s).1, { (x s).2 with scope := s.scope, checks := s.checks }) :=
    h s s.scope s.checks
  have hkept : (x s).2.scope = s.scope := congrArg (fun r => r.2.scope) hself
  have hchecks : (x s).2.checks = s.checks := congrArg (fun r => r.2.checks) hself
  rw [h s scope checks]
  refine ⟨rfl, ⟨scope, checks, by rwa [hkept], rfl⟩, ?_, (hserved s).trans hs⟩
  rwa [hchecks]

theorem write (text : String) :
    Unseen engine i j served hidden (write text) (write text) := by
  refine of_blind (fun s scope checks => ?_) (write_leaves (fun _ _ _ => rfl) text)
  simp only [Render.write]
  cases s.captures with
  | nil => rfl
  | cons buffer captures => rfl

theorem nextCycle (key : CycleKey) (count : Nat) :
    Unseen engine i j served hidden (nextCycle key count) (nextCycle key count) :=
  of_blind (fun _ _ _ => rfl) fun _ => rfl

theorem load (name : String) :
    Unseen engine i j served hidden (load engine name) (load engine name) :=
  of_blind (fun _ _ _ => rfl) (Transparent.load_leaves_served engine name)

theorem check : Unseen engine i j served hidden (check i) (check j) := by
  rintro s _ ⟨⟨scope, checks, hscope, rfl⟩, hasked, hs⟩
  have hnow : j checks s.sink.held.size = i s.checks s.sink.held.size := hasked 0 s.sink.held.size
  refine ⟨by simp only [Render.check, hnow], ⟨scope, checks + 1, hscope, rfl⟩, fun n held => ?_, hs⟩
  have hlater := hasked (n + 1) held
  rwa [Nat.add_comm n 1, ← Nat.add_assoc, ← Nat.add_assoc] at hlater

theorem modifyScope {f : Scope → Scope}
    (h : ∀ s t : Scope, s.AlikeBut hidden t → (f s).AlikeBut hidden (f t)) :
    Unseen engine i j served hidden (modifyScope f) (modifyScope f) := by
  rintro s _ ⟨⟨scope, checks, hscope, rfl⟩, hasked, hs⟩
  exact ⟨rfl, ⟨f scope, checks, h _ _ hscope, rfl⟩, hasked, hs⟩

theorem inLoop {x y : Render α} (h : Unseen engine i j served hidden x y) :
    Unseen engine i j served hidden (inLoop x) (inLoop y) := by
  rintro s _ ⟨⟨scope, checks, hscope, rfl⟩, hasked, hs⟩
  have hentered : Abreast engine i j served hidden { s with scope := s.scope.enterLoop }
      { s with scope := scope.enterLoop, checks } := ⟨⟨_, _, hscope.enterLoop, rfl⟩, hasked, hs⟩
  obtain ⟨r, u, after, asked, hx, hy, hafter, hlater, hserved⟩ :=
    (h _ _ hentered).elim
  have hleft : Render.inLoop x s = (r, { u with scope := u.scope.leaveLoop }) := by
    simp only [Render.inLoop, hx]
  have hright : Render.inLoop y { s with scope, checks } =
      (r, { u with scope := after.leaveLoop, checks := asked }) := by
    simp only [Render.inLoop, hy]
  rw [hleft, hright]
  exact ⟨rfl, ⟨_, _, hafter.leaveLoop, rfl⟩, hlater, hserved⟩

theorem captured {x y : Render α} (h : Unseen engine i j served hidden x y) :
    Unseen engine i j served hidden (captured x) (captured y) := by
  rintro s _ ⟨⟨scope, checks, hscope, rfl⟩, hasked, hs⟩
  have hentered : Abreast engine i j served hidden { s with captures := "" :: s.captures }
      { s with captures := "" :: s.captures, scope, checks } := ⟨⟨_, _, hscope, rfl⟩, hasked, hs⟩
  obtain ⟨r, u, after, asked, hx, hy, hafter, hlater, hserved⟩ :=
    (h _ _ hentered).elim
  have hleft : Render.captured x s =
      (r.map fun a => (a, u.captures.headD ""), { u with captures := u.captures.tail }) := by
    simp only [Render.captured, hx]
  have hright : Render.captured y { s with scope, checks } =
      (r.map fun a => (a, u.captures.headD ""),
        { u with captures := u.captures.tail, scope := after, checks := asked }) := by
    simp only [Render.captured, hy]
  rw [hleft, hright]
  exact ⟨rfl, ⟨_, _, hafter, rfl⟩, hlater, hserved⟩

theorem eval {e : Expr} (he : ∀ name ∈ e.mentioned, name ∉ hidden) :
    Unseen engine i j served hidden (eval engine e) (eval engine e) :=
  of_scope (fun _ => rfl) (fun _ => rfl) fun _ _ h => h.eval_eq engine he

theorem evaluation :
    EvalCongruence engine engine (Part.Avoids hidden served)
      (Unseen engine i j served hidden) where
  ret := ret
  seq := seq
  toInt _ := of_scope (fun _ => rfl) (fun _ => rfl) fun _ _ _ => rfl
  eval := eval
  bounds h := List.forall_mem_append.mp h

theorem params (name : String) {subject : Option (Expr × Option String)}
    {bindings : List (String × Expr)}
    (hsubject : ∀ entry ∈ subject, ∀ name ∈ entry.1.mentioned, name ∉ hidden)
    (hbindings : ∀ entry ∈ bindings, ∀ name ∈ entry.2.mentioned, name ∉ hidden) :
    Unseen engine i j served hidden (params engine name subject bindings)
      (params engine name subject bindings) := by
  have hnamed (start : Bindings) : Unseen engine i j served hidden
      (fun s => (Expr.evalNamed (engine.environment s.scope) start bindings, s))
      fun s => (Expr.evalNamed (engine.environment s.scope) start bindings, s) :=
    of_scope (fun _ => rfl) (fun _ => rfl) fun s t h =>
      Expr.evalNamed_congr (fun key e he => h.eval_eq engine (hbindings (key, e) he)) start
  cases subject with
  | none => exact (ret _).seq hnamed
  | some subject =>
    obtain ⟨e, given?⟩ := subject
    exact (eval (hsubject _ rfl)).seq fun v => (ret _).seq hnamed

/-- An included template ends alike if it does so where only what it can see is hidden. -/
theorem inChild (ps : Bindings) {isolated : Bool} {x y : Render α}
    (h : Unseen engine i j served (if isolated then [] else hidden) x y) :
    Unseen engine i j served hidden (inChild ps isolated x) (inChild ps isolated y) := by
  rintro s _ ⟨⟨scope, checks, hscope, rfl⟩, hasked, hs⟩
  have hchild : (s.scope.child ps isolated).AlikeBut (if isolated then [] else hidden)
      (scope.child ps isolated) := by
    cases isolated with
    | true => exact hscope.child_isolated ps
    | false => exact hscope.child ps
  have hentered : Abreast engine i j served (if isolated then [] else hidden)
      { s with scope := s.scope.child ps isolated }
      { s with scope := scope.child ps isolated, checks } := ⟨⟨_, _, hchild, rfl⟩, hasked, hs⟩
  obtain ⟨r, u, after, asked, hx, hy, -, hlater, hserved⟩ :=
    (h _ _ hentered).elim
  have hleft : Render.inChild ps isolated x s = (r, { u with scope := s.scope }) := by
    simp only [Render.inChild, hx]
  have hright : Render.inChild ps isolated y { s with scope, checks } =
      (r, { u with scope, checks := asked }) := by
    simp only [Render.inChild, hy]
  rw [hleft, hright]
  exact ⟨rfl, ⟨scope, asked, hscope, rfl⟩, hlater, hserved⟩

/-- The templates that are included end alike, whatever is hidden from them. -/
def Includes (engine : Engine) (i j : Interrupt) (served : String → Except Error Template)
    (room : Nat) : Prop :=
  ∀ hidden nodes, (∀ p ∈ partsOf nodes, p.Avoids hidden served) →
    Unseen engine i j served hidden (runWithin ⟨engine, i⟩ room nodes)
      (runWithin ⟨engine, j⟩ room nodes)

theorem inclusion {room : Nat} (ih : ∀ left, room = left + 1 → Includes engine i j served left)
    {isolated : Bool} {template : Expr} {subject : Option (Expr × Option String)}
    {bindings : List (String × Expr)}
    (h : ∀ p ∈ (Action.include isolated template subject bindings).parts,
      p.Avoids hidden served) :
    Unseen engine i j served hidden
      (inclusion engine (Machine.includerAt ⟨engine, i⟩ room) isolated template subject bindings)
      (inclusion engine (Machine.includerAt ⟨engine, j⟩ room) isolated template subject
        bindings) := by
  obtain ⟨hopen, hparts⟩ := List.forall_mem_cons.mp h
  have hexprs : ∀ e ∈ (Statement.include template subject bindings).expressions,
      ∀ name ∈ e.mentioned, name ∉ hidden := fun e he => hparts _ (List.mem_map_of_mem he)
  simp only [Statement.expressions, List.mem_cons, List.mem_append, Option.mem_toList,
    List.mem_map] at hexprs
  refine (eval (hexprs _ (.inl rfl))).seq fun v => ?_
  cases room with
  | zero => exact of_scope (fun _ => rfl) (fun _ => rfl) fun _ _ _ => rfl
  | succ left =>
    refine fun s u hsu => (load v.display s u hsu).seq fun t s' u' hload _ hafter => ?_
    have ht : served v.display = .ok t := by rw [← hsu.served, ← Transparent.load_eq, hload]
    have hrun : Unseen engine i j served (if isolated then [] else hidden)
        (runWithin ⟨engine, i⟩ left t.nodes) (runWithin ⟨engine, j⟩ left t.nodes) := by
      refine ih left rfl _ t.nodes ?_
      cases isolated with
      | true => exact fun p _ => avoids_nil p
      | false =>
        have hunread : Unread hidden served := hopen.resolve_left Bool.false_ne_true
        exact hunread.avoids ht
    have hparams : Unseen engine i j served hidden (Render.params engine v.display subject bindings)
        (Render.params engine v.display subject bindings) := by
      refine params v.display (fun entry he => ?_) fun entry he => ?_
      · exact hexprs entry.1 (.inr (.inl (by rw [he]; rfl)))
      · exact hexprs entry.2 (.inr (.inr ⟨entry, he, rfl⟩))
    refine hparams.seq (fun ps => ?_) s' u' hafter
    exact ((inChild ps hrun).seq fun _ => ret _).seq fun _ => ret _

theorem congruence_of_includes (room : Nat)
    (ih : ∀ left, room = left + 1 → Includes engine i j served left) :
    Congruence ⟨engine, i⟩ ⟨engine, j⟩ (Machine.includerAt ⟨engine, i⟩ room)
      (Machine.includerAt ⟨engine, j⟩ room) (Part.Avoids hidden served)
      (Unseen engine i j served hidden) where
  toEvalCongruence := evaluation
  check := check
  write := write
  assign v _ := modifyScope fun _ _ h => h.assign _ v
  loop name items count x y hxy := by
    have heval : EvalCongruence engine engine (Part.Avoids hidden served)
        (Unseen engine i j served hidden) := evaluation
    exact inLoop (heval.iterate name
      (fun v w => modifyScope fun _ _ h => (h.setLocal name v).setLocal "forloop" w) items hxy 0
      count)
  captured := captured
  nextCycle := nextCycle
  located _ h s t hst := (h s t hst).locatedAt _
  inclusion h := inclusion ih h

theorem includes (room : Nat) : Includes engine i j served room := by
  induction room with
  | zero =>
    intro hidden nodes h
    refine (congruence_of_includes 0 fun _ h => ?_).ofNodes nodes h
    cases h
  | succ room ih =>
    intro hidden nodes h
    refine (congruence_of_includes (room + 1) fun left hleft => ?_).ofNodes nodes h
    obtain rfl : room = left := Nat.succ.inj hleft
    exact ih

theorem congruence (room : Nat) :
    Congruence ⟨engine, i⟩ ⟨engine, j⟩ (Machine.includerAt ⟨engine, i⟩ room)
      (Machine.includerAt ⟨engine, j⟩ room) (Part.Avoids hidden served)
      (Unseen engine i j served hidden) :=
  congruence_of_includes room fun left _ => includes left

end Unseen

end

end Render

end Stencil
