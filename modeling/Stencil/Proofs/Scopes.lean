import Mathlib.Data.List.Forall2
import Stencil.Proofs.Congruence

/-!
# What a run leaves of a scope

A run may bind the names that its nodes assign or capture into, in the layer of the template, and
nothing else. This holds however the run ends.
-/
namespace Stencil

namespace Layer

/-- What may become of a layer where only `targets` are assigned. -/
structure Kept (targets : List String) (l m : Layer) : Prop where
  kind : m.kind = l.kind
  loop : l.kind = .loop → m.vars = l.vars
  other : ∀ name ∉ targets, Table.find? name m.vars = Table.find? name l.vars

namespace Kept

variable {targets : List String} {l m k : Layer}

theorem refl (targets : List String) (l : Layer) : Kept targets l l :=
  ⟨rfl, fun _ => rfl, fun _ _ => rfl⟩

theorem trans (h : Kept targets l m) (g : Kept targets m k) : Kept targets l k where
  kind := g.kind.trans h.kind
  loop hl := (g.loop (h.kind.trans hl)).trans (h.loop hl)
  other name hn := (g.other name hn).trans (h.other name hn)

theorem set {name : String} (hk : l.kind = .template) (hn : name ∈ targets) (v : Value) :
    Kept targets l (l.set name v) where
  kind := rfl
  loop hl := by rw [hk] at hl; cases hl
  other other ho := by
    have hne : other ≠ name := fun he => ho (he ▸ hn)
    exact Table.find?_insert_of_ne hne v l.vars

end Kept

theorem Kept.all_trans {targets : List String} {ls ms ns : List Layer}
    (h : List.Forall₂ (Kept targets) ls ms) (g : List.Forall₂ (Kept targets) ms ns) :
    List.Forall₂ (Kept targets) ls ns := by
  induction h generalizing ns with
  | nil => exact g
  | cons hk _ ih =>
    cases g with
    | cons gk g => exact .cons (hk.trans gk) (ih g)

theorem Kept.all_tail {targets : List String} {ls ms : List Layer}
    (h : List.Forall₂ (Kept targets) ls ms) : List.Forall₂ (Kept targets) ls.tail ms.tail := by
  cases h with
  | nil => exact .nil
  | cons _ h => exact h

theorem Kept.all_kinds {targets : List String} {ls ms : List Layer}
    (h : List.Forall₂ (Kept targets) ls ms) : ms.map Layer.kind = ls.map Layer.kind := by
  induction h with
  | nil => rfl
  | cons hk _ ih => simp only [List.map_cons, hk.kind, ih]

/-- Only the layer of a template takes an assignment. -/
theorem assign_kept {targets : List String} {name : String} (hn : name ∈ targets) (v : Value)
    (layers : List Layer) : List.Forall₂ (Kept targets) layers (assign name v layers) := by
  induction layers with
  | nil => exact .nil
  | cons l layers ih =>
    simp only [assign]
    cases hk : l.kind with
    | template =>
      exact .cons (.set hk hn v) (List.forall₂_same.mpr fun m _ => .refl targets m)
    | loop => exact .cons (.refl targets l) ih

end Layer

namespace Scope

/-- What may become of a scope where only `targets` are assigned. -/
structure Kept (targets : List String) (s t : Scope) : Prop where
  layers : List.Forall₂ (Layer.Kept targets) s.layers t.layers
  outer : t.outer = s.outer
  depth : t.depth = s.depth

@[simp] theorem leaveLoop_setLocal (name : String) (v : Value) (s : Scope) :
    (s.setLocal name v).leaveLoop = s.leaveLoop := by
  obtain ⟨layers, outer, depth⟩ := s
  cases layers <;> rfl

@[simp] theorem depth_setLocal (name : String) (v : Value) (s : Scope) :
    (s.setLocal name v).depth = s.depth := by
  obtain ⟨layers, outer, depth⟩ := s
  cases layers <;> rfl

namespace Kept

variable {targets : List String} {s t u : Scope}

theorem refl (targets : List String) (s : Scope) : Kept targets s s :=
  ⟨List.forall₂_same.mpr fun l _ => .refl targets l, rfl, rfl⟩

theorem of_eq (targets : List String) (h : t = s) : Kept targets s t := h ▸ refl targets s

theorem trans (h : Kept targets s t) (g : Kept targets t u) : Kept targets s u where
  layers := Layer.Kept.all_trans h.layers g.layers
  outer := g.outer.trans h.outer
  depth := g.depth.trans h.depth

theorem assign {name : String} (hn : name ∈ targets) (v : Value) (s : Scope) :
    Kept targets s (s.assign name v) :=
  ⟨Layer.assign_kept hn v s.layers, rfl, rfl⟩

theorem leaveLoop (h : Kept targets s t) : Kept targets s.leaveLoop t.leaveLoop where
  layers := Layer.Kept.all_tail h.layers
  outer := h.outer
  depth := h.depth

end Kept

end Scope

/-- The parts of nodes that assign nothing but `targets`. -/
def Part.Within (targets : List String) : Part → Prop
  | .target name => name ∈ targets
  | _ => True

namespace Render

variable {α β γ : Type}

theorem params_leaves (f : State → γ) (engine : Engine) (name : String)
    (subject : Option (Expr × Option String)) (bindings : List (String × Expr)) :
    Leaves f (params engine name subject bindings) := by
  cases subject with
  | none => exact .seq (.ret f _) fun _ _ => rfl
  | some subject =>
    obtain ⟨e, given?⟩ := subject
    exact .seq (fun _ => rfl) fun _ => .seq (.ret f _) fun _ _ => rfl

theorem write_leaves_scope (text : String) : Leaves State.scope (write text) :=
  write_leaves (fun _ _ _ => rfl) text

/-- The including template does not notice what an included one does to its variables. -/
theorem inclusion_leaves_scope (engine : Engine) (includer : Includer) (isolated : Bool)
    (template : Expr) (subject : Option (Expr × Option String)) (bindings : List (String × Expr)) :
    Leaves State.scope (inclusion engine includer isolated template subject bindings) := by
  refine .seq (fun _ => rfl) fun v => ?_
  cases includer with
  | none => exact fun _ => rfl
  | some run =>
    refine .seq (fun _ => rfl) fun included => .seq (params_leaves _ _ _ _ _) fun params => ?_
    exact .seq (.seq (fun _ => rfl) fun _ => .ret _ _) fun _ => .ret _ _

/-- A step that binds only `targets`. -/
def BindsOnly (targets : List String) (x : Render α) : Prop :=
  ∀ s : State, s.scope.Kept targets (x s).2.scope

namespace BindsOnly

variable {targets : List String}

theorem of_leaves {x : Render α} (h : Leaves State.scope x) : BindsOnly targets x :=
  fun s => .of_eq targets (h s)

theorem seq {x : Render α} {g : α → Render β} (hx : BindsOnly targets x)
    (hg : ∀ a, BindsOnly targets (g a)) : BindsOnly targets (x >>= g) := by
  intro s
  have h := hx s
  apply bind_elim (P := fun r => s.scope.Kept targets r.2.scope)
  · intro e t he
    rwa [he] at h
  · intro a t ha
    rw [ha] at h
    exact h.trans (hg a t)

/-- The layer that a loop works in is the innermost one, which the loop drops. -/
theorem iterate {body : Render Signal} (hb : BindsOnly targets body) (name : String)
    (items : LoopItems) (index left : Nat) (s : State) :
    s.scope.leaveLoop.Kept targets (iterate name items body index left s).2.scope.leaveLoop := by
  -- Every item starts where the one before it has left the scope, so the scope varies.
  induction left generalizing index s with
  | zero => exact .refl targets _
  | succ left ih =>
    simp only [Render.iterate]
    rw [bind_of_ok (modifyScope_apply _ s)]
    let entered := (s.scope.setLocal name (items.item index)).setLocal "forloop"
      (forloop index items.count)
    have he : entered.leaveLoop = s.scope.leaveLoop := by simp [entered]
    have h := (hb { s with scope := entered }).leaveLoop
    rw [he] at h
    apply bind_elim (P := fun r => s.scope.leaveLoop.Kept targets r.2.scope.leaveLoop)
    · intro e t ht
      rwa [ht] at h
    · intro signal t ht
      rw [ht] at h
      cases signal with
      | leave => exact h
      | normal | next => exact h.trans (ih (index + 1) t)

theorem congruence (targets : List String) (setting : Setting) (includer : Includer) :
    Congruence setting setting includer includer (Part.Within targets)
      (fun x _ => BindsOnly targets x) where
  ret v := .of_leaves (.ret _ v)
  seq := .seq
  toInt _ := .of_leaves fun _ => rfl
  eval _ := .of_leaves fun _ => rfl
  bounds _ := ⟨trivial, trivial⟩
  check := .of_leaves fun _ => rfl
  write text := .of_leaves (write_leaves_scope text)
  assign v hn s := .assign hn v s.scope
  loop name items count _ _ hx s :=
    iterate hx name items 0 count { s with scope := s.scope.enterLoop }
  captured hx s := hx { s with captures := "" :: s.captures }
  nextCycle _ _ := .of_leaves fun _ => rfl
  located _ hx s := hx s
  inclusion _ := .of_leaves (inclusion_leaves_scope _ _ _ _ _ _)

end BindsOnly

/-- Nodes bind only the names that they assign or capture into. -/
theorem runNodes_bindsOnly (setting : Setting) (includer : Includer) (nodes : List Node) :
    BindsOnly (targetsOf nodes) (runNodes setting includer nodes) := by
  apply (BindsOnly.congruence _ setting includer).ofNodes
  intro p hp
  cases p with
  | target name => exact mem_targetsOf.mpr hp
  | expr | place | inclusion => trivial

theorem runNode_bindsOnly (setting : Setting) (includer : Includer) (node : Node) :
    BindsOnly (targetsOf [node]) (runNode setting includer node) := by
  apply (BindsOnly.congruence _ setting includer).ofNode
  intro p hp
  cases p with
  | target name => exact mem_targetsOf.mpr (by simpa [partsOf] using hp)
  | expr | place | inclusion => trivial

end Render

end Stencil
