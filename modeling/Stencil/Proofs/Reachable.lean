import Stencil.Proofs.Launching

/-!
# Scopes along a run

What waits in a machine tells the shape of the scope: a layer for every open loop of the template
that runs, the layer of the template below them, and as many inclusions around it as are open.
-/
namespace Stencil

namespace Scope

def kinds (s : Scope) : List LayerKind := s.layers.map Layer.kind

/-- One layer of a template, below those of its loops. -/
def WellFormed (s : Scope) : Prop := ∃ loops, s.kinds = List.replicate loops .loop ++ [.template]

@[simp] theorem kinds_leaveLoop (s : Scope) : s.leaveLoop.kinds = s.kinds.tail := by
  simp [kinds, leaveLoop]

@[simp] theorem kinds_setLocal (name : String) (v : Value) (s : Scope) :
    (s.setLocal name v).kinds = s.kinds := by
  obtain ⟨layers, outer, depth⟩ := s
  cases layers <;> rfl

theorem Kept.kinds {targets : List String} {s t : Scope} (h : Kept targets s t) :
    t.kinds = s.kinds := Layer.Kept.all_kinds h.layers

end Scope

namespace Render.Machine

def openInclusions : List Pending → Nat
  | [] => 0
  | .inclusion _ :: waiting => openInclusions waiting + 1
  | _ :: waiting => openInclusions waiting

/-- The shape of the scope in which something runs that so much waits for. -/
def Fits (limit : Nat) : List Pending → Scope → Prop
  | [], s => s.kinds = [.template] ∧ s.depth = 0
  | .loop .. :: waiting, s => s.kinds.head? = some .loop ∧ Fits limit waiting s.leaveLoop
  | .inclusion caller :: waiting, s =>
    s.kinds = [.template] ∧ s.depth = caller.depth + 1 ∧ caller.depth < limit ∧
      Fits limit waiting caller
  | _ :: waiting, s => Fits limit waiting s

namespace Fits

variable {limit : Nat} {waiting : List Pending} {s t : Scope}

/-- Only the kinds of layers and the depth matter. -/
theorem congr (hk : t.kinds = s.kinds) (hd : t.depth = s.depth) (h : Fits limit waiting s) :
    Fits limit waiting t := by
  induction waiting generalizing s t with
  | nil => exact ⟨hk.trans h.1, hd.trans h.2⟩
  | cons p waiting ih =>
    cases p with
    | loop name items body index left =>
      obtain ⟨hl, hw⟩ := h
      exact ⟨by rw [hk]; exact hl, ih (s := s.leaveLoop) (by simp [hk]) hd hw⟩
    | inclusion caller =>
      obtain ⟨hs, hc, hlt, hw⟩ := h
      exact ⟨hk.trans hs, hd.trans hc, hlt, hw⟩
    | rest | place | capture | outline => exact ih hk hd h

theorem of_eq (ht : t = s) (h : Fits limit waiting s) : Fits limit waiting t := ht ▸ h

theorem wellFormed (h : Fits limit waiting s) : s.WellFormed := by
  induction waiting generalizing s with
  | nil => exact ⟨0, h.1⟩
  | cons p waiting ih =>
    cases p with
    | loop name items body index left =>
      obtain ⟨hl, hw⟩ := h
      obtain ⟨loops, hk⟩ := ih hw
      rw [Scope.kinds_leaveLoop] at hk
      refine ⟨loops + 1, ?_⟩
      rw [← List.cons_head?_tail (Option.mem_def.mpr hl), hk]
      rfl
    | inclusion caller => exact ⟨0, h.1⟩
    | rest | place | capture | outline => exact ih h

theorem depth_eq (h : Fits limit waiting s) : s.depth = openInclusions waiting := by
  induction waiting generalizing s with
  | nil => exact h.2
  | cons p waiting ih =>
    cases p with
    | loop name items body index left => exact ih (s := s.leaveLoop) h.2
    | inclusion caller =>
      obtain ⟨-, hc, -, hw⟩ := h
      rw [hc, ih hw]
      rfl
    | rest | place | capture | outline => exact ih h

theorem depth_le (h : Fits limit waiting s) : s.depth ≤ limit := by
  induction waiting generalizing s with
  | nil =>
    rw [h.2]
    exact Nat.zero_le limit
  | cons p waiting ih =>
    cases p with
    | loop name items body index left => exact ih (s := s.leaveLoop) h.2
    | inclusion caller =>
      obtain ⟨-, hc, hlt, -⟩ := h
      omega
    | rest | place | capture | outline => exact ih h

end Fits

/-- The scope of a configuration is as what waits in it tells. -/
def Config.Fits (limit : Nat) (c : Config) : Prop := Machine.Fits limit c.pending c.state.scope

/-- A step that goes on where the scope is as it should be. -/
def Fitting (limit : Nat) (waiting : List Pending) (x : Render Launch) : Prop :=
  ∀ s : State, Fits limit waiting s.scope → (settle waiting (x s)).Fits limit

def shape (s : State) : List LayerKind × Nat := (s.scope.kinds, s.scope.depth)

theorem shape_of_leaves {α : Type} {x : Render α} (h : Leaves State.scope x) : Leaves shape x := by
  intro s
  simp only [shape]
  rw [h s]

theorem assign_leaves_shape (name : String) (v : Value) :
    Leaves shape (modifyScope (Scope.assign name v)) := by
  intro s
  have h : s.scope.Kept [name] (s.scope.assign name v) := .assign (List.mem_singleton.mpr rfl) v _
  exact Prod.ext h.kinds h.depth

namespace Fitting

variable {limit : Nat} {waiting : List Pending} {α : Type}

theorem go (l : Launch) (h : ∀ s, Fits limit waiting s → Fits limit (l.pending ++ waiting) s) :
    Fitting limit waiting (pure l) := fun s hs => h s.scope hs

theorem finish (control : Control) : Fitting limit waiting (pure ⟨control, []⟩) := fun _ hs => hs

theorem seq {z : Render α} {f : α → Render Launch} (hz : Leaves shape z)
    (h : ∀ a, Fitting limit waiting (f a)) : Fitting limit waiting (z >>= f) := by
  intro s hs
  refine hz.elim (P := fun r => (settle waiting r).Fits limit) ?_ ?_
  · intro e t ht
    exact hs.congr (congrArg Prod.fst ht) (congrArg Prod.snd ht)
  · intro a t ht
    exact h a t (hs.congr (congrArg Prod.fst ht) (congrArg Prod.snd ht))

theorem located (l : Location) {x : Render Launch} (h : Fitting limit waiting x) :
    Fitting limit waiting (locatedAt l x) := by
  intro s hs
  have hx := h s hs
  simp only [locatedAt]
  rcases hr : x s with ⟨e | a, t⟩
  · rw [hr] at hx
    exact hx
  · rw [hr] at hx
    exact hx

end Fitting

variable {setting : Setting} {engine : Engine} {limit : Nat} {waiting : List Pending}

theorem nextItem_fits (name : String) (items : LoopItems) (body : List Node) (index left : Nat)
    {s : State} (hs : Fits limit (.loop name items body index left :: waiting) s.scope) :
    (settle waiting (nextItem name items body index left s)).Fits limit := by
  obtain ⟨hl, hw⟩ := hs
  cases left with
  | zero => exact hw
  | succ left =>
    rw [nextItem, bind_of_ok (modifyScope_apply _ s)]
    let entered := (s.scope.setLocal name (items.item index)).setLocal "forloop"
      (forloop index items.count)
    have hkinds : entered.kinds = s.scope.kinds := by simp [entered]
    have hleft : entered.leaveLoop = s.scope.leaveLoop := by simp [entered]
    have h : Fits limit (.loop name items body (index + 1) left :: waiting) entered :=
      ⟨hkinds ▸ hl, hleft ▸ hw⟩
    exact h

/-- An inclusion is opened only where the depth is below the limit. -/
theorem openInclusion_fits (isolated : Bool) (template : Expr)
    (subject : Option (Expr × Option String)) (bindings : List (String × Expr)) :
    Fitting engine.options.maxIncludeDepth waiting
      (openInclusion engine isolated template subject bindings) := by
  refine .seq (fun _ => rfl) fun v s hs => ?_
  have hhere : here s = (.ok s.scope, s) := rfl
  rw [bind_of_ok hhere]
  split
  · exact hs
  · rename_i hlt
    refine (load_leaves_scope engine v.display).elim
      (P := fun r => (settle waiting r).Fits engine.options.maxIncludeDepth) ?_ ?_
    · intro e t ht
      exact hs.of_eq ht
    · intro included t ht
      refine (params_leaves State.scope engine v.display subject bindings).elim
        (P := fun r => (settle waiting r).Fits engine.options.maxIncludeDepth) ?_ ?_
      · intro e u hu
        exact hs.of_eq (hu.trans ht)
      · intro params u hu
        rw [bind_of_ok (modifyScope_apply _ u), hu.trans ht]
        exact ⟨rfl, rfl, by omega, hs⟩

theorem write_leaves_shape (text : String) : Leaves shape (write text) :=
  shape_of_leaves (write_leaves_scope text)

theorem Fitting.launching (engine : Engine) (limit : Nat) (waiting : List Pending) :
    Launching engine (fun _ => True) (fun x => Leaves shape x) (Fitting limit waiting) where
  toEvalCongruence := Leaves.evaluation shape engine
  chain := .seq
  finish _ := .finish _
  nodes _ := .finish _
  inCapture _ := .go _ fun _ h => h
  inOutline _ _ := .go _ fun _ h => h
  write := write_leaves_shape
  assign := assign_leaves_shape
  openCapture _ := rfl
  closeCapture _ := rfl
  nextCycle _ _ _ := rfl

theorem enter_fits (action : Action) :
    Fitting engine.options.maxIncludeDepth waiting (enter engine action) := by
  apply (Fitting.launching engine _ waiting).enter
  · intro name items body _ s hs
    rw [bind_of_ok (modifyScope_apply _ s)]
    exact nextItem_fits name items body 0 items.count ⟨rfl, hs⟩
  · exact fun _ _ => trivial
  · intro isolated template subject bindings _
    exact openInclusion_fits isolated template subject bindings

theorem resume_fits (p : Pending) (r : Except Error Signal) {s : State}
    (hs : Fits limit (p :: waiting) s.scope) : (settle waiting (resume p r s)).Fits limit := by
  cases p with
  | loop name items body index left =>
    obtain ⟨hl, hw⟩ := hs
    rcases r with e | _ | _ | _
    · exact hw
    · exact nextItem_fits name items body index left ⟨hl, hw⟩
    · exact nextItem_fits name items body index 0 ⟨hl, hw⟩
    · exact nextItem_fits name items body index left ⟨hl, hw⟩
  | inclusion caller =>
    obtain ⟨-, -, -, hw⟩ := hs
    cases r with
    | error e => exact hw
    | ok signal => exact hw
  | rest | place | capture | outline =>
    have hw : Fits limit waiting s.scope := hs
    cases r with
    | error e => exact hw
    | ok signal =>
      refine (Fitting.launching {} limit waiting).resume _ (fun _ _ => trivial) signal ?_ ?_ s hw
      · intro name items body index left h
        cases h
      · intro caller h
        cases h

theorem step_fits {c d : Config} (hc : c.Fits setting.engine.options.maxIncludeDepth)
    (h : step setting c = some d) : d.Fits setting.engine.options.maxIncludeDepth := by
  obtain ⟨control, waiting, s⟩ := c
  have hc : Fits setting.engine.options.maxIncludeDepth waiting s.scope := hc
  cases control with
  | nodes nodes =>
    cases nodes with
    | nil =>
      cases h
      exact hc
    | cons node nodes =>
      cases h
      exact Fitting.seq (shape_of_leaves (check_leaves_scope _)) (fun _ => .go _ fun _ h => h) s hc
  | node node =>
    cases node with
    | text text =>
      cases h
      exact Fitting.seq (write_leaves_shape text) (fun _ => .finish _) s hc
    | output e l =>
      cases h
      exact Fitting.located l ((Fitting.launching _ _ waiting).emit (e := e) trivial) s hc
    | tag isBlock name l action =>
      cases h
      exact hc
  | action action =>
    cases h
    exact enter_fits action s hc
  | done r =>
    cases waiting with
    | nil => cases h
    | cons p waiting =>
      cases h
      exact resume_fits p r hc

/-- Along a run the scope is as what waits tells. -/
theorem Steps.fits {c d : Config} (h : Steps setting c d)
    (hc : c.Fits setting.engine.options.maxIncludeDepth) :
    d.Fits setting.engine.options.maxIncludeDepth := by
  induction h with
  | refl => exact hc
  | tail _ hstep ih => exact step_fits ih hstep

end Render.Machine

end Stencil
