import Stencil.Render.Run

/-!
# Laws of steps

What a step of a render does to a state, equation by equation. A step that fails leaves its state to
the steps around it, so every law speaks of the state that is left as well as of the result.
-/
namespace Stencil.Render

variable {α β γ : Type}

@[simp] theorem pure_apply (a : α) (s : State) : (pure a : Render α) s = (.ok a, s) := rfl

@[simp] theorem throw_apply (e : Error) (s : State) :
    (throw e : Render α) s = (.error e, s) := rfl

theorem bind_apply (x : Render α) (f : α → Render β) (s : State) :
    (x >>= f) s = match x s with
      | (.ok a, t) => f a t
      | (.error e, t) => (.error e, t) := by
  change ExceptT.bindCont f (x s).1 (x s).2 = _
  rcases x s with ⟨_ | _, t⟩ <;> rfl

theorem bind_of_ok {x : Render α} {s t : State} {a : α} (h : x s = (.ok a, t))
    (f : α → Render β) : (x >>= f) s = f a t := by rw [bind_apply, h]

theorem bind_of_error {x : Render α} {s t : State} {e : Error} (h : x s = (.error e, t))
    (f : α → Render β) : (x >>= f) s = (.error e, t) := by rw [bind_apply, h]

/-- What holds where `x` fails, and where `f` goes on after it, holds of both together. -/
theorem bind_elim {P : Except Error β × State → Prop} {x : Render α} {f : α → Render β} {s : State}
    (herror : ∀ e t, x s = (.error e, t) → P (.error e, t))
    (hok : ∀ a t, x s = (.ok a, t) → P (f a t)) : P ((x >>= f) s) := by
  rcases hx : x s with ⟨e | a, t⟩
  · rw [bind_of_error hx]
    exact herror e t hx
  · rw [bind_of_ok hx]
    exact hok a t hx

theorem discard_eq_bind (x : Render α) : discard x = x >>= fun _ => (pure () : Render Unit) := rfl

@[simp] theorem eval_apply (engine : Engine) (e : Expr) (s : State) :
    eval engine e s = (e.eval (engine.environment s.scope), s) := rfl

@[simp] theorem liftExcept_apply (r : Except Error α) (s : State) :
    (liftExcept r : Render α) s = (r, s) := rfl

@[simp] theorem modifyScope_apply (f : Scope → Scope) (s : State) :
    modifyScope f s = (.ok (), { s with scope := f s.scope }) := rfl

theorem locatedAt_of_ok {x : Render α} {s t : State} {a : α} (l : Location)
    (h : x s = (.ok a, t)) : locatedAt l x s = (.ok a, t) := by
  rw [locatedAt, h]
  rfl

theorem locatedAt_of_error {x : Render α} {s t : State} {e : Error} (l : Location)
    (h : x s = (.error e, t)) : locatedAt l x s = (.error (e.locatedAt l), t) := by
  rw [locatedAt, h]
  rfl

/-- What a render has loaded so far. -/
def memory (s : State) : Cache × List String := (s.cache, s.reads)

/-- A template is in the cache, or it is read from the store, where it compiles or fails. -/
theorem load_cases (engine : Engine) (name : String) (s : State) :
    (∃ t, s.cache.get? name = some t ∧ load engine name s = (.ok t, s)) ∨
    (∃ t, s.cache.get? name = none ∧ engine.fetch name = .ok t ∧ load engine name s =
      (.ok t, { s with cache := s.cache.insert name t none, reads := name :: s.reads })) ∨
    ∃ e, s.cache.get? name = none ∧ engine.fetch name = .error e ∧
      load engine name s = (.error e, { s with reads := name :: s.reads }) := by
  cases hget : s.cache.get? name with
  | some t => exact .inl ⟨t, rfl, by simp [load, Cache.getOrLoad, Cache.contains, hget]⟩
  | none =>
    cases hfetch : engine.fetch name with
    | ok t =>
      exact .inr (.inl ⟨t, rfl, rfl, by simp [load, Cache.getOrLoad, Cache.contains, hget, hfetch]⟩)
    | error e =>
      exact .inr (.inr ⟨e, rfl, rfl, by simp [load, Cache.getOrLoad, Cache.contains, hget, hfetch]⟩)

/-- A step that leaves what `f` sees of a state as it was. -/
def Leaves (f : State → γ) (x : Render α) : Prop := ∀ s, f (x s).2 = f s

theorem Leaves.ret (f : State → γ) (a : α) : Leaves f (pure a : Render α) := fun _ => rfl

/-- What comes after a step sees what the step has left. -/
theorem Leaves.elim {P : Except Error β × State → Prop} {f : State → γ} {x : Render α}
    {g : α → Render β} {s : State} (hx : Leaves f x)
    (herror : ∀ e t, f t = f s → P (.error e, t)) (hok : ∀ a t, f t = f s → P (g a t)) :
    P ((x >>= g) s) := by
  have h := hx s
  apply bind_elim
  · intro e t he
    rw [he] at h
    exact herror e t h
  · intro a t ha
    rw [ha] at h
    exact hok a t h

theorem Leaves.seq {f : State → γ} {x : Render α} {g : α → Render β} (hx : Leaves f x)
    (hg : ∀ a, Leaves f (g a)) : Leaves f (x >>= g) := fun s =>
  hx.elim (P := fun r => f r.2 = f s) (fun _ _ h => h) fun a t h => (hg a t).trans h

/-- After a step that changes nothing, only what is done in the same state counts. -/
theorem Leaves.bind_congr {x : Render α} {f g : α → Render β} {s : State} (hx : Leaves id x)
    (h : ∀ a, f a s = g a s) : (x >>= f) s = (x >>= g) s := by
  have hs : (x s).2 = s := hx s
  rcases hr : x s with ⟨e | a, t⟩
  · rw [bind_of_error hr, bind_of_error hr]
  · rw [hr] at hs
    obtain rfl : t = s := hs
    rw [bind_of_ok hr, bind_of_ok hr]
    exact h a

theorem write_leaves {f : State → γ}
    (h : ∀ (s : State) captures sink, f { s with captures, sink } = f s) (text : String) :
    Leaves f (write text) := by
  intro s
  rcases hc : s.captures with _ | ⟨buffer, captures⟩
  · simp only [write, hc]
    exact h s [] (s.sink.write text).2
  · simp only [write, hc]
    exact h s ((buffer ++ text) :: captures) s.sink

end Stencil.Render
