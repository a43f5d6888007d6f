import Stencil.Engine
import Stencil.Proofs.Loading
import Stencil.Proofs.Reachable

/-!
# Renders of a session

A render of a session is the run of a machine from the nodes of its template, and a flush. Whatever
was done with the session before, its cache holds what the grammar of its engine compiles to.
-/
namespace Stencil

/-- What compiles from bytes, compiles from the text that they spell. -/
theorem Template.compile_of_compileBytes {g : Grammar} {origin : Origin} {name : Option String}
    {bytes : ByteArray} {t : Template} (h : compileBytes g origin name bytes = .ok t) :
    ∃ text, compile g origin ⟨text, name⟩ = .ok t := by
  simp only [compileBytes] at h
  split at h
  · exact ⟨_, h⟩
  · cases h

/-- The sessions of an engine with a grammar, whatever was done with it so far. -/
inductive Session.Reached (g : Grammar) : Session → Prop where
  | fresh {engine : Engine} : engine.grammar = g → Reached g { engine }
  | seed (name : String) (version : Nat) (bytes : ByteArray) {s : Session} :
    Reached g s → Reached g (s.seed name version bytes).2
  | load (name : String) {s : Session} : Reached g s → Reached g (s.load name).2
  | render (template : Template) (bindings : Bindings) (sink : Sink) (interrupt : Interrupt)
    {s : Session} : Reached g s → Reached g (s.render template bindings sink interrupt).2
  | put (name : String) (bytes : ByteArray) {s : Session} :
    Reached g s → Reached g (s.put name bytes)
  | useStore (store : Store) {s : Session} : Reached g s → Reached g (s.useStore store)

/-- What holds of all templates that compile, holds of those in the cache of a session, whatever was
done with it so far. -/
theorem Session.Reached.all {g : Grammar} {P : String → Template → Prop} {s : Session}
    (hP : ∀ name origin text t, Template.compile g origin ⟨text, some name⟩ = .ok t → P name t)
    (h : s.Reached g) : s.engine.grammar = g ∧ s.cache.All P := by
  have hfetch {engine : Engine} (hg : engine.grammar = g) (name : String) (t : Template)
      (hfetch : engine.fetch name = .ok t) : P name t := by
    obtain ⟨text, hcompile⟩ := Engine.compile_of_fetch hfetch
    exact hP name (.stored name) text t (hg ▸ hcompile)
  induction h with
  | fresh hengine => exact ⟨hengine, .empty P⟩
  | @seed name version bytes s _ ih =>
    obtain ⟨hg, hcache⟩ := ih
    have hseed : (s.cache.seed name version fun _ =>
        Template.compileBytes s.engine.grammar (.seeded s.seeds) (some name) bytes).2.All P := by
      refine hcache.seed version fun t ht => ?_
      obtain ⟨text, hcompile⟩ := Template.compile_of_compileBytes ht
      exact hP name _ text t (hg ▸ hcompile)
    exact ⟨hg, hseed⟩
  | @load name s _ ih =>
    obtain ⟨hg, hcache⟩ := ih
    exact ⟨hg, (Render.OnlyLoads.load s.engine name (s.start [] {})).all (hfetch hg) hcache⟩
  | @render template bindings sink interrupt s _ ih =>
    obtain ⟨hg, hcache⟩ := ih
    have hloads := Render.OnlyLoads.template s.engine interrupt template (s.start bindings sink)
    exact ⟨hg, hloads.all (hfetch hg) hcache⟩
  | put _ _ _ ih => exact ih
  | useStore _ _ ih => exact ih

theorem Session.Reached.grammar {g : Grammar} {s : Session} (h : s.Reached g) :
    s.engine.grammar = g :=
  (h.all (P := fun _ _ => True) fun _ _ _ _ _ => trivial).1

namespace Render

/-- The outcome of a render whose run ends so. -/
def outcome (r : Except Error Signal) (k : Sink) : Except Error Unit × Sink :=
  (match r with
    | .ok _ => k.flush.mapError (⟨.output ·, none⟩)
    | .error e => .error e, k)

variable {session : Session} {template : Template} {bindings : Bindings} {interrupt : Interrupt}

theorem render_of_run {k : Sink} {r : Except Error Signal} {t : State}
    (h : run ⟨session.engine, interrupt⟩ template.nodes (session.start bindings k) = (r, t)) :
    (session.render template bindings k interrupt).1 = outcome r t.sink := by
  simp only [Session.render, Render.template]
  rw [discard_eq_bind, bind_apply, bind_apply, h]
  rcases r with e | signal
  · rfl
  · rfl

theorem Machine.start_fits (limit : Nat) (session : Session) (nodes : List Node)
    (bindings : Bindings) (sink : Sink) :
    (Machine.start nodes (session.start bindings sink)).Fits limit := ⟨rfl, rfl⟩

end Render

end Stencil
