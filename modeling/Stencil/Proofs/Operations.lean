import Stencil.Engine
import Stencil.Proofs.Loading

/-!
# Sequences of operations

What becomes of the names in a cache under whatever is done with an engine. A name that is cached
stays so, and no store is asked for it again. Its template is only replaced by one that compiled and
came with another version.
-/
namespace Stencil

inductive Operation where
  | seed (name : String) (version : Nat) (bytes : ByteArray)
  | load (name : String)
  | render (template : Template) (bindings : Bindings) (sink : Sink) (interrupt : Interrupt)
  | put (name : String) (bytes : ByteArray)
  | useStore (store : Store)

namespace Operation

def perform : Operation → Session → Session
  | .seed name version bytes, s => (s.seed name version bytes).2
  | .load name, s => (s.load name).2
  | .render template bindings sink interrupt, s => (s.render template bindings sink interrupt).2
  | .put name bytes, s => s.put name bytes
  | .useStore store, s => s.useStore store

def Fails : Operation → Session → Prop
  | .seed name version bytes, s => ∃ e, (s.seed name version bytes).1 = .error e
  | .load name, s => ∃ e, (s.load name).1 = .error e
  | .render template bindings sink interrupt, s =>
    ∃ e, (s.render template bindings sink interrupt).1.1 = .error e
  | .put _ _, _ => False
  | .useStore _, _ => False

end Operation

namespace Session

/-- What an operation that asks the store for `read` may make of the entry of a name. -/
inductive Change (s : Session) (op : Operation) (read : List String) (name : String) :
    Option CacheEntry → Prop where
  | kept : Change s op read name (s.cache.entry? name)
  | loaded {t : Template} : s.cache.entry? name = none → name ∈ read →
    s.engine.fetch name = .ok t → Change s op read name (some ⟨t, none⟩)
  | seeded {version : Nat} {bytes : ByteArray} {t : Template} :
    op = .seed name version bytes → ¬ op.Fails s →
    (∀ entry, s.cache.entry? name = some entry → entry.version ≠ some version) →
    Template.compileBytes s.engine.grammar (.seeded s.seeds) (some name) bytes = .ok t →
    Change s op read name (some ⟨t, some version⟩)

/-- What an operation does to a session: names that the store is asked for are not cached, those
that it has are asked for once, and entries change as they may. -/
structure Effect (op : Operation) (s : Session) (read : List String) (t : Session) : Prop where
  reads : t.reads = read ++ s.reads
  missing : ∀ name ∈ read, s.cache.contains name = false
  once : ∀ name template, s.engine.fetch name = .ok template → read.count name ≤ 1
  entries : ∀ name, Change s op read name (t.cache.entry? name)

theorem Effect.of_loads {op : Operation} {s t : Session}
    (h : Render.Loads s.engine (s.cache, s.reads) (t.cache, t.reads)) :
    ∃ read, Effect op s read t := by
  obtain ⟨read, hreads, hgrown⟩ := h.grown
  refine ⟨read, hreads, fun name hmem => Cache.contains_eq_false_iff.mpr (hgrown.missing name hmem),
    hgrown.once, fun name => ?_⟩
  rcases hgrown.entries name with hsame | ⟨hnone, hmem, template, hfetch, hentry⟩
  · rw [hsame]
    exact .kept
  · rw [hentry]
    exact .loaded hnone hmem hfetch

theorem Effect.of_cache_eq {op : Operation} {s t : Session} (hc : t.cache = s.cache)
    (hr : t.reads = s.reads) : Effect op s [] t where
  reads := hr
  missing _ h := (List.not_mem_nil h).elim
  once _ _ _ := Nat.zero_le 1
  entries name := by
    rw [hc]
    exact .kept

/-- A template is seeded, or it was there in that version, or it did not compile. -/
theorem seed_cases (name : String) (version : Nat) (bytes : ByteArray) (s : Session) :
    let compiled := Template.compileBytes s.engine.grammar (.seeded s.seeds) (some name) bytes
    let next : Session := { s with seeds := s.seeds + 1 }
    (∃ entry, s.cache.entry? name = some entry ∧ entry.version = some version ∧
      s.seed name version bytes = (.ok entry.template, next)) ∨
    ((∀ entry, s.cache.entry? name = some entry → entry.version ≠ some version) ∧
      ((∃ t, compiled = .ok t ∧ s.seed name version bytes =
          (.ok t, { next with cache := s.cache.insert name t (some version) })) ∨
      ∃ e, compiled = .error e ∧ s.seed name version bytes = (.error e, next))) := by
  intro compiled next
  have hseed : s.seed name version bytes =
      ((s.cache.seed name version fun _ => compiled).1,
        { next with cache := (s.cache.seed name version fun _ => compiled).2 }) := rfl
  clear_value compiled
  rw [hseed]
  by_cases hcurrent : ∃ entry, s.cache.entry? name = some entry ∧ entry.version = some version
  · obtain ⟨entry, hentry, hversion⟩ := hcurrent
    refine .inl ⟨entry, hentry, hversion, ?_⟩
    simp only [Cache.seed, hentry, if_pos hversion]
    rfl
  · have hother : ∀ entry, s.cache.entry? name = some entry → entry.version ≠ some version :=
      fun entry hentry hversion => hcurrent ⟨entry, hentry, hversion⟩
    -- a name that is not there and one in another version are compiled alike
    have hreplace : s.cache.seed name version (fun _ => compiled) =
        Cache.seed.replace name version s.cache compiled := by
      simp only [Cache.seed]
      cases hentry : s.cache.entry? name with
      | none => rfl
      | some entry => exact if_neg (hother entry hentry)
    rw [hreplace]
    refine .inr ⟨hother, ?_⟩
    cases compiled with
    | ok t => exact .inl ⟨t, rfl, rfl⟩
    | error e => exact .inr ⟨e, rfl, rfl⟩

theorem seed_effect (name : String) (version : Nat) (bytes : ByteArray) (s : Session) :
    Effect (.seed name version bytes) s [] (s.seed name version bytes).2 := by
  rcases s.seed_cases name version bytes with
    ⟨entry, -, -, hseed⟩ | ⟨hother, ⟨t, hcompile, hseed⟩ | ⟨e, -, hseed⟩⟩
  · rw [hseed]
    exact .of_cache_eq rfl rfl
  · have hgood : ¬ (Operation.seed name version bytes).Fails s := by
      rintro ⟨e, he⟩
      rw [hseed] at he
      cases he
    rw [hseed]
    refine ⟨rfl, fun _ h => (List.not_mem_nil h).elim, fun _ _ _ => Nat.zero_le 1, fun other => ?_⟩
    by_cases heq : other = name
    · subst heq
      rw [Cache.entry?_insert_self]
      exact .seeded rfl hgood hother hcompile
    · rw [Cache.entry?_insert_of_ne heq]
      exact .kept
  · rw [hseed]
    exact .of_cache_eq rfl rfl

theorem load_loads (name : String) (s : Session) :
    Render.Loads s.engine (s.cache, s.reads) ((s.load name).2.cache, (s.load name).2.reads) :=
  Render.OnlyLoads.load s.engine name (s.start [] {})

theorem render_loads (template : Template) (bindings : Bindings) (sink : Sink)
    (interrupt : Interrupt) (s : Session) :
    Render.Loads s.engine (s.cache, s.reads)
      ((s.render template bindings sink interrupt).2.cache,
        (s.render template bindings sink interrupt).2.reads) :=
  Render.OnlyLoads.template s.engine interrupt template (s.start bindings sink)

theorem perform_effect (op : Operation) (s : Session) : ∃ read, Effect op s read (op.perform s) := by
  cases op with
  | seed name version bytes => exact ⟨[], s.seed_effect name version bytes⟩
  | load name => exact Effect.of_loads (s.load_loads name)
  | render template bindings sink interrupt =>
    exact Effect.of_loads (s.render_loads template bindings sink interrupt)
  | put name bytes | useStore store => exact ⟨[], .of_cache_eq rfl rfl⟩

namespace Effect

variable {op : Operation} {s t : Session} {read : List String}

theorem contains (h : Effect op s read t) {name : String} (hc : s.cache.contains name = true) :
    t.cache.contains name = true := by
  obtain ⟨entry, hentry⟩ := Cache.contains_iff.mp hc
  have hchange := h.entries name
  rw [Cache.contains_iff]
  cases hnext : t.cache.entry? name with
  | some next => exact ⟨next, rfl⟩
  | none =>
    rw [hnext] at hchange
    -- no change makes an entry go away
    generalize hnone : none = left at hchange
    cases hchange with
    | kept =>
      rw [hentry] at hnone
      cases hnone
    | loaded | seeded => cases hnone

theorem not_mem (h : Effect op s read t) {name : String} (hc : s.cache.contains name = true) :
    name ∉ read := by
  intro hmem
  rw [h.missing name hmem] at hc
  cases hc

end Effect

def performAll (ops : List Operation) (s : Session) : Session :=
  ops.foldl (fun s op => op.perform s) s

/-- What is cached stays so and is not asked for again, whatever is done. -/
theorem performAll_contains {name : String} (ops : List Operation) {s : Session}
    (h : s.cache.contains name = true) :
    (s.performAll ops).cache.contains name = true ∧
      ∃ read, (s.performAll ops).reads = read ++ s.reads ∧ name ∉ read := by
  induction ops generalizing s with
  | nil => exact ⟨h, [], rfl, List.not_mem_nil⟩
  | cons op ops ih =>
    obtain ⟨first, heffect⟩ := s.perform_effect op
    obtain ⟨hcontains, later, hlater, hmem⟩ := ih (heffect.contains h)
    refine ⟨hcontains, later ++ first, ?_, ?_⟩
    · rw [List.append_assoc, ← heffect.reads]
      exact hlater
    · rw [List.mem_append]
      exact fun hor => hor.elim hmem (heffect.not_mem h)

/-- A template that does not come, or does not compile, leaves no trace in the cache. -/
theorem cache_of_fails {op : Operation} {s : Session} (h : op.Fails s)
    (hop : ∀ template bindings sink interrupt, op ≠ .render template bindings sink interrupt) :
    (op.perform s).cache = s.cache := by
  cases op with
  | seed name version bytes =>
    obtain ⟨e, he⟩ := h
    rcases s.seed_cases name version bytes with
      ⟨entry, -, -, hseed⟩ | ⟨-, ⟨t, -, hseed⟩ | ⟨e', -, hseed⟩⟩
    · simp only [Operation.perform, hseed]
    · rw [hseed] at he
      cases he
    · simp only [Operation.perform, hseed]
  | load name =>
    obtain ⟨e, he⟩ := h
    simp only [Session.load] at he
    rcases Render.load_cases s.engine name (s.start [] {}) with
      ⟨t, -, hload⟩ | ⟨t, -, -, hload⟩ | ⟨e', -, -, hload⟩
    · simp only [Operation.perform, Session.load, hload]
      rfl
    · rw [hload] at he
      cases he
    · simp only [Operation.perform, Session.load, hload]
      rfl
  | render template bindings sink interrupt => exact absurd rfl (hop _ _ _ _)
  | put name bytes | useStore store => exact h.elim

theorem get?_of_load {s : Session} {name : String} {t : Template}
    (h : (s.load name).1 = .ok t) : (s.load name).2.cache.get? name = some t := by
  simp only [Session.load] at h ⊢
  rcases Render.load_cases s.engine name (s.start [] {}) with
    ⟨u, hget, hload⟩ | ⟨u, -, -, hload⟩ | ⟨e, -, -, hload⟩
  · rw [hload] at h ⊢
    cases h
    exact hget
  · rw [hload] at h ⊢
    cases h
    exact congrArg (Option.map CacheEntry.template) Cache.entry?_insert_self
  · rw [hload] at h
    cases h

theorem get?_of_seed {s : Session} {name : String} {version : Nat} {bytes : ByteArray}
    {t : Template} (h : (s.seed name version bytes).1 = .ok t) :
    Cache.entry? (s.seed name version bytes).2.cache name = some ⟨t, some version⟩ := by
  rcases s.seed_cases name version bytes with
    ⟨entry, hentry, hversion, hseed⟩ | ⟨-, ⟨u, -, hseed⟩ | ⟨e, -, hseed⟩⟩
  · rw [hseed] at h ⊢
    cases h
    rw [← hversion]
    exact hentry
  · rw [hseed] at h ⊢
    cases h
    exact Cache.entry?_insert_self
  · rw [hseed] at h
    cases h

/-- Whatever was done with an engine, what is cached stays cached and no store is asked for it. One
operation more changes entries only as it may, and if it fails without rendering, none of them. What
was loaded or seeded is what the cache has from then on. -/
theorem performAll_effect (s : Session) (ops : List Operation) :
    (∀ name, s.cache.contains name = true →
      (s.performAll ops).cache.contains name = true ∧
        ∃ read, (s.performAll ops).reads = read ++ s.reads ∧ name ∉ read) ∧
    ∀ op,
      let u := s.performAll ops
      let t := op.perform u
      (∃ read, Effect op u read t) ∧
      (op.Fails u →
        (∀ template bindings sink interrupt, op ≠ .render template bindings sink interrupt) →
        t.cache = u.cache) ∧
      (∀ name template, op = .load name → (u.load name).1 = .ok template →
        t.cache.get? name = some template) ∧
      ∀ name version bytes template, op = .seed name version bytes →
        (u.seed name version bytes).1 = .ok template →
        t.cache.entry? name = some ⟨template, some version⟩ := by
  refine ⟨fun name h => performAll_contains ops h, fun op => ?_⟩
  refine ⟨perform_effect op _, cache_of_fails, ?_, ?_⟩
  · rintro name template rfl h
    exact get?_of_load h
  · rintro name version bytes template rfl h
    exact get?_of_seed h

/-- A cached template is served without a store, and one that is not there is asked for again. -/
theorem performAll_effect_without_store :
    let s : Session := { engine := {}, cache := ⟨[("a", ⟨⟨[], ⟨"", none⟩⟩, none⟩)]⟩ }
    let u : Session := s.performAll [.load "b", .load "a"]
    s.cache.contains "a" = true ∧ u.reads = ["b"] ∧ u.cache.contains "a" = true ∧
      (Operation.load "b").Fails u ∧ ((Operation.load "b").perform u).cache = u.cache := by
  intro s u
  have hcontains : s.cache.contains "a" = true := by cbv
  have hreads : u.reads = ["b"] := by cbv
  have hfails : (Operation.load "b").Fails u := ⟨⟨.store "b" .notFound, none⟩, by cbv⟩
  have h := performAll_effect s [.load "b", .load "a"]
  refine ⟨hcontains, hreads, (h.1 "a" hcontains).1, hfails, ?_⟩
  exact (h.2 (.load "b")).2.1 hfails fun _ _ _ _ heq => by cases heq

end Session

end Stencil
