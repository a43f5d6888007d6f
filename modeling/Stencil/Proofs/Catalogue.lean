import Mathlib
import Stencil.Slots
import Stencil.Proofs.Tables

/-!
# A cache is a finite map

Calls of a cache, one after the other, are answered as a plain map from names to templates with
their versions answers them. Loaders run in any monad, so they also run at the same calls and in the same
order: an empty slot, which a failed load leaves, cannot be told from no slot.
-/
namespace Stencil

/-- Templates by name, with the version of those that were put in with one. -/
abbrev Catalogue := Finmap fun _ : String => CacheEntry

/-- What is asked of a cache that loads nothing but what can be loaded at once. -/
abbrev PlainCall := CacheCall Id

section Calls

variable {m : Type → Type} [Monad m]

namespace Catalogue

/-- What was loaded goes into the map, a failure does not. -/
def store (p : Catalogue) (name : String) (version : Option Nat) :
    Except Error Template → CacheAnswer × Catalogue
  | .ok template => (.outcome (.ok template), p.insert name ⟨template, version⟩)
  | .error e => (.outcome (.error e), p)

def call (p : Catalogue) : CacheCall m → m (CacheAnswer × Catalogue)
  | .get name => return (.found ((p.lookup name).map CacheEntry.template), p)
  | .getOrLoad name load =>
    match p.lookup name with
    | some entry => return (.outcome (.ok entry.template), p)
    | none => p.store name none <$> load
  | .insert name template version =>
    return (.outcome (.ok template), p.insert name ⟨template, version⟩)
  | .seed name version compile =>
    match p.lookup name with
    | some entry =>
      if entry.version = some version then return (.outcome (.ok entry.template), p)
      else p.store name (some version) <$> compile
    | none => p.store name (some version) <$> compile
  | .size => return (.count p.keys.card, p)
  | .isEmpty => return (.truth (p.keys = ∅), p)
  | .contains name => return (.truth (name ∈ p), p)

end Catalogue

/-- The cache of an engine, which keeps nothing for a name that could not be loaded. -/
def Cache.call (c : Cache) : PlainCall → Id (CacheAnswer × Cache)
  | .get name => (.found (c.get? name), c)
  | .getOrLoad name load =>
    let (result, c) := c.getOrLoad name fun _ => load
    (.outcome result, c)
  | .insert name template version => (.outcome (.ok template), c.insert name template version)
  | .seed name version compile =>
    let (result, c) := c.seed name version fun _ => compile
    (.outcome result, c)
  | .size => (.count c.size, c)
  | .isEmpty => (.truth (c.size == 0), c)
  | .contains name => (.truth (c.contains name), c)

/-- The answers to calls that are made one after the other. -/
def answers {σ : Type} (call : σ → CacheCall m → m (CacheAnswer × σ)) (s : σ) :
    List (CacheCall m) → m (List CacheAnswer)
  | [] => return []
  | asked :: later => do
    let (answer, s) ← call s asked
    return answer :: (← answers call s later)

end Calls

section Refinement

variable {m : Type → Type} [Monad m] {σ τ : Type} {R : σ → τ → Prop}

/-- Two computations that do the same, answer the same and leave related states. -/
def InStep (R : σ → τ → Prop) (x : m (CacheAnswer × σ)) (y : m (CacheAnswer × τ)) : Prop :=
  ∀ (β : Type) (f : CacheAnswer × σ → m β) (g : CacheAnswer × τ → m β),
    (∀ answer s t, R s t → f (answer, s) = g (answer, t)) → x >>= f = y >>= g

namespace InStep

theorem ret [LawfulMonad m] {s : σ} {t : τ} (answer : CacheAnswer) (h : R s t) :
    InStep R (return (answer, s) : m (CacheAnswer × σ)) (return (answer, t)) := by
  intro β f g hfg
  rw [pure_bind, pure_bind]
  exact hfg answer s t h

/-- Both run the same load, and go on alike with what it gives. -/
theorem load [LawfulMonad m] {α : Type} {x : m α} {f : α → m (CacheAnswer × σ)}
    {g : α → m (CacheAnswer × τ)} (h : ∀ a, InStep R (f a) (g a)) : InStep R (x >>= f) (x >>= g) := by
  intro β k l hkl
  rw [bind_assoc, bind_assoc]
  exact bind_congr fun a => h a β k l hkl

/-- If single calls keep step, so do any number of them. -/
theorem answers_eq {call : σ → CacheCall m → m (CacheAnswer × σ)}
    {spec : τ → CacheCall m → m (CacheAnswer × τ)}
    (hcall : ∀ {s t}, R s t → ∀ asked, InStep R (call s asked) (spec t asked)) {s : σ} {t : τ}
    (h : R s t) (calls : List (CacheCall m)) : answers call s calls = answers spec t calls := by
  induction calls generalizing s t with
  | nil => rfl
  | cons asked later ih =>
    refine hcall h asked _ _ _ fun answer s' t' h' => ?_
    simp only [ih h']

end InStep

/-- A map has as many keys as there are names for what it holds. -/
theorem Catalogue.card_keys {p : Catalogue} {names : List String} (hnodup : names.Nodup)
    (h : ∀ name, name ∈ names ↔ (p.lookup name).isSome) : p.keys.card = names.length := by
  have hkeys : p.keys = names.toFinset := by
    ext name
    rw [Finmap.mem_keys, List.mem_toFinset, h, Finmap.lookup_isSome]
  rw [hkeys, List.toFinset_card_of_nodup hnodup]

theorem Catalogue.lookup_insert (p : Catalogue) (name other : String) (entry : CacheEntry) :
    (p.insert name entry).lookup other = if other = name then some entry else p.lookup other := by
  split
  · rename_i h
    rw [h, Finmap.lookup_insert]
  · rename_i h
    exact Finmap.lookup_insert_of_ne p h

/-- Slots with the templates of a map, each name once. -/
structure Slots.Represents (c : Slots) (p : Catalogue) : Prop where
  sorted : Table.Sorted c.slots
  entry : ∀ name, c.entry? name = p.lookup name

namespace Slots.Represents

variable {c : Slots} {p : Catalogue}

theorem empty : Represents {} ∅ where
  sorted := List.Pairwise.nil
  entry name := by
    rw [Finmap.lookup_empty]
    rfl

theorem fill (h : c.Represents p) (name : String) (entry : CacheEntry) :
    (c.fill name entry).Represents (p.insert name entry) where
  sorted := h.sorted.insert name (some entry)
  entry other := by
    rw [Catalogue.lookup_insert, ← h.entry, entry?, Slots.fill, Table.find?_insert]
    split <;> rfl

/-- A new slot is empty, so it stands for no template. -/
theorem reserve (h : c.Represents p) (name : String) : (c.reserve name).Represents p := by
  rw [Slots.reserve]
  split
  · exact h
  · rename_i hnew
    refine ⟨h.sorted.insert name none, fun other => ?_⟩
    rw [← h.entry, entry?, entry?, Table.find?_insert]
    split
    · rename_i hsame
      have hnone : Table.find? name c.slots = none := by
        simpa [Table.contains] using hnew
      rw [hsame, hnone]
      rfl
    · rfl

theorem size (h : c.Represents p) : c.size = p.keys.card := by
  have hsub : List.Sublist ((c.slots.filter fun slot => slot.2.isSome).map Prod.fst)
      (Table.keys c.slots) := List.filter_sublist.map Prod.fst
  have hnodup : (Table.keys c.slots).Nodup := h.sorted.imp ne_of_lt
  rw [Catalogue.card_keys (hnodup.sublist hsub), List.length_map, Slots.size]
  intro name
  simp only [← h.entry, entry?, List.mem_map, List.mem_filter, Option.isSome_iff_exists,
    Option.join_eq_some_iff, h.sorted.find?_eq_some]
  constructor
  · rintro ⟨⟨_, slot⟩, ⟨hmem, entry, hslot⟩, rfl⟩
    exact ⟨entry, hslot ▸ hmem⟩
  · rintro ⟨entry, hmem⟩
    exact ⟨_, ⟨hmem, entry, rfl⟩, rfl⟩

theorem put [LawfulMonad m] (h : c.Represents p) (name : String) (version : Option Nat)
    (make : m (Except Error Template)) :
    InStep Represents
      (do
        let (result, c) ← c.put name version make
        return (.outcome result, c))
      (p.store name version <$> make) := by
  simp only [Slots.put, bind_assoc, map_eq_pure_bind]
  refine .load fun result => ?_
  cases result with
  | ok template =>
    rw [pure_bind]
    exact .ret _ (h.fill name ⟨template, version⟩)
  | error e =>
    rw [pure_bind]
    exact .ret _ h

theorem call [LawfulMonad m] (h : c.Represents p) (asked : CacheCall m) :
    InStep Represents (c.call asked) (p.call asked) := by
  cases asked with
  | get name =>
    simp only [Slots.call, Catalogue.call, get?, h.entry]
    exact .ret _ h
  | getOrLoad name load =>
    have h' := h.reserve name
    simp only [Slots.call, Catalogue.call, getOrLoad, get?, h'.entry]
    cases p.lookup name with
    | some entry =>
      simp only [Option.map_some, pure_bind]
      exact .ret _ h'
    | none => exact h'.put name none load
  | insert name template version => exact .ret _ (h.fill name ⟨template, version⟩)
  | seed name version compile =>
    simp only [Slots.call, Catalogue.call, seed, h.entry]
    cases p.lookup name with
    | none => exact h.put name (some version) compile
    | some entry =>
      by_cases hversion : entry.version = some version
      · simp only [Option.filter_some, hversion, decide_true, if_true, pure_bind]
        exact .ret _ h
      · simp only [Option.filter_some, hversion, decide_false, Bool.false_eq_true, if_false]
        exact h.put name (some version) compile
  | size =>
    simp only [Slots.call, Catalogue.call, h.size]
    exact .ret _ h
  | isEmpty =>
    simp only [Slots.call, Catalogue.call, isEmpty, h.size, ← Finset.card_eq_zero]
    exact .ret _ h
  | contains name =>
    simp only [Slots.call, Catalogue.call, contains, get?, h.entry, ← Finmap.lookup_isSome,
      Option.isSome_map, Bool.decide_eq_true]
    exact .ret _ h

end Slots.Represents

namespace Cache

variable {c : Cache} {p : Catalogue}

/-- A slot for each name, all of them filled. -/
def slots (c : Cache) : Slots := ⟨Table.mapValues some c.entries⟩

theorem slots_entry? (c : Cache) (name : String) : c.slots.entry? name = c.entry? name := by
  rw [slots, Slots.entry?, Table.find?_mapValues, entry?]
  cases Table.find? name c.entries <;> rfl

theorem slots_insert (c : Cache) (name : String) (template : Template) (version : Option Nat) :
    (c.insert name template version).slots = c.slots.fill name ⟨template, version⟩ :=
  congrArg Slots.mk (Table.insert_mapValues some name _ c.entries).symm

theorem slots_size (c : Cache) : c.slots.size = c.size := by
  simp [slots, Slots.size, size, Table.mapValues, List.filter_map]

theorem call_inStep (h : c.slots.Represents p) (asked : PlainCall) :
    InStep (fun c p => c.slots.Represents p) (c.call asked) (p.call asked) := by
  have hentry (name : String) : c.entry? name = p.lookup name := by
    rw [← c.slots_entry?, h.entry]
  have hinsert (name : String) (template : Template) (version : Option Nat) :
      (c.insert name template version).slots.Represents (p.insert name ⟨template, version⟩) := by
    rw [slots_insert]
    exact h.fill name ⟨template, version⟩
  cases asked with
  | get name =>
    simp only [call, Catalogue.call, get?, hentry]
    exact .ret _ h
  | getOrLoad name load =>
    simp only [call, Catalogue.call, getOrLoad, get?, hentry]
    cases p.lookup name with
    | some entry => exact .ret _ h
    | none =>
      cases load with
      | ok template => exact .ret _ (hinsert name template none)
      | error e => exact .ret _ h
  | insert name template version => exact .ret _ (hinsert name template version)
  | seed name version compile =>
    have hput : InStep (fun c p => c.slots.Represents p)
        (let (result, c) := seed.replace name version c compile
         pure (CacheAnswer.outcome result, c))
        (p.store name (some version) <$> compile) := by
      cases compile with
      | ok template => exact .ret _ (hinsert name template (some version))
      | error e => exact .ret _ h
    simp only [call, Catalogue.call, seed, hentry]
    cases p.lookup name with
    | none => exact hput
    | some entry =>
      by_cases hversion : entry.version = some version
      · simp only [hversion, if_true]
        exact .ret _ h
      · simp only [hversion, if_false]
        exact hput
  | size =>
    simp only [call, Catalogue.call, ← h.size, slots_size]
    exact .ret _ h
  | isEmpty =>
    simp only [call, Catalogue.call, ← Finset.card_eq_zero, ← h.size, slots_size]
    exact .ret _ h
  | contains name =>
    simp only [call, Catalogue.call, contains, get?, hentry, ← Finmap.lookup_isSome,
      Option.isSome_map, Bool.decide_eq_true]
    exact .ret _ h

end Cache

/-- Whatever is asked of a cache, the answers are those of a finite map, with the same loads in the
same order. The cache of an engine, which keeps no empty slots, gives the same answers. -/
theorem cache_answers [LawfulMonad m] (calls : List (CacheCall m)) (plain : List PlainCall) :
    answers Slots.call {} calls = answers Catalogue.call ∅ calls ∧
      answers Cache.call {} plain = answers Catalogue.call ∅ plain :=
  ⟨InStep.answers_eq Slots.Represents.call .empty calls,
    InStep.answers_eq (s := {}) Cache.call_inStep .empty plain⟩

/-- Loads that are counted: one that fails is tried again, one that succeeds is not, and a failure
to replace a template leaves it. -/
theorem cache_answers_counted :
    let template : Template := ⟨[], ⟨"A", none⟩⟩
    let e : Error := ⟨.store "a" .notFound, none⟩
    let load : StateM Nat (Except Error Template) := modify (· + 1) *> return .ok template
    let fail : StateM Nat (Except Error Template) := modify (· + 1) *> return .error e
    let calls : List (CacheCall (StateM Nat)) := [.getOrLoad "a" fail, .isEmpty,
      .getOrLoad "a" load, .getOrLoad "a" fail, .seed "a" 1 fail, .get "a", .size]
    let plain : List PlainCall := [.seed "a" 1 (.ok template), .seed "a" 1 (.error e), .size]
    (answers Slots.call {} calls).run 0 = ([.outcome (.error e), .truth true,
        .outcome (.ok template), .outcome (.ok template), .outcome (.error e),
        .found (some template), .count 1], 3) ∧
      answers Slots.call {} calls = answers Catalogue.call ∅ calls ∧
      answers Cache.call {} plain = answers Catalogue.call ∅ plain := by
  intro template e load fail calls plain
  exact ⟨rfl, cache_answers calls plain⟩

end Refinement

end Stencil
