import Mathlib
import Stencil.Proofs.Results
import Stencil.Proofs.Scopes

/-!
# What a render loads

A render asks the store only for names that the cache does not hold, one after the other, and keeps
each template that it gets. So what the cache holds stays as it is, and what a name stands for, in
the cache or else in the store, never changes along a render.
-/
namespace Stencil

namespace Cache

variable {c : Cache} {name other : String} {t : Template} {version : Option Nat}

theorem entry?_insert_self : Cache.entry? (c.insert name t version) name = some ⟨t, version⟩ :=
  Table.find?_insert_self name (CacheEntry.mk t version) c.entries

theorem entry?_insert_of_ne (h : other ≠ name) :
    Cache.entry? (c.insert name t version) other = c.entry? other :=
  Table.find?_insert_of_ne h (CacheEntry.mk t version) c.entries

theorem get?_eq_none_iff : c.get? name = none ↔ c.entry? name = none := Option.map_eq_none_iff

theorem contains_iff : c.contains name = true ↔ ∃ entry, c.entry? name = some entry := by
  rw [contains, get?, Option.isSome_map, Option.isSome_iff_exists]

theorem contains_eq_false_iff : c.contains name = false ↔ c.entry? name = none := by
  rw [contains, get?, Option.isSome_map, Option.isSome_eq_false_iff, Option.isNone_iff_eq_none]

/-- Every template in the cache is so, with the name that it is kept under. -/
def All (P : String → Template → Prop) (c : Cache) : Prop :=
  ∀ entry ∈ c.entries, P entry.1 entry.2.template

namespace All

variable {P : String → Template → Prop}

theorem empty (P : String → Template → Prop) : All P {} := fun _ h => (List.not_mem_nil h).elim

theorem insert (h : c.All P) (version : Option Nat) (ht : P name t) :
    (c.insert name t version).All P := by
  intro entry he
  rcases Table.mem_of_mem_insert he with rfl | he
  · exact ht
  · exact h entry he

theorem of_get? (h : c.All P) (ht : c.get? name = some t) : P name t := by
  obtain ⟨entry, hentry, rfl⟩ := Option.map_eq_some_iff.mp ht
  exact h _ (Table.mem_of_find? hentry)

theorem seed (h : c.All P) (version : Nat) {compile : Unit → Except Error Template}
    (hr : ∀ t, compile () = .ok t → P name t) : (c.seed name version compile).2.All P := by
  have hreplace : (Cache.seed.replace name version c (compile ())).2.All P := by
    cases hc : compile () with
    | error e => exact h
    | ok t => exact h.insert _ (hr t hc)
  simp only [Cache.seed]
  split
  · split
    · exact h
    · exact hreplace
  · exact hreplace

end All

/-- The template that a name stands for: the cached one, or else what the store has. -/
def served (engine : Engine) (c : Cache) (name : String) : Except Error Template :=
  match c.get? name with
  | some t => .ok t
  | none => engine.fetch name

end Cache

namespace Engine

variable {engine : Engine} {name : String}

/-- What is fetched has been compiled. -/
theorem compile_of_fetch {t : Template} (h : engine.fetch name = .ok t) :
    ∃ text, Template.compile engine.grammar (.stored name) ⟨text, some name⟩ = .ok t := by
  obtain ⟨bytes, -, h⟩ := bind_eq_ok.mp h
  split at h
  · exact ⟨_, h⟩
  · cases h

/-- What cannot be fetched cannot be read, or does not compile. -/
theorem fetch_eq_error {e : Error} (h : engine.fetch name = .error e) :
    (∃ fault, e = ⟨.store name fault, none⟩) ∨ ∃ text,
      (∃ bytes, engine.store.read name = .ok bytes ∧ Text.Utf8.decode bytes = .ok text) ∧
        Template.compile engine.grammar (.stored name) ⟨text, some name⟩ = .error e := by
  rcases bind_eq_error.mp h with h | ⟨bytes, hread, h⟩
  · obtain ⟨fault, -, rfl⟩ := mapError_eq_error.mp h
    exact .inl ⟨fault, rfl⟩
  · split at h
    · rename_i text hdecode
      exact .inr ⟨text, ⟨bytes, mapError_eq_ok.mp hread, hdecode⟩, h⟩
    · cases h
      exact .inl ⟨.notUtf8, rfl⟩

end Engine

namespace Render

variable {engine : Engine} {α β : Type}

/-- The store is asked for a name that is not in the cache. -/
inductive Asks (engine : Engine) : Cache × List String → Cache × List String → Prop where
  | loaded {c : Cache} {reads : List String} {name : String} {t : Template} :
    c.entry? name = none → engine.fetch name = .ok t →
      Asks engine (c, reads) (c.insert name t none, name :: reads)
  | failed {c : Cache} {reads : List String} {name : String} {e : Error} :
    c.entry? name = none → engine.fetch name = .error e →
      Asks engine (c, reads) (c, name :: reads)

abbrev Loads (engine : Engine) : Cache × List String → Cache × List String → Prop :=
  Relation.ReflTransGen (Asks engine)

theorem Loads.all {P : String → Template → Prop} {m n : Cache × List String}
    (hfetch : ∀ name t, engine.fetch name = .ok t → P name t) (h : Loads engine m n)
    (hm : m.1.All P) : n.1.All P := by
  induction h with
  | refl => exact hm
  | tail _ hask ih =>
    cases hask with
    | loaded _ hloaded => exact ih.insert none (hfetch _ _ hloaded)
    | failed _ _ => exact ih

/-- A step that loads what it needs, and does nothing else to the cache. -/
def OnlyLoads (engine : Engine) (x : Render α) : Prop :=
  ∀ s, Loads engine (memory s) (memory (x s).2)

namespace OnlyLoads

theorem of_leaves {x : Render α} (h : Leaves memory x) : OnlyLoads engine x := by
  intro s
  rw [h s]

theorem seq {x : Render α} {f : α → Render β} (hx : OnlyLoads engine x)
    (hf : ∀ a, OnlyLoads engine (f a)) : OnlyLoads engine (x >>= f) := by
  intro s
  have hfirst := hx s
  apply bind_elim (P := fun r => Loads engine (memory s) (memory r.2))
  · intro e t ht
    rwa [ht] at hfirst
  · intro a t ht
    rw [ht] at hfirst
    exact hfirst.trans (hf a t)

theorem load (engine : Engine) (name : String) : OnlyLoads engine (load engine name) := by
  intro s
  rcases load_cases engine name s with
    ⟨t, -, hload⟩ | ⟨t, hget, hfetch, hload⟩ | ⟨e, hget, hfetch, hload⟩
  · rw [hload]
  · rw [hload]
    exact .single (.loaded (Cache.get?_eq_none_iff.mp hget) hfetch)
  · rw [hload]
    exact .single (.failed (Cache.get?_eq_none_iff.mp hget) hfetch)

theorem evaluation (engine : Engine) :
    EvalCongruence engine engine (fun _ => True) fun x _ => OnlyLoads engine x where
  ret a := of_leaves (.ret memory a)
  seq := .seq
  toInt _ := of_leaves fun _ => rfl
  eval _ := of_leaves fun _ => rfl
  bounds _ := ⟨trivial, trivial⟩

theorem congruence (engine : Engine) (interrupt : Interrupt) (a : Includer)
    (ha : ∀ run, a = some run → ∀ nodes, OnlyLoads engine (run nodes)) :
    Congruence ⟨engine, interrupt⟩ ⟨engine, interrupt⟩ a a (fun _ => True)
      fun x _ => OnlyLoads engine x where
  toEvalCongruence := evaluation engine
  check := of_leaves fun _ => rfl
  write text := of_leaves (write_leaves (fun _ _ _ => rfl) text)
  assign _ _ := of_leaves fun _ => rfl
  loop name items count x _ hx := by
    have hscope (f : Scope → Scope) : OnlyLoads engine (modifyScope f) := of_leaves fun _ => rfl
    have h := (evaluation engine).iterate name (fun _ _ => hscope _) items (x := x) (y := x) hx 0
      count
    exact fun s => h { s with scope := s.scope.enterLoop }
  captured hx s := hx { s with captures := "" :: s.captures }
  nextCycle _ _ := of_leaves fun _ => rfl
  located _ hx s := hx s
  inclusion {isolated template subject bindings} _ := by
    refine .seq (of_leaves fun _ => rfl) fun v => ?_
    cases a with
    | none => exact of_leaves fun _ => rfl
    | some run =>
      refine .seq (.load engine v.display) fun included => ?_
      refine .seq (of_leaves (params_leaves memory engine v.display subject bindings)) fun ps => ?_
      have hchild : OnlyLoads engine (inChild ps isolated (run included.nodes)) := fun s =>
        ha run rfl included.nodes { s with scope := s.scope.child ps isolated }
      exact .seq (.seq hchild fun _ => of_leaves (.ret memory _)) fun _ =>
        of_leaves (.ret memory _)

theorem run (engine : Engine) (interrupt : Interrupt) (nodes : List Node) :
    OnlyLoads engine (run ⟨engine, interrupt⟩ nodes) := fun s =>
  Congruence.within (R := fun x _ => OnlyLoads engine x) (congruence engine interrupt) _ nodes s

theorem template (engine : Engine) (interrupt : Interrupt) (t : Template) :
    OnlyLoads engine (template ⟨engine, interrupt⟩ t) := by
  exact .seq (.seq (run engine interrupt t.nodes) fun _ => of_leaves (.ret memory _)) fun _ =>
    of_leaves fun _ => rfl

end OnlyLoads

/-- What has become of a cache for which `read` was asked for, the latest first. -/
structure Grown (engine : Engine) (c : Cache) (read : List String) (d : Cache) : Prop where
  missing : ∀ name ∈ read, c.entry? name = none
  entries : ∀ name, d.entry? name = c.entry? name ∨
    c.entry? name = none ∧ name ∈ read ∧
      ∃ t, engine.fetch name = .ok t ∧ d.entry? name = some ⟨t, none⟩
  held : ∀ name ∈ read, ∀ t, engine.fetch name = .ok t → d.entry? name = some ⟨t, none⟩
  once : ∀ name t, engine.fetch name = .ok t → read.count name ≤ 1

namespace Grown

variable {c d : Cache} {read : List String}

theorem refl (engine : Engine) (c : Cache) : Grown engine c [] c where
  missing _ h := (List.not_mem_nil h).elim
  entries _ := .inl rfl
  held _ h := (List.not_mem_nil h).elim
  once _ _ _ := Nat.zero_le 1

theorem entry?_of_some (h : Grown engine c read d) {name : String} {entry : CacheEntry}
    (hc : c.entry? name = some entry) : d.entry? name = some entry := by
  rcases h.entries name with hd | ⟨hnone, -⟩
  · rw [hd, hc]
  · rw [hc] at hnone
    cases hnone

theorem entry?_eq_none (h : Grown engine c read d) {name : String} (hd : d.entry? name = none) :
    c.entry? name = none := by
  cases hc : c.entry? name with
  | none => rfl
  | some entry =>
    rw [h.entry?_of_some hc] at hd
    cases hd

theorem loaded (h : Grown engine c read d) {name : String} {t : Template}
    (hd : d.entry? name = none) (hfetch : engine.fetch name = .ok t) :
    Grown engine c (name :: read) (d.insert name t none) := by
  -- a name that was asked for and found is held, so this one was not
  have hfresh : name ∉ read := by
    intro hmem
    rw [h.held name hmem t hfetch] at hd
    cases hd
  constructor
  · intro other hmem
    rcases List.mem_cons.mp hmem with rfl | hmem
    · exact h.entry?_eq_none hd
    · exact h.missing other hmem
  · intro other
    by_cases heq : other = name
    · subst heq
      exact .inr ⟨h.entry?_eq_none hd, List.mem_cons_self, t, hfetch, Cache.entry?_insert_self⟩
    · rw [Cache.entry?_insert_of_ne heq]
      exact (h.entries other).imp_right fun ⟨hc, hmem, ht⟩ => ⟨hc, List.mem_cons_of_mem _ hmem, ht⟩
  · intro other hmem u hu
    by_cases heq : other = name
    · subst heq
      obtain rfl : t = u := Except.ok.inj (hfetch.symm.trans hu)
      exact Cache.entry?_insert_self
    · rw [Cache.entry?_insert_of_ne heq]
      exact h.held other ((List.mem_cons.mp hmem).resolve_left heq) u hu
  · intro other u hu
    by_cases heq : other = name
    · subst heq
      have hcount : read.count other = 0 := List.count_eq_zero_of_not_mem hfresh
      rw [List.count_cons_self]
      omega
    · rw [List.count_cons_of_ne (Ne.symm heq)]
      exact h.once other u hu

theorem failed (h : Grown engine c read d) {name : String} {e : Error}
    (hd : d.entry? name = none) (hfetch : engine.fetch name = .error e) :
    Grown engine c (name :: read) d := by
  -- a name that the store does not have may be asked for again and again
  have hne {other : String} {u : Template} (hu : engine.fetch other = .ok u) : other ≠ name := by
    rintro rfl
    rw [hfetch] at hu
    cases hu
  constructor
  · intro other hmem
    rcases List.mem_cons.mp hmem with rfl | hmem
    · exact h.entry?_eq_none hd
    · exact h.missing other hmem
  · intro other
    exact (h.entries other).imp_right fun ⟨hc, hmem, ht⟩ => ⟨hc, List.mem_cons_of_mem _ hmem, ht⟩
  · intro other hmem u hu
    exact h.held other ((List.mem_cons.mp hmem).resolve_left (hne hu)) u hu
  · intro other u hu
    rw [List.count_cons_of_ne (Ne.symm (hne hu))]
    exact h.once other u hu

end Grown

/-- Whatever is loaded, the cache grows by what was asked for and found. -/
theorem Loads.grown {m n : Cache × List String} (h : Loads engine m n) :
    ∃ read, n.2 = read ++ m.2 ∧ Grown engine m.1 read n.1 := by
  induction h with
  | refl => exact ⟨[], rfl, .refl engine m.1⟩
  | tail _ hask ih =>
    obtain ⟨read, hread, hgrown⟩ := ih
    cases hask with
    | @loaded c reads name t hnone hfetch =>
      exact ⟨name :: read, congrArg (name :: ·) hread, hgrown.loaded hnone hfetch⟩
    | @failed c reads name e hnone hfetch =>
      exact ⟨name :: read, congrArg (name :: ·) hread, hgrown.failed hnone hfetch⟩

/-- To load changes nothing about what names stand for. -/
theorem Loads.served {m n : Cache × List String} (h : Loads engine m n) (name : String) :
    n.1.served engine name = m.1.served engine name := by
  obtain ⟨read, -, hgrown⟩ := h.grown
  rcases hgrown.entries name with hd | ⟨hc, -, t, hfetch, hd⟩
  · simp only [Cache.served, Cache.get?, hd]
  · simp only [Cache.served, Cache.get?, hd, hc, Option.map_some, Option.map_none, hfetch]

end Render

end Stencil
