import Mathlib
import Stencil.Proofs.Compilation
import Stencil.Proofs.Operations
import Stencil.Proofs.Sessions

/-!
# Origins of templates

Each template that a render may run has an origin of its own, whatever was done with the session
before. A store is asked for a name until a template of that name compiles and is kept; what is handed
over or seeded gets a number. So a template that another one has replaced under its name can still be
told from that one when it is rendered.
-/
namespace Stencil

/-- What origins stand for, given what a cache holds and how many templates were seeded. Each origin
has one template, each template that is held has an origin, and origins that are still to come stand
for nothing. -/
structure Assigns (made : Origin → Option Template) (c : Cache) (seeds : Nat) : Prop where
  compiled : ∀ o t, made o = some t →
    ∃ g source, g.OfStandardTags ∧ Template.compile g o source = .ok t
  cached : ∀ name t, c.get? name = some t → ∃ o, made o = some t
  seeded : ∀ n, seeds ≤ n → made (.seeded n) = none
  stored : ∀ name, c.get? name = none → made (.stored name) = none

/-- What origins stand for after all that they stood for before. -/
def Extends (made later : Origin → Option Template) : Prop :=
  ∀ o t, made o = some t → later o = some t

theorem Extends.refl (made : Origin → Option Template) : Extends made made := fun _ _ => id

theorem Extends.update {made later : Origin → Option Template} (h : Extends made later) {o : Origin}
    (hnone : later o = none) (t : Template) : Extends made (Function.update later o (some t)) := by
  intro other u hu
  have hne : other ≠ o := by
    rintro rfl
    have hsome := h _ u hu
    rw [hnone] at hsome
    cases hsome
  rw [Function.update_of_ne hne]
  exact h other u hu

namespace Assigns

variable {made : Origin → Option Template} {c : Cache} {n : Nat}

theorem empty : Assigns (fun _ => none) {} 0 where
  compiled _ _ h := by cases h
  cached _ _ h := by cases h
  seeded _ _ := rfl
  stored _ _ := rfl

theorem compiled_update (h : Assigns made c n) {g : Grammar} (hg : g.OfStandardTags) {o : Origin}
    {source : SourceText} {t : Template} (ht : Template.compile g o source = .ok t) :
    ∀ other u, Function.update made o (some t) other = some u →
      ∃ g source, g.OfStandardTags ∧ Template.compile g other source = .ok u := by
  intro other u hu
  by_cases heq : other = o
  · subst heq
    rw [Function.update_self] at hu
    cases hu
    exact ⟨g, source, hg, ht⟩
  · rw [Function.update_of_ne heq] at hu
    exact h.compiled other u hu

/-- A template that is handed over has a number of its own. -/
theorem direct {g : Grammar} (hg : g.OfStandardTags) {k : Nat} {source : SourceText} {t : Template}
    (ht : Template.compile g (.direct k) source = .ok t) :
    Assigns (Function.update (fun _ => none) (.direct k) (some t)) {} 0 where
  compiled := empty.compiled_update hg ht
  cached _ _ h := by cases h
  seeded _ _ := Function.update_of_ne (by simp) _ _
  stored _ _ := Function.update_of_ne (by simp) _ _

theorem mono (h : Assigns made c n) {m : Nat} (hle : n ≤ m) : Assigns made c m :=
  ⟨h.compiled, h.cached, fun k hk => h.seeded k (hle.trans hk), h.stored⟩

/-- A template goes into the cache under an origin that nothing else has, now or later. -/
theorem insert (h : Assigns made c n) {m : Nat} (hle : n ≤ m) {o : Origin} {name : String}
    (hnone : made o = none) (hseeded : ∀ k, m ≤ k → .seeded k ≠ o)
    (hstored : ∀ other, .stored other = o → other = name) {g : Grammar} (hg : g.OfStandardTags)
    {source : SourceText} {t : Template} (ht : Template.compile g o source = .ok t)
    (version : Option Nat) :
    Assigns (Function.update made o (some t)) (c.insert name t version) m where
  compiled := h.compiled_update hg ht
  cached other u hu := by
    by_cases heq : other = name
    · subst heq
      rw [Cache.get?, Cache.entry?_insert_self] at hu
      cases hu
      exact ⟨o, Function.update_self o (some t) made⟩
    · rw [Cache.get?, Cache.entry?_insert_of_ne heq] at hu
      obtain ⟨o', ho'⟩ := h.cached other u hu
      exact ⟨o', (Extends.refl made).update hnone t o' u ho'⟩
  seeded k hk := by
    rw [Function.update_of_ne (hseeded k hk)]
    exact h.seeded k (hle.trans hk)
  stored other hother := by
    by_cases heq : other = name
    · subst heq
      rw [Cache.get?, Cache.entry?_insert_self] at hother
      cases hother
    · rw [Cache.get?, Cache.entry?_insert_of_ne heq] at hother
      rw [Function.update_of_ne fun h => heq (hstored other h)]
      exact h.stored other hother

/-- What is loaded has the origin of its name, which nothing was loaded under before. -/
theorem loads {engine : Engine} (hg : engine.grammar.OfStandardTags)
    {memory after : Cache × List String} (h : Assigns made memory.1 n)
    (hloads : Render.Loads engine memory after) :
    ∃ later, Assigns later after.1 n ∧ Extends made later := by
  induction hloads with
  | refl => exact ⟨made, h, .refl made⟩
  | tail _ hask ih =>
    obtain ⟨later, hlater, hextends⟩ := ih
    cases hask with
    | failed => exact ⟨later, hlater, hextends⟩
    | @loaded c reads name t hnone hfetch =>
      obtain ⟨text, hcompile⟩ := Engine.compile_of_fetch hfetch
      have hunused : later (.stored name) = none :=
        hlater.stored name (Cache.get?_eq_none_iff.mpr hnone)
      exact ⟨_, hlater.insert (Nat.le_refl n) hunused (by simp) (by simp) hg hcompile none,
        hextends.update hunused t⟩

theorem perform {s : Session} (hg : s.engine.grammar.OfStandardTags)
    (h : Assigns made s.cache s.seeds) (op : Operation) :
    ∃ later, Assigns later (op.perform s).cache (op.perform s).seeds ∧ Extends made later := by
  cases op with
  | seed name version bytes =>
    have hsame : ∃ later, Assigns later s.cache (s.seeds + 1) ∧ Extends made later :=
      ⟨made, h.mono (Nat.le_succ _), .refl made⟩
    rcases s.seed_cases name version bytes with
      ⟨entry, -, -, hseed⟩ | ⟨-, ⟨t, hcompile, hseed⟩ | ⟨e, -, hseed⟩⟩
    · simpa only [Operation.perform, hseed] using hsame
    · obtain ⟨text, hcompile⟩ := Template.compile_of_compileBytes hcompile
      have hunused : made (.seeded s.seeds) = none := h.seeded _ (Nat.le_refl _)
      simp only [Operation.perform, hseed]
      refine ⟨_, h.insert (Nat.le_succ _) hunused (fun k hk heq => ?_) (by simp) hg hcompile _,
        (Extends.refl made).update hunused t⟩
      cases heq
      omega
    · simpa only [Operation.perform, hseed] using hsame
  | load name => exact h.loads hg (s.load_loads name)
  | render template bindings sink interrupt =>
    exact h.loads hg (s.render_loads template bindings sink interrupt)
  | put name bytes | useStore store => exact ⟨made, h, .refl made⟩

end Assigns

namespace Session

variable {g : Grammar} {session : Session} {root t u : Template}

/-- The templates that a render may run: the one that it starts with, and those that names stand
for. -/
def MayRun (session : Session) (root t : Template) : Prop :=
  t = root ∨ ∃ name, session.cache.served session.engine name = .ok t

/-- The templates that renders of a session start with: one that was handed over, or one that the
session seeded or loaded, whatever was done with it since. -/
inductive Provides (g : Grammar) : Session → Template → Prop where
  | direct {s : Session} {g' : Grammar} {n : Nat} {source : SourceText} {t : Template} :
    s.Reached g → g'.OfStandardTags → Template.compile g' (.direct n) source = .ok t →
      Provides g s t
  | seeded (name : String) (version : Nat) (bytes : ByteArray) {s : Session} {t : Template} :
    s.Reached g → (s.seed name version bytes).1 = .ok t →
      Provides g (s.seed name version bytes).2 t
  | loaded (name : String) {s : Session} {t : Template} :
    s.Reached g → (s.load name).1 = .ok t → Provides g (s.load name).2 t
  | later (op : Operation) {s : Session} {t : Template} :
    Provides g s t → Provides g (op.perform s) t

theorem Reached.perform (h : session.Reached g) (op : Operation) :
    (op.perform session).Reached g := by
  cases op with
  | seed name version bytes => exact h.seed name version bytes
  | load name => exact h.load name
  | render template bindings sink interrupt => exact h.render template bindings sink interrupt
  | put name bytes => exact h.put name bytes
  | useStore store => exact h.useStore store

theorem Provides.reached (h : session.Provides g root) : session.Reached g := by
  induction h with
  | direct hreached => exact hreached
  | seeded name version bytes hreached => exact hreached.seed name version bytes
  | loaded name hreached => exact hreached.load name
  | later op _ ih => exact ih.perform op

theorem Reached.assigns (hg : g.OfStandardTags) (h : session.Reached g)
    {made : Origin → Option Template} (hmade : Assigns made {} 0) :
    ∃ later, Assigns later session.cache session.seeds ∧ Extends made later := by
  have hperform {s : Session} (hs : s.Reached g) (op : Operation)
      (ih : ∃ later, Assigns later s.cache s.seeds ∧ Extends made later) :
      ∃ later, Assigns later (op.perform s).cache (op.perform s).seeds ∧ Extends made later := by
    obtain ⟨before, hbefore, hextends⟩ := ih
    obtain ⟨later, hlater, hmore⟩ := hbefore.perform (hs.grammar ▸ hg) op
    exact ⟨later, hlater, fun o t ht => hmore o t (hextends o t ht)⟩
  induction h with
  | fresh => exact ⟨made, hmade, .refl made⟩
  | seed name version bytes hs ih => exact hperform hs (.seed name version bytes) ih
  | load name hs ih => exact hperform hs (.load name) ih
  | render template bindings sink interrupt hs ih =>
    exact hperform hs (.render template bindings sink interrupt) ih
  | put name bytes hs ih => exact hperform hs (.put name bytes) ih
  | useStore store hs ih => exact hperform hs (.useStore store) ih

/-- The template that a render starts with has an origin, as those have that the cache holds. -/
theorem Provides.assigns (hg : g.OfStandardTags) (h : session.Provides g root) :
    ∃ made, Assigns made session.cache session.seeds ∧ ∃ o, made o = some root := by
  induction h with
  | direct hreached hg' hcompile =>
    obtain ⟨made, hmade, hextends⟩ := hreached.assigns hg (.direct hg' hcompile)
    exact ⟨made, hmade, _, hextends _ _ (Function.update_self _ _ _)⟩
  | seeded name version bytes hreached hseed =>
    obtain ⟨made, hmade, -⟩ := (hreached.seed name version bytes).assigns hg .empty
    have hget := congrArg (Option.map CacheEntry.template) (get?_of_seed hseed)
    exact ⟨made, hmade, hmade.cached name _ hget⟩
  | loaded name hreached hload =>
    obtain ⟨made, hmade, -⟩ := (hreached.load name).assigns hg .empty
    exact ⟨made, hmade, hmade.cached name _ (get?_of_load hload)⟩
  | later op hprovides ih =>
    obtain ⟨made, hmade, o, ho⟩ := ih
    obtain ⟨later, hlater, hextends⟩ := hmade.perform (hprovides.reached.grammar ▸ hg) op
    exact ⟨later, hlater, o, hextends o _ ho⟩

/-- What origins stand for in a render, which may fetch what is not held yet. -/
inductive Originates (session : Session) (made : Origin → Option Template) :
    Origin → Template → Prop where
  | made {o : Origin} {t : Template} : made o = some t → Originates session made o t
  | fetched {name : String} {t : Template} :
    session.cache.get? name = none → session.engine.fetch name = .ok t →
      Originates session made (.stored name) t

section

variable {made : Origin → Option Template} {o : Origin}
  (h : Assigns made session.cache session.seeds)
include h

theorem Originates.eq (ht : session.Originates made o t) (hu : session.Originates made o u) :
    t = u := by
  cases ht with
  | made ht =>
    cases hu with
    | made hu => exact Option.some.inj (ht.symm.trans hu)
    | fetched hget hfetch =>
      rw [h.stored _ hget] at ht
      cases ht
  | fetched hget hfetch =>
    cases hu with
    | made hu =>
      rw [h.stored _ hget] at hu
      cases hu
    | fetched _ hfetch' => exact Except.ok.inj (hfetch.symm.trans hfetch')

/-- What an origin stands for was compiled from it. -/
theorem Originates.compiled (hg : session.engine.grammar.OfStandardTags)
    (ht : session.Originates made o t) :
    ∃ g source, g.OfStandardTags ∧ Template.compile g o source = .ok t := by
  cases ht with
  | made ht => exact h.compiled o t ht
  | fetched _ hfetch =>
    obtain ⟨text, hcompile⟩ := Engine.compile_of_fetch hfetch
    exact ⟨_, _, hg, hcompile⟩

theorem MayRun.originates (hroot : made o = some root) (ht : session.MayRun root t) :
    ∃ o, session.Originates made o t := by
  rcases ht with rfl | ⟨name, ht⟩
  · exact ⟨o, .made hroot⟩
  · simp only [Cache.served] at ht
    cases hget : session.cache.get? name with
    | none =>
      rw [hget] at ht
      exact ⟨.stored name, .fetched hget ht⟩
    | some kept =>
      rw [hget] at ht
      cases ht
      obtain ⟨o, ho⟩ := h.cached name _ hget
      exact ⟨o, .made ho⟩

end

end Session

end Stencil
