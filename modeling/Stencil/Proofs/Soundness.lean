import Mathlib
import Stencil.Proofs.Compilation
import Stencil.Proofs.Scopes
import Stencil.Proofs.Sessions

/-!
# Renders of checked templates

Whatever a session has done before, its cache holds checked templates only. So a render of a checked
template does not fail with the structure of a template, but for one that it reads from the store
and that does not compile.
-/
namespace Stencil

open Stencil.Part (AllChecked)

def Cache.Checked (filters : Filters) (c : Cache) : Prop :=
  ∀ entry ∈ c.entries, AllChecked filters (partsOf entry.2.template.nodes)

namespace Cache.Checked

variable {filters : Filters} {c : Cache} {name : String} {t : Template}

theorem insert (h : c.Checked filters) (version : Option Nat)
    (ht : AllChecked filters (partsOf t.nodes)) : (c.insert name t version).Checked filters :=
  All.insert (P := fun _ t => AllChecked filters (partsOf t.nodes)) h version ht

theorem of_get? (h : c.Checked filters) (ht : c.get? name = some t) :
    AllChecked filters (partsOf t.nodes) :=
  All.of_get? (P := fun _ t => AllChecked filters (partsOf t.nodes)) h ht

end Cache.Checked

/-- An error of a store that has no text for a name. -/
def Error.IsStoreFault (name : String) (e : Error) : Prop := ∃ fault, e.cause = .store name fault

theorem Engine.fetch_ends {engine : Engine} (hg : engine.grammar.OfStandardTags) (name : String) :
    Ends (fun t => AllChecked engine.grammar.filters (partsOf t.nodes))
      (fun e => e.IsStructural ∨ e.IsStoreFault name) (engine.fetch name) := by
  refine .bind (Q := fun _ => True) (.mapError (fun _ _ => trivial) fun fault _ => ?_)
    fun bytes _ => ?_
  · exact .inr ⟨fault, rfl⟩
  · split
    · exact (Template.compile_ends hg _ _).mono (fun _ h => h) fun _ h => .inl h
    · exact .inr ⟨.notUtf8, rfl⟩

theorem Engine.fetch_placed {engine : Engine} (hg : engine.grammar.OfStandardTags) {name : String}
    {e : Error} (h : engine.fetch name = .error e) (he : e.IsCompileTime) : e.Placed := by
  have hends := engine.fetch_ends hg name
  rw [h] at hends
  rcases hends with hs | ⟨fault, hf⟩
  · exact hs.2
  · simp [Error.IsCompileTime, hf, Cause.isCompileTime] at he

/-- What does not compile has been read. -/
theorem Engine.fetch_of_isCompileTime (engine : Engine) {name : String} {e : Error}
    (h : engine.fetch name = .error e) (he : e.IsCompileTime) :
    ∃ bytes text, engine.store.read name = .ok bytes ∧ Text.Utf8.decode bytes = .ok text ∧
      Template.compile engine.grammar (.stored name) ⟨text, some name⟩ = .error e := by
  rcases Engine.fetch_eq_error h with ⟨fault, rfl⟩ | ⟨text, ⟨bytes, hread, hdecode⟩, hfails⟩
  · cases he
  · exact ⟨bytes, text, hread, hdecode, hfails⟩

namespace Render

variable {α β : Type}

/-- How a step may end that began in `s`, where checked expressions run if `checked` holds. -/
structure SoundEnd (engine : Engine) (checked : Prop) (s : State) (r : Except Error α × State) :
    Prop where
  cache : r.2.cache.Checked engine.grammar.filters
  reads : ∃ read, r.2.reads = read ++ s.reads ∧ ∀ e, r.1 = .error e → checked → e.IsCompileTime →
    ∃ name ∈ read, engine.fetch name = .error e

theorem SoundEnd.ok {engine : Engine} {checked : Prop} {s t : State} {a : α}
    (hcache : t.cache.Checked engine.grammar.filters) (hreads : ∃ read, t.reads = read ++ s.reads) :
    SoundEnd engine checked s (.ok a, t) := by
  obtain ⟨read, hread⟩ := hreads
  refine ⟨hcache, read, hread, fun e he => ?_⟩
  cases he

/-- A step that keeps the cache checked and fails with the structure of a template that it reads, if
at all. -/
def Sound (engine : Engine) (checked : Prop) (x : Render α) : Prop :=
  ∀ s : State, s.cache.Checked engine.grammar.filters → SoundEnd engine checked s (x s)

namespace Sound

variable {engine : Engine} {checked : Prop}

theorem of_leaves {x : Render α} (hx : Leaves memory x)
    (he : ∀ s e, (x s).1 = .error e → checked → ¬ e.IsCompileTime) : Sound engine checked x := by
  intro s hs
  have hm := hx s
  simp only [memory, Prod.mk.injEq] at hm
  obtain ⟨hcache, hreads⟩ := hm
  refine ⟨by rwa [hcache], [], by rw [hreads]; rfl, fun e hr hc ht => ?_⟩
  exact absurd ht (he s e hr hc)

theorem of_ok {x : Render α} (hx : Leaves memory x) (hok : ∀ s, ∃ a, (x s).1 = .ok a) :
    Sound engine checked x := by
  refine of_leaves hx fun s e h => ?_
  obtain ⟨a, ha⟩ := hok s
  rw [ha] at h
  cases h

theorem ret (a : α) : Sound engine checked (pure a) := of_ok (fun _ => rfl) fun _ => ⟨a, rfl⟩

theorem seq_of {x : Render α} {f : α → Render β} (hx : Sound engine checked x)
    (hf : ∀ s a t, s.cache.Checked engine.grammar.filters → x s = (.ok a, t) →
      Sound engine checked (f a)) : Sound engine checked (x >>= f) := by
  intro s hs
  have hfirst := hx s hs
  apply bind_elim (P := SoundEnd engine checked s)
  · intro e t ht
    rw [ht] at hfirst
    obtain ⟨hcache, read, hread, herror⟩ := hfirst
    exact ⟨hcache, read, hread, fun e' he' =>
      herror e' (congrArg Except.error (Except.error.inj he'))⟩
  · intro a t ht
    rw [ht] at hfirst
    obtain ⟨hcache, read, hread, -⟩ := hfirst
    obtain ⟨hcache', more, hmore, herror⟩ := hf s a t hs ht t hcache
    refine ⟨hcache', more ++ read, by rw [hmore, hread, List.append_assoc], ?_⟩
    intro e he hc htime
    obtain ⟨name, hname, hfetch⟩ := herror e he hc htime
    exact ⟨name, List.mem_append_left _ hname, hfetch⟩

theorem seq {x : Render α} {f : α → Render β} (hx : Sound engine checked x)
    (hf : ∀ a, Sound engine checked (f a)) : Sound engine checked (x >>= f) :=
  hx.seq_of fun _ a _ _ _ => hf a

theorem of_fails {x : Render α} (hx : Leaves memory x)
    (he : checked → ∀ s, Fails Error.IsValueFault (x s).1) : Sound engine checked x := by
  refine of_leaves hx fun s e hr hc htime => ?_
  have h := he hc s
  rw [hr] at h
  have hfalse := Cause.not_isCompileTime_of_isValueFault h.1
  rw [Error.IsCompileTime, hfalse] at htime
  cases htime

theorem eval {e : Expr} (h : checked → e.Checked engine.grammar.filters) :
    Sound engine checked (eval engine e) :=
  of_fails (fun _ => rfl) fun hc _ => Expr.eval_fails (fun _ h => h) e fun call hcall =>
    .inl (h hc call hcall)

theorem params {name : String} {subject : Option (Expr × Option String)}
    {bindings : List (String × Expr)}
    (hs : checked → ∀ e ∈ subject.map Prod.fst, e.Checked engine.grammar.filters)
    (hb : checked → ∀ e ∈ bindings.map Prod.snd, e.Checked engine.grammar.filters) :
    Sound engine checked (params engine name subject bindings) := by
  have hnamed (start : Bindings) : Sound engine checked fun s =>
      (Expr.evalNamed (engine.environment s.scope) start bindings, s) := by
    refine of_fails (fun _ => rfl) fun hc _ => Expr.evalNamed_fails (fun _ h => h) _ _ ?_
    intro call hcall
    obtain ⟨e, he, hcall⟩ := Expr.mem_ofNamed.mp hcall
    exact .inl (hb hc e he call hcall)
  cases subject with
  | none => exact .seq (.ret _) hnamed
  | some subject =>
    obtain ⟨e, given?⟩ := subject
    exact .seq (eval fun hc => hs hc e rfl) fun v => .seq (.ret _) hnamed

theorem load (hg : engine.grammar.OfStandardTags) (name : String) :
    Sound engine checked (load engine name) := by
  intro s hs
  have hends := engine.fetch_ends hg name
  rcases load_cases engine name s with
    ⟨t, -, hload⟩ | ⟨t, -, hfetch, hload⟩ | ⟨e, -, hfetch, hload⟩
  · rw [hload]
    exact .ok hs ⟨[], rfl⟩
  -- What is fetched goes into the cache, checked since it compiled.
  · rw [hfetch] at hends
    rw [hload]
    exact .ok (hs.insert none hends) ⟨[name], rfl⟩
  · rw [hload]
    refine ⟨hs, [name], rfl, fun e' he' _ _ => ⟨name, List.mem_singleton.mpr rfl, ?_⟩⟩
    cases he'
    exact hfetch

theorem checked_of_load (hg : engine.grammar.OfStandardTags) {name : String} {s t : State}
    {included : Template} (hs : s.cache.Checked engine.grammar.filters)
    (h : Render.load engine name s = (.ok included, t)) :
    AllChecked engine.grammar.filters (partsOf included.nodes) := by
  have hends := engine.fetch_ends hg name
  rcases load_cases engine name s with
    ⟨kept, hget, hload⟩ | ⟨fetched, -, hfetch, hload⟩ | ⟨e, -, -, hload⟩
  · rw [hload] at h
    cases h
    exact hs.of_get? hget
  · rw [hload] at h
    cases h
    rw [hfetch] at hends
    exact hends
  · rw [hload] at h
    cases h

end Sound

/-- Only what is loaded and the error count. -/
theorem SoundEnd.congr {engine : Engine} {checked : Prop} {s s' : State}
    {r : Except Error α × State} {r' : Except Error β × State} (h : SoundEnd engine checked s r)
    (hs : memory s' = memory s) (hr : memory r'.2 = memory r.2)
    (he : ∀ e, r'.1 = .error e → r.1 = .error e) : SoundEnd engine checked s' r' := by
  simp only [memory, Prod.mk.injEq] at hs hr
  obtain ⟨hcache, read, hread, herror⟩ := h
  refine ⟨by rwa [hr.1], read, by rw [hr.2, hs.2, hread], fun e hre => herror e (he e hre)⟩

namespace Sound

variable {engine : Engine} {checked : Prop}

theorem inLoop {x : Render α} (h : Sound engine checked x) : Sound engine checked (inLoop x) :=
  fun s hs => (h { s with scope := s.scope.enterLoop } hs).congr rfl rfl fun _ he => he

theorem inChild (params : Bindings) (isolated : Bool) {x : Render α} (h : Sound engine checked x) :
    Sound engine checked (inChild params isolated x) :=
  fun s hs => (h { s with scope := s.scope.child params isolated } hs).congr rfl rfl fun _ he => he

theorem captured {x : Render α} (h : Sound engine checked x) :
    Sound engine checked (captured x) := by
  intro s hs
  refine (h { s with captures := "" :: s.captures } hs).congr rfl rfl fun e he => ?_
  rcases hr : x { s with captures := "" :: s.captures } with ⟨e' | a, t⟩
  · simp only [Render.captured, hr] at he
    cases he
    rfl
  · simp only [Render.captured, hr] at he
    cases he

/-- The errors of templates that do not compile have their places already. -/
theorem locatedAt (hg : engine.grammar.OfStandardTags) (l : Location) {x : Render α}
    (h : Sound engine checked x) : Sound engine checked (locatedAt l x) := by
  intro s hs
  obtain ⟨hcache, read, hread, herror⟩ := h s hs
  refine ⟨hcache, read, hread, fun e he hc htime => ?_⟩
  rcases hr : x s with ⟨e' | a, t⟩
  · simp only [Render.locatedAt, hr] at he hread
    cases he
    have htime' : e'.IsCompileTime := by
      rwa [Error.IsCompileTime, Error.cause_locatedAt] at htime
    obtain ⟨name, hname, hfetch⟩ := herror e' (by rw [hr]) hc htime'
    have hplaced := engine.fetch_placed hg hfetch htime' l
    exact ⟨name, hname, hfetch.trans (congrArg Except.error hplaced.symm)⟩
  · simp only [Render.locatedAt, hr] at he
    cases he

theorem evaluation (engine : Engine) (checked : Prop) :
    EvalCongruence engine engine (fun p => checked → p.Checked engine.grammar.filters)
      fun x _ => Sound engine checked x where
  ret := .ret
  seq := .seq
  toInt v := of_fails (fun _ => rfl) fun _ _ => Expr.toInt_fails v
  eval := .eval
  bounds h := ⟨fun hc call hcall => h hc call (List.mem_append_left _ hcall),
    fun hc call hcall => h hc call (List.mem_append_right _ hcall)⟩

theorem iterate (name : String) (items : LoopItems) {x : Render Signal}
    (h : Sound engine checked x) (index left : Nat) :
    Sound engine checked (iterate name items x index left) :=
  (evaluation engine checked).iterate name (fun _ _ => of_ok (fun _ => rfl) fun _ => ⟨(), rfl⟩)
    items (y := x) h index left

theorem write (text : String) : Sound engine checked (write text) := by
  refine of_leaves (write_leaves (fun _ _ _ => rfl) text) fun s e he _ => ?_
  rcases hc : s.captures with _ | ⟨buffer, captures⟩
  · rcases hw : s.sink.write text with ⟨fault | _, k⟩
    · simp only [Render.write, hc, hw] at he
      cases he
      exact Bool.false_ne_true
    · simp only [Render.write, hc, hw] at he
      cases he
  · simp only [Render.write, hc] at he
    cases he

theorem check (interrupt : Interrupt) : Sound engine checked (check interrupt) := by
  refine of_leaves (fun _ => rfl) fun s e he _ => ?_
  simp only [Render.check] at he
  split at he
  · cases he
    exact Bool.false_ne_true
  · cases he

theorem congruence (hg : engine.grammar.OfStandardTags) (interrupt : Interrupt) {a : Includer}
    (ha : ∀ run, a = some run → ∀ nodes,
      (checked → AllChecked engine.grammar.filters (partsOf nodes)) →
        Sound engine checked (run nodes)) :
    Congruence ⟨engine, interrupt⟩ ⟨engine, interrupt⟩ a a
      (fun p => checked → p.Checked engine.grammar.filters) fun x _ => Sound engine checked x where
  toEvalCongruence := evaluation engine checked
  check := .check interrupt
  write := .write
  assign _ _ := of_ok (fun _ => rfl) fun _ => ⟨(), rfl⟩
  loop name items count _ _ h := (h.iterate name items 0 count).inLoop
  captured h := h.captured
  nextCycle _ _ := of_ok (fun _ => rfl) fun _ => ⟨_, rfl⟩
  located _ h := h.locatedAt hg _
  inclusion {isolated template subject bindings} h := by
    have hexpr {e : Expr} (he : e ∈ (Statement.include template subject bindings).expressions) :
        checked → e.Checked engine.grammar.filters :=
      h _ (List.mem_cons_of_mem _ (List.mem_map_of_mem he))
    simp only [Statement.expressions, List.mem_cons, List.mem_append, Option.mem_toList] at hexpr
    refine .seq (.eval (hexpr (.inl rfl))) fun v => ?_
    cases a with
    | none =>
      refine of_leaves (fun _ => rfl) fun s e he _ => ?_
      cases he
      exact Bool.false_ne_true
    | some run =>
      refine (load hg v.display).seq_of fun s included t hs hload => ?_
      refine .seq (params (fun hc e he => hexpr (.inr (.inl he)) hc)
        fun hc e he => hexpr (.inr (.inr he)) hc) fun values => ?_
      have hrun := ha run rfl included.nodes fun _ => checked_of_load hg hs hload
      exact .seq (.seq (hrun.inChild values isolated) fun _ => .ret _) fun _ => .ret _

theorem runWithin (hg : engine.grammar.OfStandardTags) (interrupt : Interrupt) (room : Nat)
    {nodes : List Node} (h : checked → AllChecked engine.grammar.filters (partsOf nodes)) :
    Sound engine checked (runWithin ⟨engine, interrupt⟩ room nodes) := by
  have hparts {nodes : List Node}
      (h : checked → AllChecked engine.grammar.filters (partsOf nodes)) :
      ∀ p ∈ partsOf nodes, checked → p.Checked engine.grammar.filters := fun p hp hc => h hc p hp
  induction room generalizing nodes with
  | zero =>
    refine (congruence (a := none) hg interrupt ?_).ofNodes nodes (hparts h)
    intro run hrun
    cases hrun
  | succ room ih =>
    refine (congruence hg interrupt ?_).ofNodes nodes (hparts h)
    intro run hrun nodes hnodes
    cases hrun
    exact ih hnodes

theorem template (hg : engine.grammar.OfStandardTags) (interrupt : Interrupt) {t : Template}
    (h : checked → AllChecked engine.grammar.filters (partsOf t.nodes)) :
    Sound engine checked (template ⟨engine, interrupt⟩ t) := by
  have hrun : Sound engine checked (run ⟨engine, interrupt⟩ t.nodes) := fun s =>
    runWithin hg interrupt _ h s
  refine .seq (.seq hrun fun _ => .ret _) fun _ => of_leaves (fun _ => rfl) fun s e he _ => ?_
  simp only [flush] at he
  rcases hf : s.sink.flush with fault | _
  · rw [hf] at he
    cases he
    exact Bool.false_ne_true
  · rw [hf] at he
    cases he

end Sound

end Render

namespace Session

theorem Reached.checked {g : Grammar} (hg : g.OfStandardTags) {s : Session} (h : Reached g s) :
    s.engine.grammar = g ∧ s.cache.Checked g.filters := by
  refine h.all (P := fun _ t => AllChecked g.filters (partsOf t.nodes)) fun name origin text t ht => ?_
  have hends := Template.compile_ends hg origin ⟨text, some name⟩
  rwa [ht] at hends

end Session

/-- A template that compiles under the standard tags calls registered filters only, and a render of
it fails with the structure of a template only where it reads one that does not compile. -/
theorem render_compiled_fails {g : Grammar} (hg : g.OfStandardTags) {origin : Origin}
    {source : SourceText} {template : Template}
    (hcompile : Template.compile g origin source = .ok template) {session : Session}
    (hsession : session.Reached g) (bindings : Bindings) (sink : Sink) (interrupt : Interrupt) :
    (∀ e ∈ expressionsOf template.nodes, ∀ call ∈ e.filterCalls,
      Table.contains call.name g.filters = true) ∧
    ∀ e, (session.render template bindings sink interrupt).1.1 = .error e →
      e.cause.isCompileTime = true →
      ∃ name read bytes text,
        (session.render template bindings sink interrupt).2.reads = read ++ session.reads ∧
        name ∈ read ∧ session.engine.store.read name = .ok bytes ∧
        Text.Utf8.decode bytes = .ok text ∧
        Template.compile g (.stored name) ⟨text, some name⟩ = .error e := by
  obtain ⟨rfl, hcache⟩ := hsession.checked hg
  have hends := Template.compile_ends hg origin source
  rw [hcompile] at hends
  refine ⟨fun e he => hends (.expr e) (mem_expressionsOf.mp he), fun e he htime => ?_⟩
  have hsound : Render.Sound session.engine True
      (Render.template ⟨session.engine, interrupt⟩ template) :=
    .template hg interrupt fun _ => hends
  obtain ⟨-, read, hread, herror⟩ := hsound (session.start bindings sink) hcache
  obtain ⟨name, hname, hfetch⟩ := herror e he trivial htime
  obtain ⟨bytes, text, hbytes, htext, hfail⟩ := session.engine.fetch_of_isCompileTime hfetch htime
  exact ⟨name, read, bytes, text, hread, hname, hbytes, htext, hfail⟩

/-- A render fails with the error of an included template that calls an unknown filter. -/
theorem render_compiled_fails_at_include :
    let source : SourceText := ⟨"\x7b% include 'a' %\x7d", none⟩
    let template : Template := ⟨[.tag false "include" ⟨none, 1, 1, 0⟩
      (.include false (.literal (.str "a")) none [])], source⟩
    let session : Session := { engine := {
      grammar := Grammar.addStandardTags {}
      store := .memory [("a", "\x7b\x7b x | up \x7d\x7d".toUTF8)] } }
    (session.render template [] {} fun _ _ => false).1.1
        = .error ⟨.undefinedFilter "up", some ⟨some "a", 1, 8, 7⟩⟩ ∧
      ∃ name read bytes text,
        (session.render template [] {} fun _ _ => false).2.reads = read ++ session.reads ∧
        name ∈ read ∧ session.engine.store.read name = .ok bytes ∧
        Text.Utf8.decode bytes = .ok text ∧
        Template.compile session.engine.grammar (.stored name) ⟨text, some name⟩
          = .error ⟨.undefinedFilter "up", some ⟨some "a", 1, 8, 7⟩⟩ := by
  intro source template session
  have hcompile :
      Template.compile (Grammar.addStandardTags {}) (.direct 0) source = .ok template := by
    cbv
  have herror : (session.render template [] {} fun _ _ => false).1.1
      = .error ⟨.undefinedFilter "up", some ⟨some "a", 1, 8, 7⟩⟩ := by
    cbv
  have hsession : session.Reached (Grammar.addStandardTags {}) := .fresh rfl
  have h := render_compiled_fails (Grammar.OfStandardTags.standard []) hcompile hsession [] {}
    fun _ _ => false
  exact ⟨herror, h.2 _ herror rfl⟩

end Stencil
