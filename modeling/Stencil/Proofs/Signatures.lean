import Mathlib
import Stencil.Proofs.Faults
import Stencil.Proofs.Nesting

/-!
# Signatures

The places in a compiled template bear its name, and so do those in a cache. While templates include
each other, what runs and what waits bear the name of the one they belong to: a step stays in its
template, and only an inclusion opens or ends another one.
-/
namespace Stencil

open Stencil.Part (AllSigned SignedBy)

/-- What is kept under a name has places of that name. -/
abbrev Cache.Signed (c : Cache) : Prop :=
  c.All fun name t => AllSigned (some name) (partsOf t.nodes)

theorem Engine.fetch_signed {engine : Engine} (hg : engine.grammar.OfStandardTags) {name : String}
    {t : Template} (h : engine.fetch name = .ok t) : AllSigned (some name) (partsOf t.nodes) := by
  obtain ⟨text, hcompile⟩ := Engine.compile_of_fetch h
  exact (Template.compile_signed hg hcompile).2

namespace Render

variable {α β : Type}

/-- A step that loads nothing and whose errors have no place yet. -/
structure Bare (x : Render α) : Prop where
  fails : FailsOnly (fun e => e.location = none) x
  leaves : Leaves memory x

namespace Bare

theorem ret (a : α) : Bare (pure a) := ⟨.ret a, .ret _ a⟩

theorem seq {x : Render α} {f : α → Render β} (hx : Bare x) (hf : ∀ a, Bare (f a)) :
    Bare (x >>= f) := ⟨hx.fails.seq fun a => (hf a).fails, hx.leaves.seq fun a => (hf a).leaves⟩

theorem eval (engine : Engine) (e : Expr) : Bare (eval engine e) :=
  ⟨.eval (fun _ h => h.2) (fun _ => rfl) engine e, fun _ => rfl⟩

theorem params (engine : Engine) (name : String) (subject : Option (Expr × Option String))
    (bindings : List (String × Expr)) : Bare (params engine name subject bindings) :=
  ⟨.params (fun _ h => h.2) (fun _ => rfl) engine name subject bindings, params_leaves _ _ _ _ _⟩

theorem write (text : String) : Bare (write text) :=
  ⟨.write (fun _ => rfl) text, write_leaves (fun _ _ _ => rfl) text⟩

theorem check (interrupt : Interrupt) : Bare (check interrupt) :=
  ⟨.check (E := fun e => e.location = none) rfl interrupt, fun _ => rfl⟩

theorem evaluation (engine : Engine) (name : Option String) :
    EvalCongruence engine engine (SignedBy name) fun x _ => Bare x where
  ret := .ret
  seq := .seq
  toInt v := ⟨(FailsOnly.evaluation (fun _ h => h.2) (fun _ => rfl) engine).toInt v, fun _ => rfl⟩
  eval _ := .eval engine _
  bounds _ := ⟨trivial, trivial⟩

end Bare

namespace Machine

def Control.parts : Control → List Part
  | .nodes body => partsOf body
  | .node n => n.parts
  | .action a => a.parts
  | .done _ => []

/-- What a launch goes on with, in the template with a name. -/
inductive Control.Goes (name : Option String) : Control → Prop where
  | done (signal : Signal) : Goes name (.done (.ok signal))
  | nodes {nodes : List Node} (h : AllSigned name (partsOf nodes)) : Goes name (.nodes nodes)
  | node {node : Node} (h : AllSigned name node.parts) : Goes name (.node node)

/-- What waits belongs to the template with a name, and not to one that includes it. -/
def Pending.Of (name : Option String) (p : Pending) : Prop :=
  (∀ caller, p ≠ .inclusion caller) ∧ AllSigned name p.parts

structure Launch.Of (name : Option String) (l : Launch) : Prop where
  control : l.control.Goes name
  pending : ∀ p ∈ l.pending, p.Of name

/-- A step that stays in the template with a name. -/
def Stays (name : Option String) (x : Render Launch) : Prop :=
  ∀ s, Ends (Launch.Of name) (fun e => e.location = none) (x s).1 ∧ memory (x s).2 = memory s

variable {engine : Engine} {setting : Setting} {name : Option String}

namespace Stays

theorem seq {z : Render α} {f : α → Render Launch} (hz : Bare z) (h : ∀ a, Stays name (f a)) :
    Stays name (z >>= f) := by
  intro s
  have hfails := hz.fails s
  have hleaves := hz.leaves s
  apply bind_elim (P := fun r => Ends (Launch.Of name) (fun e => e.location = none) r.1 ∧
    memory r.2 = memory s)
  · intro e t ht
    rw [ht] at hfails hleaves
    exact ⟨hfails, hleaves⟩
  · intro a t ht
    rw [ht] at hleaves
    exact ⟨(h a t).1, (h a t).2.trans hleaves⟩

theorem finish (signal : Signal) : Stays name (pure (.finish signal)) := fun _ =>
  ⟨⟨.done signal, fun _ h => (List.not_mem_nil h).elim⟩, rfl⟩

theorem go {control : Control} {p : Pending} (h : control.Goes name) (hp : p.Of name) :
    Stays name (pure ⟨control, [p]⟩) := fun _ => ⟨⟨h, List.forall_mem_singleton.mpr hp⟩, rfl⟩

theorem launching (engine : Engine) (name : Option String) :
    Launching engine (SignedBy name) (fun x => Bare x) (Stays name) where
  toEvalCongruence := Bare.evaluation engine name
  chain := .seq
  finish := .finish
  nodes h _ := ⟨⟨.nodes h, fun _ h => (List.not_mem_nil h).elim⟩, rfl⟩
  inCapture h := .go (.nodes h) ⟨nofun, Part.allSigned_nil⟩
  inOutline hclauses hbody := .go (.nodes hbody) ⟨nofun, hclauses⟩
  write := .write
  assign _ _ := ⟨fun _ => trivial, fun _ => rfl⟩
  openCapture := ⟨fun _ => trivial, fun _ => rfl⟩
  closeCapture := ⟨fun _ => trivial, fun _ => rfl⟩
  nextCycle _ _ := ⟨fun _ => trivial, fun _ => rfl⟩

end Stays

theorem modifyScope_bare (f : Scope → Scope) : Bare (modifyScope f) :=
  ⟨fun _ => trivial, fun _ => rfl⟩

theorem nextItem_stays (item : String) (items : LoopItems) {body : List Node}
    (h : AllSigned name (partsOf body)) (index left : Nat) :
    Stays name (nextItem item items body index left) := by
  cases left with
  | zero => exact .seq (modifyScope_bare _) fun _ => .finish _
  | succ left => exact .seq (modifyScope_bare _) fun _ => .go (.nodes h) ⟨nofun, h⟩

theorem enter_stays {action : Action} (hok : AllSigned name action.parts)
    (h : ∀ isolated template subject bindings,
      action ≠ .include isolated template subject bindings) : Stays name (enter engine action) := by
  refine (Stays.launching engine name).enter (fun item items body hbody => ?_) action hok ?_
  · exact .seq (modifyScope_bare _) fun _ => nextItem_stays item items hbody 0 items.count
  · intro isolated template subject bindings heq
    exact absurd heq (h isolated template subject bindings)

theorem resume_stays {p : Pending} (h : p.Of name) (signal : Signal) :
    Stays name (resume p (.ok signal)) := by
  refine (Stays.launching {} name).resume p h.2 signal ?_ ?_
  · rintro item items body index _ rfl left
    exact nextItem_stays item items h.2 index left
  · intro caller heq
    exact absurd heq (h.1 caller)

/-- The template that runs, given the names of those that are being included, the latest first. -/
def runningName (source : Option String) : List String → Option String
  | [] => source
  | name :: _ => some name

/-- What waits belongs to the templates that are being included, from the latest on. -/
inductive Waits (source : Option String) : List String → List Pending → Prop where
  | nil : Waits source [] []
  | within {names : List String} {p : Pending} {waiting : List Pending}
    (hp : p.Of (runningName source names)) (h : Waits source names waiting) :
    Waits source names (p :: waiting)
  | inclusion {name : String} {names : List String} {waiting : List Pending} (caller : Scope)
    (h : Waits source names waiting) : Waits source (name :: names) (.inclusion caller :: waiting)

/-- A configuration in which every place is one of the template that it belongs to. -/
structure Config.Signed (source : Option String) (names : List String) (c : Config) : Prop where
  control : AllSigned (runningName source names) c.control.parts
  placed : ∀ action, c.control = .action action → ∃ l waiting, c.pending = .place l :: waiting
  pending : Waits source names c.pending
  cache : c.state.cache.Signed

variable {source : Option String} {names : List String} {waiting : List Pending} {s : State}

theorem Waits.append (h : Waits source names waiting) {ps : List Pending}
    (hps : ∀ p ∈ ps, p.Of (runningName source names)) :
    Waits source names (ps ++ waiting) ∧
      openInclusions (ps ++ waiting) = openInclusions waiting := by
  induction ps with
  | nil => exact ⟨h, rfl⟩
  | cons p ps ih =>
    obtain ⟨hp, hps⟩ := List.forall_mem_cons.mp hps
    obtain ⟨hwaits, hopen⟩ := ih hps
    refine ⟨.within hp hwaits, ?_⟩
    cases p with
    | inclusion caller => exact absurd rfl (hp.1 caller)
    | rest | place | capture | loop | outline => exact hopen

theorem Control.Goes.signed {control : Control} (h : control.Goes name) :
    AllSigned name control.parts ∧ (∀ action, control ≠ .action action) ∧
      ∀ e, control ≠ .done (.error e) := by
  cases h with
  | done signal => exact ⟨Part.allSigned_nil, nofun, nofun⟩
  | nodes h => exact ⟨h, nofun, nofun⟩
  | node h => exact ⟨h, nofun, nofun⟩

theorem cache_of_memory {t : State} (h : memory t = memory s) (hs : s.cache.Signed) :
    t.cache.Signed := by
  have hcache : t.cache = s.cache := congrArg Prod.fst h
  rwa [hcache]

/-- A step that stays in a template goes on there, or fails without a place. -/
theorem settle_signed {x : Render Launch} (hx : Stays (runningName source names) x)
    (hw : Waits source names waiting) (hs : s.cache.Signed) :
    (settle waiting (x s)).Signed source names ∧
      openInclusions (settle waiting (x s)).pending = openInclusions waiting ∧
      ∀ e, (settle waiting (x s)).control = .done (.error e) →
        (x s).1 = .error e ∧ e.location = none ∧ (settle waiting (x s)).pending = waiting := by
  obtain ⟨hends, hmemory⟩ := hx s
  rcases hr : x s with ⟨e | l, t⟩
  · rw [hr] at hends hmemory
    refine ⟨⟨Part.allSigned_nil, nofun, hw, cache_of_memory hmemory hs⟩, rfl, fun e' he => ?_⟩
    cases he
    exact ⟨rfl, hends, rfl⟩
  · rw [hr] at hends hmemory
    obtain ⟨hparts, haction, herror⟩ := hends.control.signed
    obtain ⟨hwaits, hopen⟩ := hw.append hends.pending
    refine ⟨⟨hparts, fun a ha => absurd ha (haction a), hwaits, cache_of_memory hmemory hs⟩,
      hopen, fun e he => absurd he (herror e)⟩

/-- What is loaded under a name has places of that name, and stays in the cache. -/
theorem load_signed (hg : engine.grammar.OfStandardTags) {key : String} {included : Template}
    {t : State} (hs : s.cache.Signed) (h : load engine key s = (.ok included, t)) :
    t.cache.Signed ∧ AllSigned (some key) (partsOf included.nodes) := by
  rcases load_cases engine key s with
    ⟨kept, hget, hload⟩ | ⟨fetched, -, hfetch, hload⟩ | ⟨e, -, -, hload⟩
  · rw [hload] at h
    cases h
    exact ⟨hs, hs.of_get? hget⟩
  · rw [hload] at h
    cases h
    have hfetched := Engine.fetch_signed hg hfetch
    exact ⟨hs.insert none hfetched, hfetched⟩
  · rw [hload] at h
    cases h

theorem start_signed {g g' : Grammar} (hg : g.OfStandardTags) (hg' : g'.OfStandardTags)
    {session : Session} (hsession : session.Reached g) {origin : Origin} {source : SourceText}
    {template : Template} (hcompile : Template.compile g' origin source = .ok template)
    (bindings : Bindings) (sink : Sink) :
    (start template.nodes (session.start bindings sink)).Signed source.name [] :=
  ⟨(Template.compile_signed hg' hcompile).2, nofun, .nil,
    (hsession.all fun _ _ _ _ h => (Template.compile_signed hg h).2).2⟩

end Machine

end Render

end Stencil
