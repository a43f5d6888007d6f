import Mathlib
import Stencil.Proofs.Signatures

/-!
# Where renders fail

An error gets the place of the innermost node that is executed where it arises. This is a place of
the template that the node belongs to: the one that was included last of those that are still
running. A template that is included and does not compile has told its own place already.
-/
namespace Stencil

open Stencil.Part (AllSigned)

theorem Error.location_locatedAt {e : Error} (l : Location) (h : e.cause.hasPlace = true) :
    (e.locatedAt l).location = e.location.or (some l) := by
  rw [locatedAt, if_pos h]

namespace Engine

variable {engine : Engine} {name : String}

theorem fetch_of_broken {bytes : ByteArray} {text : String} {e : Error}
    (hread : engine.store.read name = .ok bytes) (hdecode : Text.Utf8.decode bytes = .ok text)
    (hfails : Template.compile engine.grammar (.stored name) ⟨text, some name⟩ = .error e) :
    engine.fetch name = .error e := by
  simp only [fetch, hread]
  exact bind_eq_error.mpr (.inr ⟨bytes, rfl, by rw [hdecode]; exact hfails⟩)

end Engine

namespace Render

namespace Machine

variable {engine : Engine} {setting : Setting}

/-- A step, with the names of the templates that are being included, the latest first. -/
inductive Tracked (setting : Setting) : List String × Config → List String × Config → Prop where
  | within {names : List String} {c d : Config} (h : step setting c = some d)
    (hopen : openInclusions d.pending = openInclusions c.pending) :
    Tracked setting (names, c) (names, d)
  | enter {names : List String} {c d : Config} {isolated : Bool} {template : Expr}
    {subject : Option (Expr × Option String)} {bindings : List (String × Expr)} {v : Value}
    (h : step setting c = some d)
    (haction : c.control = .action (.include isolated template subject bindings))
    (hname : template.eval (setting.engine.environment c.state.scope) = .ok v)
    (hopen : openInclusions d.pending = openInclusions c.pending + 1) :
    Tracked setting (names, c) (v.display :: names, d)
  | leave {name : String} {names : List String} {c d : Config} (h : step setting c = some d)
    (hopen : openInclusions c.pending = openInclusions d.pending + 1) :
    Tracked setting (name :: names, c) (names, d)

theorem Tracked.step {setting : Setting} {x y : List String × Config} (h : Tracked setting x y) :
    Machine.step setting x.2 = some y.2 := by
  cases h with
  | within h | enter h | leave h => exact h

/-- The innermost node that is executed is an output or a tag, and stands at this place. -/
inductive Config.Executes (l : Location) (c : Config) : Prop where
  | output {e : Expr} (hcontrol : c.control = .node (.output e l))
  | tag {action : Action} {waiting : List Pending} (hcontrol : c.control = .action action)
    (hpending : c.pending = .place l :: waiting)

/-- A template of this name and text, which is not in the cache, is to be included and does not
compile. -/
structure Config.IncludesBroken (setting : Setting) (name text : String) (c : Config) (e : Error) :
    Prop where
  includes : ∃ isolated template subject bindings v,
    c.control = .action (.include isolated template subject bindings) ∧
    template.eval (setting.engine.environment c.state.scope) = .ok v ∧ v.display = name
  missing : c.state.cache.get? name = none
  read : ∃ bytes, setting.engine.store.read name = .ok bytes ∧ Text.Utf8.decode bytes = .ok text
  fails : Template.compile setting.engine.grammar (.stored name) ⟨text, some name⟩ = .error e

/-- How an error with a place comes about in a step. -/
inductive Raises (setting : Setting) (c d : Config) (e : Error) : Prop where
  /-- It was there before. -/
  | passed {e' : Error} {p : Pending} (hc : c.control = .done (.error e'))
    (hp : c.pending = p :: d.pending) (he : e = p.passed e')
  | output {expr : Expr} {l : Location} (hc : c.control = .node (.output expr l))
    (he : e.location = some l)
  | action {l : Location} {waiting : List Pending} (hc : c.Executes l)
    (hd : d.pending = .place l :: waiting) (he : e.location = none)
  | broken {l : Location} {name text : String} (hc : c.Executes l)
    (he : c.IncludesBroken setting name text e)

/-- A step all of whose errors are of kinds that have no place. -/
abbrev Placeless {α : Type} (x : Render α) : Prop := FailsOnly (fun e => e.cause.hasPlace = false) x

theorem check_placeless (interrupt : Interrupt) : Placeless (check interrupt) :=
  .check (E := fun e => e.cause.hasPlace = false) rfl interrupt

theorem write_placeless (text : String) : Placeless (write text) := .write (fun _ => rfl) text

/-- What goes on after a node has ended evaluates nothing. -/
theorem resume_placeless (p : Pending) (signal : Signal) : Placeless (resume p (.ok signal)) := by
  have hitem (name : String) (items : LoopItems) (body : List Node) (index left : Nat) :
      Placeless (nextItem name items body index left) := by
    cases left with
    | zero | succ => exact fun _ => trivial
  have hmark (signal : Signal) : Placeless (writeSignal signal) := by
    cases signal with
    | normal => exact .ret _
    | leave | next => exact write_placeless _
  cases p with
  | rest => cases signal <;> exact fun _ => trivial
  | place | capture | inclusion => exact fun _ => trivial
  | loop name items body index left =>
    cases signal with
    | normal | next => exact hitem name items body index left
    | leave => exact hitem name items body index 0
  | outline clauses =>
    cases signal with
    | normal =>
      cases clauses with
      | nil | cons => exact .seq (write_placeless _) fun _ => .ret _
    | leave | next => exact .seq (.ret _) fun signal => .seq (hmark signal) fun _ => .ret _

/-- A step from a configuration in which every place is one of the template that it belongs to. -/
structure Advances (setting : Setting) (source : Option String) (names : List String)
    (c d : Config) : Prop where
  tracked : ∃ names', Tracked setting (names, c) (names', d) ∧ d.Signed source names'
  raises : ∀ e, d.control = .done (.error e) → e.cause.hasPlace = true → Raises setting c d e

variable {source : Option String} {names : List String} {c d : Config} {waiting : List Pending}
  {s : State}

theorem load_eq_error {key : String} {e : Error} {t : State}
    (h : load engine key s = (.error e, t)) :
    s.cache.get? key = none ∧ engine.fetch key = .error e ∧ t.cache = s.cache := by
  rcases load_cases engine key s with
    ⟨kept, -, hload⟩ | ⟨fetched, -, -, hload⟩ | ⟨e', hget, hfetch, hload⟩
  · rw [hload] at h
    cases h
  · rw [hload] at h
    cases h
  · rw [hload] at h
    cases h
    exact ⟨hget, hfetch, rfl⟩

/-- An inclusion fails, without a place unless a template does not compile, or it is opened. -/
theorem openInclusion_cases (hg : setting.engine.grammar.OfStandardTags) (isolated : Bool)
    (template : Expr) (subject : Option (Expr × Option String))
    (bindings : List (String × Expr)) (waiting : List Pending) (hs : s.cache.Signed) :
    (∃ e t, openInclusion setting.engine isolated template subject bindings s = (.error e, t) ∧
      t.cache.Signed ∧ (e.location = none ∨ ∃ name text, Config.IncludesBroken setting name text
        ⟨.action (.include isolated template subject bindings), waiting, s⟩ e)) ∨
    ∃ (v : Value) (included : Template) (t : State),
      template.eval (setting.engine.environment s.scope) = .ok v ∧
      openInclusion setting.engine isolated template subject bindings s
        = (.ok ⟨.nodes included.nodes, [.inclusion s.scope]⟩, t) ∧
      t.cache.Signed ∧ AllSigned (some v.display) (partsOf included.nodes) := by
  cases hv : template.eval (setting.engine.environment s.scope) with
  | error e =>
    have hbare := (Bare.eval setting.engine template).fails s
    rw [eval_apply, hv] at hbare
    exact .inl ⟨e, s, openInclusion_of_error hv, hs, .inl hbare⟩
  | ok v =>
    rw [openInclusion_of_ok hv]
    split
    · exact .inl ⟨_, s, rfl, hs, .inl rfl⟩
    · rcases hload : load setting.engine v.display s with ⟨e | included, t⟩
      · rw [bind_of_error hload]
        obtain ⟨hget, hfetch, hcache⟩ := load_eq_error hload
        refine .inl ⟨e, t, rfl, hcache ▸ hs, ?_⟩
        rcases Engine.fetch_eq_error hfetch with ⟨fault, rfl⟩ | ⟨text, hread, hfails⟩
        · exact .inl rfl
        · exact .inr ⟨v.display, text, ⟨isolated, template, subject, bindings, v, rfl, hv, rfl⟩,
            hget, hread, hfails⟩
      · rw [bind_of_ok hload]
        obtain ⟨ht, hincluded⟩ := load_signed hg hs hload
        have hparams := Bare.params setting.engine v.display subject bindings
        have hfails := hparams.fails t
        have hcache := cache_of_memory (hparams.leaves t) ht
        rcases hr : params setting.engine v.display subject bindings t with ⟨e | values, u⟩
        · rw [hr] at hfails hcache
          rw [bind_of_error hr]
          exact .inl ⟨e, u, rfl, hcache, .inl hfails⟩
        · rw [hr] at hcache
          rw [bind_of_ok hr, bind_of_ok (modifyScope_apply _ u)]
          exact .inr ⟨v, included, _, rfl, rfl, hcache, hincluded⟩

theorem inclusion_advances (hg : setting.engine.grammar.OfStandardTags) {isolated : Bool}
    {template : Expr} {subject : Option (Expr × Option String)} {bindings : List (String × Expr)}
    {l : Location} (hw : Waits source names (.place l :: waiting)) (hs : s.cache.Signed)
    (h : step setting ⟨.action (.include isolated template subject bindings), .place l :: waiting, s⟩
      = some d) :
    Advances setting source names
      ⟨.action (.include isolated template subject bindings), .place l :: waiting, s⟩ d := by
  have hd : settle (.place l :: waiting)
      (openInclusion setting.engine isolated template subject bindings s) = d := Option.some.inj h
  rcases openInclusion_cases hg isolated template subject bindings (.place l :: waiting) hs with
    ⟨e, t, heq, ht, he⟩ | ⟨v, included, t, hv, heq, ht, hincluded⟩
  · rw [heq] at hd
    subst hd
    refine ⟨⟨names, .within h rfl, Part.allSigned_nil, nofun, hw, ht⟩, fun e' he' _ => ?_⟩
    cases he'
    rcases he with he | ⟨name, text, he⟩
    · exact .action (.tag rfl rfl) rfl he
    · exact .broken (.tag rfl rfl) he
  · rw [heq] at hd
    subst hd
    exact ⟨⟨v.display :: names, .enter h rfl hv rfl, hincluded, nofun, .inclusion _ hw, ht⟩, nofun⟩

theorem Stays.advances {x : Render Launch} (hx : Stays (runningName source names) x)
    (hw : Waits source names waiting) (hs : s.cache.Signed) (h : step setting c = some d)
    (hd : some (settle waiting (x s)) = some d)
    (hopen : openInclusions waiting = openInclusions c.pending)
    (hraises : ∀ e, (x s).1 = .error e → e.location = none → e.cause.hasPlace = true →
      d.pending = waiting → Raises setting c d e) : Advances setting source names c d := by
  cases hd
  obtain ⟨hsigned, hopened, herror⟩ := settle_signed hx hw hs
  refine ⟨⟨names, .within h (hopened.trans hopen), hsigned⟩, fun e he hplace => ?_⟩
  obtain ⟨hfailed, hnone, hpending⟩ := herror e he
  exact hraises e hfailed hnone hplace hpending

/-- An output that fails tells its own place. -/
theorem Stays.located_advances {x : Render Launch} (hx : Stays (runningName source names) x)
    {e : Expr} {l : Location} (hw : Waits source names waiting) (hs : s.cache.Signed)
    (h : step setting ⟨.node (.output e l), waiting, s⟩ = some d)
    (hd : some (settle waiting (locatedAt l x s)) = some d) :
    Advances setting source names ⟨.node (.output e l), waiting, s⟩ d := by
  obtain ⟨hends, hmemory⟩ := hx s
  rcases hr : x s with ⟨e' | launch, t⟩
  · rw [hr] at hends hmemory
    rw [locatedAt_of_error _ hr] at hd
    cases hd
    refine ⟨⟨names, .within h rfl, Part.allSigned_nil, nofun, hw, cache_of_memory hmemory hs⟩,
      fun located he hplace => ?_⟩
    cases he
    refine .output rfl ?_
    rw [Error.cause_locatedAt] at hplace
    rw [Error.location_locatedAt l hplace, (show e'.location = none from hends), Option.none_or]
  · rw [locatedAt_of_ok _ hr] at hd
    refine hx.advances hw hs h (by rw [hr]; exact hd) rfl fun failed hfailed => ?_
    rw [hr] at hfailed
    cases hfailed

/-- Every step keeps the places with their templates, and an error arises where a node stands. -/
theorem step_advances (hg : setting.engine.grammar.OfStandardTags)
    (hc : c.Signed source names) (h : step setting c = some d) :
    Advances setting source names c d := by
  obtain ⟨control, waiting, s⟩ := c
  obtain ⟨hparts, hplaced, hw, hs⟩ := hc
  have spared {x : Render Launch} (hx : Placeless x) {c : Config} {rest : List Pending} (e : Error)
      (he : (x s).1 = .error e) (_ : e.location = none) (hplace : e.cause.hasPlace = true)
      (_ : d.pending = rest) : Raises setting c d e := by
    have hnone := hx s
    rw [he] at hnone
    cases hnone.symm.trans hplace
  cases control with
  | nodes nodes =>
    cases nodes with
    | nil =>
      cases h
      exact ⟨⟨names, .within rfl rfl, Part.allSigned_nil, nofun, hw, hs⟩, nofun⟩
    | cons node nodes =>
      obtain ⟨hnode, hrest⟩ := List.forall_mem_append.mp hparts
      have hstays : Stays (runningName source names) (Render.check setting.interrupt >>= fun _ =>
          pure ⟨.node node, [.rest nodes]⟩) :=
        .seq (.check _) fun _ => .go (.node hnode) ⟨nofun, hrest⟩
      exact hstays.advances hw hs h h rfl (spared (.seq (check_placeless _) fun _ => .ret _))
  | node node =>
    cases node with
    | text text =>
      have hstays : Stays (runningName source names)
          (Render.write text >>= fun _ => pure (.finish .normal)) :=
        .seq (.write _) fun _ => .finish _
      exact hstays.advances hw hs h h rfl (spared (.seq (write_placeless _) fun _ => .ret _))
    | output e l =>
      have hstays := (Stays.launching setting.engine (runningName source names)).emit
        (hparts _ List.mem_cons_self)
      exact hstays.located_advances hw hs h h
    | tag isBlock name l action =>
      cases h
      obtain ⟨hl, haction⟩ := List.forall_mem_cons.mp hparts
      have hplace : Pending.Of (runningName source names) (.place l) :=
        ⟨nofun, List.forall_mem_singleton.mpr hl⟩
      refine ⟨⟨names, .within rfl rfl, haction, ?_, .within hplace hw, hs⟩, nofun⟩
      intro _ _
      exact ⟨l, waiting, rfl⟩
  | action action =>
    obtain ⟨l, rest, rfl⟩ := hplaced action rfl
    by_cases hinclude : ∃ isolated template subject bindings,
        action = .include isolated template subject bindings
    · obtain ⟨isolated, template, subject, bindings, rfl⟩ := hinclude
      exact inclusion_advances hg hw hs h
    · have hstays : Stays (runningName source names) (enter setting.engine action) := by
        refine enter_stays hparts fun isolated template subject bindings heq => ?_
        exact hinclude ⟨isolated, template, subject, bindings, heq⟩
      exact hstays.advances hw hs h h rfl fun e _ hnone _ hpending =>
        .action (.tag rfl rfl) hpending hnone
  | done r =>
    cases hw with
    | nil => cases h
    | @within _ p waiting hp hw =>
      have hopen : openInclusions ([p] ++ waiting) = openInclusions waiting :=
        (hw.append (List.forall_mem_singleton.mpr hp)).2
      cases r with
      | ok signal =>
        exact (resume_stays hp signal).advances hw hs h h hopen.symm
          (spared (resume_placeless p signal))
      | error e =>
        obtain ⟨t, ht, hmemory⟩ := resume_error p e waiting s
        cases (congrArg some ht).symm.trans h
        refine ⟨⟨names, .within h hopen.symm, Part.allSigned_nil, nofun, hw,
          cache_of_memory hmemory hs⟩, fun e' he' _ => ?_⟩
        cases he'
        exact .passed rfl rfl rfl
    | @inclusion name names waiting caller hw =>
      cases r with
      | ok signal =>
        cases h
        exact ⟨⟨names, .leave rfl rfl, Part.allSigned_nil, nofun, hw, hs⟩, nofun⟩
      | error e =>
        cases h
        refine ⟨⟨names, .leave rfl rfl, Part.allSigned_nil, nofun, hw, hs⟩, fun e' he' _ => ?_⟩
        cases he'
        exact .passed rfl rfl rfl

theorem Config.Signed.executes (h : c.Signed source names) {l : Location} (hl : c.Executes l) :
    l.template = runningName source names := by
  cases hl with
  | output hcontrol =>
    have hparts := h.control
    rw [hcontrol] at hparts
    exact hparts (.place l) (List.mem_cons_of_mem _ List.mem_cons_self)
  | tag hcontrol hpending =>
    have hwaits := h.pending
    rw [hpending] at hwaits
    cases hwaits with
    | within hp _ => exact hp.2 (.place l) List.mem_cons_self

/-- An inclusion of a template that does not compile fails with the error of its compilation, unless
there may be no more inclusions. -/
theorem Config.IncludesBroken.raises {name text : String} {broken e : Error}
    (hbroken : c.IncludesBroken setting name text broken) (h : step setting c = some d)
    (hd : d.control = .done (.error e)) (he : e.cause.hasPlace = true) : e = broken := by
  obtain ⟨⟨isolated, template, subject, bindings, v, hcontrol, hv, rfl⟩, hmissing,
    ⟨bytes, hread, hdecode⟩, hfails⟩ := hbroken
  obtain ⟨control, waiting, s⟩ := c
  cases hcontrol
  have hfetch := Engine.fetch_of_broken hread hdecode hfails
  simp only [step, enter] at h
  rw [openInclusion_of_ok hv] at h
  split at h
  · cases h
    cases hd
    cases he
  · rcases load_cases setting.engine v.display s with
      ⟨kept, hget, -⟩ | ⟨fetched, -, hfetched, -⟩ | ⟨e', -, hfetched, hload⟩
    · cases hmissing.symm.trans hget
    · cases hfetch.symm.trans hfetched
    · cases hfetch.symm.trans hfetched
      rw [bind_of_error hload] at h
      cases h
      cases hd
      rfl

/-- On the way from a configuration an error of this cause arises in another one, which executes a
node at the place. -/
structure RaisedAt (setting : Setting) (source : Option String) (first : Config) (cause : Cause)
    (c : Config) (l : Location) : Prop where
  tracked : ∃ names, Relation.ReflTransGen (Tracked setting) ([], first) (names, c) ∧
    l.template = runningName source names
  executes : c.Executes l
  fails : ∃ d e, step setting c = some d ∧ d.control = .done (.error e) ∧ e.cause = cause

theorem RaisedAt.steps {first : Config} {cause : Cause} {l : Location}
    (h : RaisedAt setting source first cause c l) : Steps setting first c := by
  obtain ⟨names, htracked, -⟩ := h.tracked
  exact htracked.lift Prod.snd fun _ _ hstep => hstep.step

/-- The error has the place of the node that is executed, or one in an inclusion that is broken. -/
def Config.Places (setting : Setting) (c : Config) (l : Location) (e : Error) : Prop :=
  (e.location = some l ∧ ∀ name text broken, ¬ c.IncludesBroken setting name text broken) ∨
    ∃ name text, c.IncludesBroken setting name text e

/-- The error that a configuration comes to has its place, or is about to get it. -/
def Explains (setting : Setting) (source : Option String) (first d : Config) (e : Error) : Prop :=
  ∃ c l, RaisedAt setting source first e.cause c l ∧ (c.Places setting l e ∨
    (e.location = none ∧ ∀ name text broken, ¬ c.IncludesBroken setting name text broken) ∧
      ∃ waiting, d.pending = .place l :: waiting)

theorem Config.IncludesBroken.located (hg : setting.engine.grammar.OfStandardTags)
    {name text : String} {e : Error} (h : c.IncludesBroken setting name text e) :
    ∃ l, e.location = some l := by
  obtain ⟨span, -, ⟨l, hl, -⟩, -⟩ := Template.compile_atFault hg h.fails
  exact ⟨l, hl⟩

theorem Pending.passed_of_location {p : Pending} {e : Error} {l : Location}
    (h : e.location = some l) : p.passed e = e := by
  obtain ⟨cause, location⟩ := e
  cases h
  cases p with
  | place m => exact Error.placed_of_location cause l m
  | rest | capture | loop | inclusion | outline => rfl

theorem Pending.cause_passed (p : Pending) (e : Error) : (p.passed e).cause = e.cause := by
  cases p with
  | place l => exact Error.cause_locatedAt l e
  | rest | capture | loop | inclusion | outline => rfl

theorem Explains.passed (hg : setting.engine.grammar.OfStandardTags) {first : Config} {p : Pending}
    {e : Error} (hp : c.pending = p :: waiting) (he : e.cause.hasPlace = true)
    (h : Explains setting source first c e) : Explains setting source first d (p.passed e) := by
  obtain ⟨b, l, hraised, hplaces⟩ := h
  rw [← p.cause_passed] at hraised
  refine ⟨b, l, hraised, .inl ?_⟩
  rcases hplaces with (⟨hl, hsound⟩ | ⟨name, text, hbroken⟩) | ⟨⟨hnone, hsound⟩, rest, hrest⟩
  · rw [Pending.passed_of_location hl]
    exact .inl ⟨hl, hsound⟩
  · obtain ⟨m, hm⟩ := hbroken.located hg
    rw [Pending.passed_of_location hm]
    exact .inr ⟨name, text, hbroken⟩
  · cases hp.symm.trans hrest
    refine .inl ⟨?_, hsound⟩
    rw [Pending.passed, Error.location_locatedAt l he, hnone, Option.none_or]

/-- Wherever the machine is, every place is one of the template that it belongs to, and an error has
its place or is about to get it. -/
theorem Steps.explained (hg : setting.engine.grammar.OfStandardTags) {first : Config}
    (hfirst : first.Signed source []) (hstart : ∀ e, first.control ≠ .done (.error e))
    (h : Steps setting first d) :
    (∃ names, Relation.ReflTransGen (Tracked setting) ([], first) (names, d) ∧
      d.Signed source names) ∧
    ∀ e, d.control = .done (.error e) → e.cause.hasPlace = true →
      Explains setting source first d e := by
  induction h with
  | refl => exact ⟨⟨[], .refl, hfirst⟩, fun e he => absurd he (hstart e)⟩
  | @tail c d _ hcd ih =>
    obtain ⟨⟨names, htracked, hsigned⟩, hexplained⟩ := ih
    obtain ⟨⟨names', hnext, hd⟩, hraises⟩ := step_advances hg hsigned hcd
    refine ⟨⟨names', htracked.tail hnext, hd⟩, fun e he hplace => ?_⟩
    have raisedAt {l : Location} (hl : c.Executes l) :
        RaisedAt setting source first e.cause c l :=
      ⟨⟨names, htracked, hsigned.executes hl⟩, hl, d, e, hcd, he, rfl⟩
    have sound (hnone : e.location = none) (name text : String) (broken : Error) :
        ¬ c.IncludesBroken setting name text broken := by
      intro hbroken
      obtain ⟨l, hl⟩ := hbroken.located hg
      rw [← hbroken.raises hcd he hplace, hnone] at hl
      cases hl
    cases hraises e he hplace with
    | @passed e' p hc hp heq =>
      subst heq
      rw [p.cause_passed] at hplace
      exact .passed hg hp hplace (hexplained e' hc hplace)
    | @output expr l hc heq =>
      refine ⟨c, l, raisedAt (.output hc), .inl (.inl ⟨heq, fun name text broken hbroken => ?_⟩)⟩
      obtain ⟨isolated, template, subject, bindings, v, hinclude, -⟩ := hbroken.includes
      cases hc.symm.trans hinclude
    | @action l waiting hl hpending hnone =>
      exact ⟨c, l, raisedAt hl, .inr ⟨⟨hnone, sound hnone⟩, waiting, hpending⟩⟩
    | @broken l name text hl hbroken =>
      exact ⟨c, l, raisedAt hl, .inl (.inr ⟨name, text, hbroken⟩)⟩

end Machine

end Render

theorem Cause.hasPlace_cases (c : Cause) :
    (∃ name limit, c = .recursiveInclude name limit) ∨ c = .cancelled ∨
      (∃ fault, c = .output fault) ∨ c.hasPlace = true := by
  cases c with
  | recursiveInclude name limit => exact .inl ⟨name, limit, rfl⟩
  | cancelled => exact .inr (.inl rfl)
  | output fault => exact .inr (.inr (.inl ⟨fault, rfl⟩))
  | malformed | undefinedTag | undefinedFilter | conversion | undefinedVariable | store
  | evaluation | filter => exact .inr (.inr (.inr rfl))

open Render.Machine in
/-- Every error tells where it arose. A template that does not compile fails in a piece of its own
markup. A render that does not succeed fails where the innermost node stands that is executed, in
the template that was included last of those that still run. If that node includes a template that
has to be loaded and does not compile, the render fails in that one. -/
theorem errors_tell_places {g : Grammar} (hg : g.OfStandardTags) :
    (∀ {origin source e}, Template.compile g origin source = .error e →
      e.AtFault g origin source) ∧
    ∀ {g' : Grammar} {origin source template} {session : Session} {bindings sink interrupt e},
      g'.OfStandardTags → Template.compile g' origin source = .ok template → session.Reached g →
      (session.render template bindings sink interrupt).1.1 = .error e →
      let setting : Setting := ⟨session.engine, interrupt⟩
      (∃ name limit, e.cause = .recursiveInclude name limit) ∨ e.cause = .cancelled ∨
      (∃ fault, e.cause = .output fault) ∨
      ∃ c l t, RaisedAt setting source.name (start template.nodes (session.start bindings sink))
          e.cause c l ∧ Steps setting c (stop [] (.error e, t)) ∧
        (e.location = some l ∧
            (∀ name text broken, ¬ c.IncludesBroken setting name text broken) ∨
          ∃ name text, c.IncludesBroken setting name text e ∧
            e.AtFault g (.stored name) ⟨text, some name⟩) := by
  refine ⟨Template.compile_atFault hg, ?_⟩
  intro g' origin source template session bindings sink interrupt e hg' hcompile hsession he setting
  refine e.cause.hasPlace_cases.imp_right (.imp_right (.imp_right fun hplace => ?_))
  have hgrammar : session.engine.grammar = g := (hsession.checked hg).1
  obtain ⟨r, t, hrun⟩ : ∃ r t, Render.run setting template.nodes (session.start bindings sink)
      = (r, t) := ⟨_, _, rfl⟩
  rw [Render.render_of_run hrun] at he
  cases r with
  | ok signal =>
    obtain ⟨fault, -, rfl⟩ := mapError_eq_error.mp he
    cases hplace
  | error e' =>
    cases he
    have hsteps := steps_run setting template.nodes (session.start bindings sink)
    rw [hrun] at hsteps
    obtain ⟨c, l, hraised, hplaces | ⟨-, waiting, hwaiting⟩⟩ :=
      (Steps.explained (hgrammar ▸ hg) (start_signed hg hg' hsession hcompile bindings sink) nofun
        hsteps).2 e rfl hplace
    · refine ⟨c, l, t, hraised, hraised.steps.onward hsteps rfl, hplaces.imp_right ?_⟩
      rintro ⟨name, text, hbroken⟩
      have hfails := hbroken.fails
      rw [show setting.engine.grammar = g from hgrammar] at hfails
      exact ⟨name, text, hbroken, Template.compile_atFault hg hfails⟩
    · cases hwaiting

open Render.Machine in
/-- A filter that is not registered is reported where it stands, and a variable that is missing in an
included template at the output of that template which asks for it. -/
theorem errors_tell_places_of_filter_and_variable :
    let g := Grammar.addStandardTags {}
    let broken : SourceText := ⟨"\x7b\x7b x | up \x7d\x7d", some "b"⟩
    let source : SourceText := ⟨"\x7b% include 'a' %\x7d", none⟩
    let template : Template := ⟨[.tag false "include" ⟨none, 1, 1, 0⟩
      (.include false (.literal (.str "a")) none [])], source⟩
    let session : Session := { engine := {
      grammar := g
      store := .memory [("a", "ok \x7b\x7b x \x7d\x7d".toUTF8)]
      options := { strictVariables := true } } }
    Template.compile g (.direct 0) broken
        = .error ⟨.undefinedFilter "up", some ⟨some "b", 1, 8, 7⟩⟩ ∧
      Error.AtFault g (.direct 0) broken ⟨.undefinedFilter "up", some ⟨some "b", 1, 8, 7⟩⟩ ∧
      (session.render template [] {} fun _ _ => false).1.1
        = .error ⟨.undefinedVariable "x", some ⟨some "a", 1, 4, 3⟩⟩ ∧
      ∃ c l, RaisedAt ⟨session.engine, fun _ _ => false⟩ none
          (start template.nodes (session.start [] {})) (.undefinedVariable "x") c l ∧
        l = ⟨some "a", 1, 4, 3⟩ := by
  intro g broken source template session
  have hbroken : Template.compile g (.direct 0) broken
      = .error ⟨.undefinedFilter "up", some ⟨some "b", 1, 8, 7⟩⟩ := by
    cbv
  have hcompile : Template.compile g (.direct 0) source = .ok template := by
    cbv
  have herror : (session.render template [] {} fun _ _ => false).1.1
      = .error ⟨.undefinedVariable "x", some ⟨some "a", 1, 4, 3⟩⟩ := by
    cbv
  have hstandard : g.OfStandardTags := .standard []
  have h := errors_tell_places hstandard
  refine ⟨hbroken, h.1 hbroken, herror, ?_⟩
  rcases h.2 hstandard hcompile (.fresh rfl) herror with
    ⟨_, _, hc⟩ | hc | ⟨_, hc⟩ | ⟨c, l, t, hraised, -, ⟨hl, -⟩ | ⟨name, text, hinclude, -⟩⟩
  · cases hc
  · cases hc
  · cases hc
  · exact ⟨c, l, hraised, (Option.some.inj hl).symm⟩
  · -- what does not compile is not about values
    have hends := Template.compile_ends hstandard (.stored name) ⟨text, some name⟩
    rw [show Template.compile g _ _ = _ from hinclude.fails] at hends
    cases hends.1

end Stencil
