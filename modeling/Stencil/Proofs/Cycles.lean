import Stencil.Proofs.Machine
import Stencil.Proofs.Occurrences
import Stencil.Proofs.Transparency

/-!
# Cycles in turn

Whatever a render does, it counts the executions of cycles under their keys, and the number of those
under a key decides which value the next one under it writes. A cycle that runs is a tag of one of
the templates that the render may run.
-/
namespace Stencil.Render

theorem cycleCount_setCycleCount_self (key : CycleKey) (n : Nat) (cycles : List (CycleKey × Nat)) :
    cycleCount key (setCycleCount key n cycles) = n := by
  induction cycles with
  | nil => simp [setCycleCount, cycleCount]
  | cons entry cycles ih =>
    obtain ⟨k, m⟩ := entry
    simp only [setCycleCount]
    split
    · simp [cycleCount]
    · rename_i hne
      simpa [cycleCount, List.find?_cons, hne] using ih

theorem cycleCount_setCycleCount_of_ne {key other : CycleKey} (h : other ≠ key) (n : Nat)
    (cycles : List (CycleKey × Nat)) :
    cycleCount other (setCycleCount key n cycles) = cycleCount other cycles := by
  induction cycles with
  | nil => simp [setCycleCount, cycleCount, Ne.symm h]
  | cons entry cycles ih =>
    obtain ⟨k, m⟩ := entry
    simp only [setCycleCount]
    split
    · rename_i heq
      subst heq
      simp [cycleCount, Ne.symm h]
    · by_cases hk : k = other
      · simp [cycleCount, hk]
      · simpa [cycleCount, List.find?_cons, hk] using ih

namespace Machine

def Control.cycles : Control → List CycleTag
  | .nodes body => cyclesIn body
  | .node n => n.cycles
  | .action a => a.cycles
  | .done _ => []

def Pending.cycles : Pending → List CycleTag
  | .rest nodes => cyclesIn nodes
  | .place _ => []
  | .capture _ => []
  | .loop _ _ body _ _ => cyclesIn body
  | .inclusion _ => []
  | .outline clauses => clauseCycles clauses

def Launch.cycles (l : Launch) : List CycleTag :=
  l.control.cycles ++ l.pending.flatMap Pending.cycles

def Config.cycles (c : Config) : List CycleTag :=
  c.control.cycles ++ c.pending.flatMap Pending.cycles

/-- A cycle that is about to be executed, with the key that it is counted under: what its group
shows, or where it stands. -/
inductive Config.ExecutesCycle (engine : Engine) : Config → CycleTag → CycleKey → Prop where
  | grouped {o : Occurrence} {e : Expr} {values : List Expr} {waiting : List Pending} {s : State}
    {v : Value} (h : e.eval (engine.environment s.scope) = .ok v) :
    ExecutesCycle engine ⟨.action (.cycle o (some e) values), waiting, s⟩ ⟨o, some e, values⟩
      (.group v.display)
  | alone {o : Occurrence} {values : List Expr} {waiting : List Pending} {s : State} :
    ExecutesCycle engine ⟨.action (.cycle o none values), waiting, s⟩ ⟨o, none, values⟩
      (.occurrence o)

/-- The machine comes to a configuration and executes cycles under these keys on its way, the first
one first. -/
inductive Runs (setting : Setting) (c : Config) : List CycleKey → Config → Prop where
  | start : Runs setting c [] c
  | other {keys : List CycleKey} {d e : Config} : Runs setting c keys d →
    (∀ cycle key, ¬ d.ExecutesCycle setting.engine cycle key) → step setting d = some e →
    Runs setting c keys e
  | cycle {keys : List CycleKey} {d e : Config} {cycle : CycleTag} {key : CycleKey} :
    Runs setting c keys d → d.ExecutesCycle setting.engine cycle key → step setting d = some e →
    Runs setting c (keys ++ [key]) e

theorem Steps.runs {setting : Setting} {c d : Config} (h : Steps setting c d) :
    ∃ keys, Runs setting c keys d := by
  induction h with
  | refl => exact ⟨[], .start⟩
  | @tail d e _ hstep ih =>
    obtain ⟨keys, hruns⟩ := ih
    by_cases hcycle : ∃ cycle key, d.ExecutesCycle setting.engine cycle key
    · obtain ⟨cycle, key, hcycle⟩ := hcycle
      exact ⟨keys ++ [key], hruns.cycle hcycle hstep⟩
    · exact ⟨keys, hruns.other (fun cycle key h => hcycle ⟨cycle, key, h⟩) hstep⟩

/-- Write a value, if there is one. -/
def writeValue (engine : Engine) : Option Expr → Render Launch
  | none => return .finish .normal
  | some e => do
    write (← eval engine e).display
    return .finish .normal

/-- What is counted, and what names stand for. -/
def ledger (engine : Engine) (s : State) :
    List (CycleKey × Nat) × (String → Except Error Template) :=
  (s.cycles, s.cache.served engine)

variable {α : Type} {engine : Engine} {ok : CycleTag → Prop} {s : State}

/-- A step that counts nothing, and goes on with such cycles only. -/
def Uncounted (engine : Engine) (ok : CycleTag → Prop) (s : State) (x : Render Launch) : Prop :=
  ledger engine (x s).2 = ledger engine s ∧ ∀ l, (x s).1 = .ok l → ∀ c ∈ l.cycles, ok c

namespace Uncounted

theorem go {l : Launch} (h : ∀ c ∈ l.cycles, ok c) : Uncounted engine ok s (pure l) := by
  refine ⟨rfl, fun l' heq => ?_⟩
  cases heq
  exact h

theorem finish (signal : Signal) : Uncounted engine ok s (pure (.finish signal)) :=
  go fun _ h => (List.not_mem_nil h).elim

theorem fail (e : Error) : Uncounted engine ok s (throw e) := ⟨rfl, nofun⟩

theorem nodes {nodes : List Node} (h : ∀ c ∈ cyclesIn nodes, ok c) :
    Uncounted engine ok s (pure (.nodes nodes)) :=
  go (l := .nodes nodes) (by simpa [Launch.cycles, Launch.nodes, Control.cycles] using h)

theorem within {nodes : List Node} {p : Pending} (h : ∀ c ∈ cyclesIn nodes, ok c)
    (hp : ∀ c ∈ p.cycles, ok c) : Uncounted engine ok s (pure ⟨.nodes nodes, [p]⟩) := by
  refine go fun c hc => ?_
  simp only [Launch.cycles, Control.cycles, List.flatMap_singleton, List.mem_append] at hc
  exact hc.elim (h c) (hp c)

theorem seq {z : Render α} {f : α → Render Launch} (hz : Leaves (ledger engine) z)
    (h : ∀ a t, z s = (.ok a, t) → Uncounted engine ok t (f a)) :
    Uncounted engine ok s (z >>= f) := by
  have hledger := hz s
  rcases hr : z s with ⟨e | a, t⟩
  · rw [hr] at hledger
    rw [Uncounted, bind_of_error hr]
    exact ⟨hledger, nofun⟩
  · rw [hr] at hledger
    rw [Uncounted, bind_of_ok hr]
    obtain ⟨hnext, hcycles⟩ := h a t hr
    exact ⟨hnext.trans hledger, hcycles⟩

theorem located {x : Render Launch} (l : Location) (h : Uncounted engine ok s x) :
    Uncounted engine ok s (locatedAt l x) := by
  obtain ⟨hledger, hcycles⟩ := h
  refine ⟨hledger, fun launch heq => hcycles launch ?_⟩
  exact mapError_eq_ok.mp heq

end Uncounted

theorem write_leaves_ledger (text : String) : Leaves (ledger engine) (write text) :=
  write_leaves (fun _ _ _ => rfl) text

theorem load_leaves_ledger (name : String) : Leaves (ledger engine) (load engine name) := fun s =>
  Prod.ext rfl (Transparent.load_leaves_served engine name s)

theorem emit_uncounted (e : Expr) : Uncounted engine ok s (do
    write (← eval engine e).display
    return .finish .normal) :=
  .seq (fun _ => rfl) fun _ _ _ => .seq (write_leaves_ledger _) fun _ _ _ => .finish _

theorem writeValue_uncounted (e? : Option Expr) : Uncounted engine ok s (writeValue engine e?) := by
  cases e? with
  | none => exact .finish _
  | some e => exact emit_uncounted e

theorem branch_uncounted {branches : List (Guard × List Node)}
    (h : ∀ c ∈ branchCycles branches, ok c) : Uncounted engine ok s (branch engine branches) := by
  induction branches generalizing s with
  | nil => exact .finish _
  | cons branch branches ih =>
    obtain ⟨hbody, hrest⟩ := List.forall_mem_append.mp h
    have hguard : Leaves (ledger engine) (guardHolds engine branch.1) :=
      (Leaves.evaluation _ engine).guard fun _ _ => trivial
    refine .seq hguard fun holds t _ => ?_
    split
    · exact .nodes hbody
    · exact ih hrest

theorem choice_uncounted (subject : Value) {otherwise : List Node}
    (ho : ∀ c ∈ cyclesIn otherwise, ok c) {whens : List (List Expr × List Node)}
    (h : ∀ c ∈ whenCycles whens, ok c) :
    Uncounted engine ok s (choice engine subject otherwise whens) := by
  induction whens generalizing s with
  | nil => exact .nodes ho
  | cons when whens ih =>
    obtain ⟨hbody, hrest⟩ := List.forall_mem_append.mp h
    have hsame : Leaves (ledger engine) (anySame engine subject when.1) :=
      (Leaves.evaluation _ engine).anySame subject fun _ _ => trivial
    refine .seq hsame fun same t _ => ?_
    split
    · exact .nodes hbody
    · exact ih hrest

theorem nextItem_uncounted (name : String) (items : LoopItems) {body : List Node}
    (h : ∀ c ∈ cyclesIn body, ok c) (index left : Nat) :
    Uncounted engine ok s (nextItem name items body index left) := by
  cases left with
  | zero => exact .seq (fun _ => rfl) fun _ _ _ => .finish _
  | succ left => exact .seq (fun _ => rfl) fun _ _ _ => .within h h

theorem nextClause_uncounted {clauses : List (TagSource × List Node)}
    (h : ∀ c ∈ clauseCycles clauses, ok c) : Uncounted engine ok s (nextClause clauses) := by
  cases clauses with
  | nil => exact .seq (write_leaves_ledger _) fun _ _ _ => .finish _
  | cons clause clauses =>
    obtain ⟨hbody, hrest⟩ := List.forall_mem_append.mp h
    exact .seq (write_leaves_ledger _) fun _ _ _ => .within hbody hrest

/-- An inclusion goes on with a template that a name stands for. -/
theorem openInclusion_uncounted (isolated : Bool) (template : Expr)
    (subject : Option (Expr × Option String)) (bindings : List (String × Expr))
    (h : ∀ name t, s.cache.served engine name = .ok t → ∀ c ∈ cyclesIn t.nodes, ok c) :
    Uncounted engine ok s (openInclusion engine isolated template subject bindings) := by
  refine .seq (fun _ => rfl) fun v t ht => .seq (fun _ => rfl) fun caller u hu => ?_
  obtain rfl : s = t := congrArg Prod.snd ht
  obtain rfl : s = u := congrArg Prod.snd hu
  split
  · exact .fail _
  · refine .seq (load_leaves_ledger _) fun included t hload => ?_
    have hserved := Transparent.load_eq engine v.display s
    rw [hload] at hserved
    refine .seq (params_leaves _ _ _ _ _) fun params _ _ => .seq (fun _ => rfl) fun _ _ _ => ?_
    exact .within (h _ _ hserved.symm) fun _ hc => (List.not_mem_nil hc).elim

/-- Every action but a cycle counts nothing. -/
theorem enter_uncounted (action : Action) (hok : ∀ c ∈ action.cycles, ok c)
    (h : ∀ name t, s.cache.served engine name = .ok t → ∀ c ∈ cyclesIn t.nodes, ok c)
    (hcycle : ∀ c : CycleTag, action ≠ c.action) : Uncounted engine ok s (enter engine action) := by
  cases action with
  | nothing | jump signal => exact .finish _
  | write text => exact .seq (write_leaves_ledger _) fun _ _ _ => .finish _
  | emit e => exact emit_uncounted e
  | assign target e =>
    exact .seq (fun _ => rfl) fun _ _ _ => .seq (fun _ => rfl) fun _ _ _ => .finish _
  | capture target body =>
    exact .seq (fun _ => rfl) fun _ _ _ => .within hok fun _ hc => (List.not_mem_nil hc).elim
  | conditional branches => exact branch_uncounted hok
  | choice subject whens otherwise =>
    obtain ⟨hwhens, ho⟩ := List.forall_mem_append.mp hok
    exact .seq (fun _ => rfl) fun v _ _ => choice_uncounted v ho hwhens
  | loop name source modifiers body otherwise =>
    obtain ⟨hbody, ho⟩ := List.forall_mem_append.mp hok
    have hitems : Leaves (ledger engine) (loopItems engine source modifiers) :=
      (Leaves.evaluation _ engine).loopItems trivial (fun _ _ => trivial) fun _ _ => trivial
    refine .seq hitems fun items _ _ => ?_
    split
    · exact .nodes ho
    · exact .seq (fun _ => rfl) fun _ _ _ => nextItem_uncounted name items hbody 0 items.count
  | cycle occurrence group values => exact absurd rfl (hcycle ⟨occurrence, group, values⟩)
  | «include» isolated template subject bindings =>
    exact openInclusion_uncounted isolated template subject bindings h
  | outline tag body clauses =>
    obtain ⟨hbody, hclauses⟩ := List.forall_mem_append.mp hok
    exact .seq (write_leaves_ledger _) fun _ _ _ => .within hbody hclauses

theorem resume_uncounted (p : Pending) (hok : ∀ c ∈ p.cycles, ok c) (r : Except Error Signal) :
    Uncounted engine ok s (resume p r) := by
  have hlift (signal : Except Error Signal) : Uncounted engine ok s (do
      return .finish (← liftExcept signal)) := .seq (fun _ => rfl) fun _ _ _ => .finish _
  cases p with
  | rest nodes =>
    cases r with
    | error e => exact hlift _
    | ok signal =>
      cases signal with
      | normal => exact .nodes hok
      | leave | next => exact hlift _
  | place l => exact hlift _
  | capture target =>
    refine .seq (fun _ => rfl) fun _ _ _ => .seq (fun _ => rfl) fun _ _ _ => ?_
    exact .seq (fun _ => rfl) fun _ _ _ => .finish _
  | loop name items body index left =>
    cases r with
    | error e => exact .seq (fun _ => rfl) fun _ _ _ => .fail e
    | ok signal =>
      cases signal with
      | leave => exact nextItem_uncounted name items hok index 0
      | normal | next => exact nextItem_uncounted name items hok index left
  | inclusion caller =>
    exact .seq (fun _ => rfl) fun _ _ _ => .seq (fun _ => rfl) fun _ _ _ => .finish _
  | outline clauses =>
    have hmark (signal : Signal) : Leaves (ledger engine) (writeSignal signal) := by
      cases signal with
      | normal => exact .ret _ ()
      | leave | next => exact write_leaves_ledger _
    have hends (signal : Except Error Signal) : Uncounted engine ok s (do
        let signal ← liftExcept signal
        writeSignal signal
        return .finish signal) :=
      .seq (fun _ => rfl) fun signal _ _ => .seq (hmark signal) fun _ _ _ => .finish _
    cases r with
    | error e => exact hends _
    | ok signal =>
      cases signal with
      | normal => exact nextClause_uncounted hok
      | leave | next => exact hends _

theorem Config.ExecutesCycle.action {c : Config} {cycle : CycleTag} {key : CycleKey}
    (h : c.ExecutesCycle engine cycle key) :
    ∃ action waiting s, c = ⟨.action action, waiting, s⟩ := by
  cases h with
  | grouped | alone => exact ⟨_, _, _, rfl⟩

/-- A cycle without a group, and no other one, is counted under its occurrence. -/
theorem Config.ExecutesCycle.group_eq_none {c : Config} {cycle : CycleTag} {key : CycleKey}
    (h : c.ExecutesCycle engine cycle key) :
    cycle.group = none ∧ key = .occurrence cycle.occurrence ∨
      cycle.group ≠ none ∧ ∃ text, key = .group text := by
  cases h with
  | grouped => exact .inr ⟨nofun, _, rfl⟩
  | alone => exact .inl ⟨rfl, rfl⟩

/-- Two cycles that are counted under one key are one tag without a group, or both have a group. -/
theorem Config.ExecutesCycle.of_same_key {c d : Config} {cycle other : CycleTag} {key : CycleKey}
    (hc : c.ExecutesCycle engine cycle key) (hd : d.ExecutesCycle engine other key) :
    cycle.group = none ∧ other.group = none ∧ cycle.occurrence = other.occurrence ∨
      cycle.group ≠ none ∧ other.group ≠ none := by
  rcases hc.group_eq_none with ⟨hnone, rfl⟩ | ⟨hsome, text, rfl⟩
  · rcases hd.group_eq_none with ⟨hnone', heq⟩ | ⟨-, text, heq⟩
    · exact .inl ⟨hnone, hnone', CycleKey.occurrence.inj heq⟩
    · cases heq
  · rcases hd.group_eq_none with ⟨-, heq⟩ | ⟨hsome', -⟩
    · cases heq
    · exact .inr ⟨hsome, hsome'⟩

/-- The value at the next position, if there are values at all. -/
theorem getElem?_turn (values : List Expr) (n : Nat) :
    values[n % max values.length 1]? = values[n % values.length]? := by
  cases values with
  | nil => rfl
  | cons e values =>
    have hmax : max (e :: values).length 1 = (e :: values).length :=
      Nat.max_eq_left (Nat.succ_pos values.length)
    rw [hmax]

/-- A cycle that is executed is counted, and writes the value whose turn it is. -/
theorem enter_cycle {action : Action} {waiting : List Pending} {cycle : CycleTag} {key : CycleKey}
    (h : Config.ExecutesCycle engine ⟨.action action, waiting, s⟩ cycle key) :
    action = cycle.action ∧ enter engine action s =
      writeValue engine cycle.values[cycleCount key s.cycles % cycle.values.length]?
        { s with cycles := setCycleCount key (cycleCount key s.cycles + 1) s.cycles } := by
  have hkey : action = cycle.action ∧
      cycleKey engine cycle.occurrence cycle.group s = (.ok key, s) := by
    cases h with
    | grouped hv => exact ⟨rfl, by simp only [cycleKey, bind_apply, eval_apply, hv, pure_apply]⟩
    | alone => exact ⟨rfl, rfl⟩
  obtain ⟨rfl, hkey⟩ := hkey
  have hnext : nextCycle key cycle.values.length s =
      (.ok (cycleCount key s.cycles % max cycle.values.length 1),
        { s with cycles := setCycleCount key (cycleCount key s.cycles + 1) s.cycles }) := rfl
  refine ⟨rfl, ?_⟩
  simp only [CycleTag.action, enter]
  rw [bind_of_ok hkey, bind_of_ok hnext, getElem?_turn]
  cases cycle.values[cycleCount key s.cycles % cycle.values.length]? with
  | none | some => rfl

/-- A cycle that has a key is executed under it. -/
theorem executes_of_cycleKey {cycle : CycleTag} {key : CycleKey} {t : State}
    (waiting : List Pending)
    (h : cycleKey engine cycle.occurrence cycle.group s = (.ok key, t)) :
    Config.ExecutesCycle engine ⟨.action cycle.action, waiting, s⟩ cycle key := by
  obtain ⟨o, group, values⟩ := cycle
  cases group with
  | none =>
    cases h
    exact .alone
  | some e =>
    simp only [cycleKey, bind_apply, eval_apply] at h
    cases hv : e.eval (engine.environment s.scope) with
    | error err =>
      rw [hv] at h
      cases h
    | ok v =>
      rw [hv] at h
      cases h
      exact .grouped hv

/-- A configuration that has come about with executions under these keys. What names stand for is as
it was, and cycles that may run are `ok`. -/
structure Config.Counted (engine : Engine) (served : String → Except Error Template)
    (ok : CycleTag → Prop) (keys : List CycleKey) (c : Config) : Prop where
  counts : ∀ key, cycleCount key c.state.cycles = keys.count key
  served : c.state.cache.served engine = served
  cycles : ∀ cycle ∈ c.cycles, ok cycle

variable {setting : Setting} {served : String → Except Error Template} {keys : List CycleKey}
  {c d : Config}

theorem Uncounted.settle {x : Render Launch} {waiting : List Pending}
    (hx : Uncounted engine ok s x) (hcounts : ∀ key, cycleCount key s.cycles = keys.count key)
    (hserved : s.cache.served engine = served)
    (hwaiting : ∀ cycle ∈ waiting.flatMap Pending.cycles, ok cycle) :
    (Machine.settle waiting (x s)).Counted engine served ok keys := by
  obtain ⟨hledger, hlaunch⟩ := hx
  have hcycles : (x s).2.cycles = s.cycles := congrArg Prod.fst hledger
  have hcache : (x s).2.cache.served engine = s.cache.served engine := congrArg Prod.snd hledger
  rcases hr : x s with ⟨e | l, t⟩
  · rw [hr] at hcycles hcache
    exact ⟨hcycles ▸ hcounts, hcache.trans hserved, hwaiting⟩
  · rw [hr] at hcycles hcache hlaunch
    refine ⟨hcycles ▸ hcounts, hcache.trans hserved, fun cycle hcycle => ?_⟩
    simp only [Machine.settle, Config.cycles, List.flatMap_append, List.mem_append] at hcycle
    rcases hcycle with h | h | h
    · exact hlaunch l rfl cycle (List.mem_append_left _ h)
    · exact hlaunch l rfl cycle (List.mem_append_right _ h)
    · exact hwaiting cycle h

/-- A step that executes no cycle counts nothing. -/
theorem Config.Counted.step (h : c.Counted setting.engine served ok keys)
    (hok : ∀ name t, served name = .ok t → ∀ cycle ∈ cyclesIn t.nodes, ok cycle)
    (hnone : ∀ cycle key, ¬ c.ExecutesCycle setting.engine cycle key)
    (hstep : Machine.step setting c = some d) : d.Counted setting.engine served ok keys := by
  obtain ⟨control, waiting, s⟩ := c
  obtain ⟨hcounts, hserved, hcycles⟩ := h
  obtain ⟨hcontrol, hwaiting⟩ := List.forall_mem_append.mp hcycles
  have hsettle {x : Render Launch} (hx : Uncounted setting.engine ok s x)
      (hd : some (Machine.settle waiting (x s)) = some d) :
      d.Counted setting.engine served ok keys := by
    cases hd
    exact hx.settle hcounts hserved hwaiting
  cases control with
  | nodes nodes =>
    cases nodes with
    | nil =>
      cases hstep
      exact ⟨hcounts, hserved, hwaiting⟩
    | cons node nodes =>
      refine hsettle (.seq (fun _ => rfl) fun _ _ _ => .go ?_) hstep
      simpa [Launch.cycles, Control.cycles, Pending.cycles, cyclesIn] using hcontrol
  | node node =>
    cases node with
    | text text =>
      exact hsettle (.seq (write_leaves_ledger text) fun _ _ _ => .finish _) hstep
    | output e l => exact hsettle (.located l (emit_uncounted e)) hstep
    | tag isBlock name l action =>
      cases hstep
      exact ⟨hcounts, hserved, hcycles⟩
  | action action =>
    refine hsettle ?_ hstep
    by_cases hcycle : ∃ cycle : CycleTag, action = cycle.action
    · obtain ⟨cycle, rfl⟩ := hcycle
      have hkey : Leaves (ledger setting.engine)
          (cycleKey setting.engine cycle.occurrence cycle.group) :=
        (Leaves.evaluation _ setting.engine).cycleKey _ fun _ _ => trivial
      exact .seq hkey fun key t ht => absurd (executes_of_cycleKey waiting ht) (hnone _ _)
    · refine enter_uncounted action hcontrol (fun name t ht => ?_) fun cycle heq => ?_
      · exact hok name t (hserved ▸ ht)
      · exact hcycle ⟨cycle, heq⟩
  | done r =>
    cases waiting with
    | nil => cases hstep
    | cons p waiting =>
      cases hstep
      obtain ⟨hp, hrest⟩ := List.forall_mem_append.mp hwaiting
      exact (resume_uncounted p hp r).settle hcounts hserved hrest

/-- A cycle that is executed is one of those that may run, and it writes the value whose turn it is
after the executions under its key. -/
theorem Config.Counted.turn {cycle : CycleTag} {key : CycleKey}
    (h : c.Counted setting.engine served ok keys)
    (hcycle : c.ExecutesCycle setting.engine cycle key) :
    ok cycle ∧ Machine.step setting c = some (Machine.settle c.pending
      (writeValue setting.engine cycle.values[keys.count key % cycle.values.length]?
        { c.state with cycles := setCycleCount key (keys.count key + 1) c.state.cycles })) := by
  obtain ⟨action, waiting, s, rfl⟩ := hcycle.action
  obtain ⟨rfl, henter⟩ := enter_cycle hcycle
  rw [h.counts key] at henter
  exact ⟨h.cycles cycle List.mem_cons_self,
    congrArg (fun r => some (Machine.settle waiting r)) henter⟩

/-- A step that executes a cycle counts it under its key. -/
theorem Config.Counted.execute {cycle : CycleTag} {key : CycleKey}
    (h : c.Counted setting.engine served ok keys)
    (hcycle : c.ExecutesCycle setting.engine cycle key)
    (hstep : Machine.step setting c = some d) :
    d.Counted setting.engine served ok (keys ++ [key]) := by
  obtain ⟨-, hturn⟩ := h.turn hcycle
  cases hstep.symm.trans hturn
  obtain ⟨control, waiting, s⟩ := c
  obtain ⟨hcounts, hserved, hcycles⟩ := h
  obtain ⟨-, hwaiting⟩ := List.forall_mem_append.mp hcycles
  refine (writeValue_uncounted _).settle (fun other => ?_) hserved hwaiting
  rw [List.count_append]
  by_cases heq : other = key
  · subst heq
    rw [cycleCount_setCycleCount_self, List.count_singleton_self]
  · have hne : (key == other) ≠ true := by simpa using Ne.symm heq
    rw [cycleCount_setCycleCount_of_ne heq, hcounts other, List.count_singleton, if_neg hne,
      Nat.add_zero]

theorem Runs.counted {setting : Setting} (h : Runs setting c keys d)
    (hok : ∀ name t, served name = .ok t → ∀ cycle ∈ cyclesIn t.nodes, ok cycle)
    (hc : c.Counted setting.engine served ok []) : d.Counted setting.engine served ok keys := by
  induction h with
  | start => exact hc
  | other _ hnone hstep ih => exact ih.step hok hnone hstep
  | cycle _ hcycle hstep ih => exact ih.execute hcycle hstep

/-- A render counts the cycles of the templates that it may run. -/
theorem Runs.counted_of_start {session : Session} {root : Template} {bindings : Bindings}
    {sink : Sink} {interrupt : Interrupt}
    (h : Runs ⟨session.engine, interrupt⟩ (Machine.start root.nodes (session.start bindings sink))
      keys c) :
    c.Counted session.engine (session.cache.served session.engine)
      (fun cycle => ∃ t i, session.MayRun root t ∧ t.cycle? i = some cycle) keys := by
  have howned (t : Template) (ht : session.MayRun root t) (cycle : CycleTag)
      (hcycle : cycle ∈ cyclesIn t.nodes) :
      ∃ t i, session.MayRun root t ∧ t.cycle? i = some cycle := by
    obtain ⟨i, hi⟩ := List.mem_iff_getElem?.mp hcycle
    exact ⟨t, i, ht, hi⟩
  refine h.counted (fun name t ht => howned t (.inr ⟨name, ht⟩)) ⟨fun _ => rfl, rfl, ?_⟩
  intro cycle hcycle
  refine howned root (.inl rfl) cycle ?_
  simpa [Machine.start, Config.cycles, Control.cycles] using hcycle

end Machine

/-- A cycle that stands outside of blocks, and what it compiles to. -/
theorem step_cycle {source : SourceText} {args : String} {place : Location} {group : Option Expr}
    {values : List Expr} (argsOffset : Nat) (span : Span) (nodes : List Node)
    (hplace : source.location span.start = place) (hargs : Text.allBlank args = false)
    (hparse : Statement.parse .cycle args = .ok (.cycle group values))
    (hfilters : (Statement.cycle group values).expressions.forM (source.checkFilters argsOffset [])
      = .ok ()) :
    Progress.step (Grammar.addStandardTags {}) source (.direct 0) ⟨nodes, []⟩
        (.tag "cycle" args argsOffset span) = .ok
      ⟨.tag false "cycle" place (.cycle ⟨.direct 0, place.offset⟩ group values) :: nodes, []⟩ := by
  let tag : TagSource := ⟨"cycle", args, argsOffset, place, source, .direct 0⟩
  have hcompiled : tag.compileStatement [] .cycle = .ok (.cycle group values) := by
    have hstatement : (Statement.parse .cycle args).mapError
        (source.syntaxError argsOffset) = .ok (.cycle group values) := mapError_eq_ok.mpr hparse
    exact bind_eq_ok.mpr ⟨_, hstatement, bind_eq_ok.mpr ⟨_, hfilters, rfl⟩⟩
  have haction : Tags.cycle [] tag = .ok (.cycle ⟨.direct 0, place.offset⟩ group values) := by
    simp only [Tags.cycle, TagSource.hasNoArgs, tag, hargs]
    exact bind_eq_ok.mpr ⟨_, hcompiled, rfl⟩
  rw [Progress.step, hplace]
  exact bind_eq_ok.mpr ⟨_, mapError_eq_ok.mpr haction, rfl⟩

end Stencil.Render
