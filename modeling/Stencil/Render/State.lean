import Stencil.Cache
import Stencil.Expr.Eval
import Stencil.Options
import Stencil.Render.Scope
import Stencil.Render.Sink
import Stencil.Store

/-!
# The state of a render

An engine fixes the grammar, the options and the store. A render changes scopes, counters, the cache
and the output, also when it fails.
-/
namespace Stencil

structure Engine where
  grammar : Grammar := {}
  options : Options := {}
  store : Store := .memory []

/-- What the runs of a cycle are counted under. -/
inductive CycleKey where
  | group (text : String)
  | occurrence (o : Occurrence)
  | named (key : String)
  deriving DecidableEq, Repr

structure State where
  scope : Scope := {}
  cycles : List (CycleKey × Nat) := []
  cache : Cache := {}
  /-- The names that the store was asked for, the latest first. -/
  reads : List String := []
  sink : Sink := {}
  /-- What open captures have taken, the innermost first. -/
  captures : List String := []
  /-- How often it was asked whether to go on. -/
  checks : Nat := 0

/-- Whether a render has to stop, given how often this was asked before and how many bytes are
held. -/
abbrev Interrupt := Nat → Nat → Bool

/-- A step of a render. -/
abbrev Render (α : Type) := ExceptT Error (StateM State) α

/-- What a render looks at and does not change. -/
structure Setting where
  engine : Engine
  interrupt : Interrupt := fun _ _ => false

/-- The runs of a cycle so far. -/
def cycleCount (key : CycleKey) (cycles : List (CycleKey × Nat)) : Nat :=
  ((cycles.find? (·.1 = key)).map Prod.snd).getD 0

def setCycleCount (key : CycleKey) (n : Nat) : List (CycleKey × Nat) → List (CycleKey × Nat)
  | [] => [(key, n)]
  | (k, m) :: cycles => if k = key then (key, n) :: cycles else (k, m) :: setCycleCount key n cycles

namespace Engine

/-- The template of a name as the store has it. -/
def fetch (engine : Engine) (name : String) : Except Error Template := do
  let bytes ← (engine.store.read name).mapError (⟨.store name ·, none⟩)
  match Text.Utf8.decode bytes with
  | .ok text => Template.compile engine.grammar (.stored name) ⟨text, some name⟩
  | .error _ => throw ⟨.store name .notUtf8, none⟩

def environment (engine : Engine) (scope : Scope) : Environment :=
  ⟨scope.lookup, engine.grammar.filters, engine.options.strictVariables⟩

end Engine

namespace Render

variable {α : Type}

def liftExcept (x : Except Error α) : Render α := fun s => (x, s)

def eval (engine : Engine) (e : Expr) : Render Value := fun s =>
  (e.eval (engine.environment s.scope), s)

/-- Stop if the render is interrupted. -/
def check (interrupt : Interrupt) : Render Unit := fun s =>
  (if interrupt s.checks s.sink.held.size then .error ⟨.cancelled, none⟩ else .ok (),
    { s with checks := s.checks + 1 })

/-- Write to the innermost capture, or to the sink. -/
def write (text : String) : Render Unit := fun s =>
  match s.captures with
  | buffer :: captures => (.ok (), { s with captures := (buffer ++ text) :: captures })
  | [] =>
    let (result, sink) := s.sink.write text
    (result.mapError (⟨.output ·, none⟩), { s with sink })

def modifyScope (f : Scope → Scope) : Render Unit := fun s =>
  (.ok (), { s with scope := f s.scope })

/-- Run in a scope of a loop. -/
def inLoop (x : Render α) : Render α := fun s =>
  let (result, s) := x { s with scope := s.scope.enterLoop }
  (result, { s with scope := s.scope.leaveLoop })

/-- Run in the scope of an included template. -/
def inChild (params : Bindings) (isolated : Bool) (x : Render α) : Render α := fun s =>
  let (result, t) := x { s with scope := s.scope.child params isolated }
  (result, { t with scope := s.scope })

/-- Run and take what is written. -/
def captured (x : Render α) : Render (α × String) := fun s =>
  let (result, s) := x { s with captures := "" :: s.captures }
  (result.map fun a => (a, s.captures.headD ""), { s with captures := s.captures.tail })

/-- The position among `count` values that is next under a key. -/
def nextCycle (key : CycleKey) (count : Nat) : Render Nat := fun s =>
  let n := cycleCount key s.cycles
  (.ok (n % max count 1), { s with cycles := setCycleCount key (n + 1) s.cycles })

/-- The template of a name, from the cache or else from the store. -/
def load (engine : Engine) (name : String) : Render Template := fun s =>
  let reads := if s.cache.contains name then s.reads else name :: s.reads
  let (result, cache) := s.cache.getOrLoad name fun _ => engine.fetch name
  (result, { s with cache, reads })

/-- Give an error the place it arose at. -/
def locatedAt (l : Location) (x : Render α) : Render α := fun s =>
  let (result, s) := x s
  (result.mapError (·.locatedAt l), s)

end Render

end Stencil
