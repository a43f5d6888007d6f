import Stencil.Render.State
import Stencil.Text.Search

/-!
# Rendering

The nodes of a template run one after the other until one of them asks to leave or to continue the
loop around it. How deep templates may include each other bounds the recursion from one template
into another; within a template it follows the nodes, and a loop the number of its items.
-/
namespace Stencil

/-- The items of a loop, found by their position. -/
structure LoopItems where
  count : Nat
  item : Nat → Value

namespace LoopItems

/-- The most items that a loop can count. -/
def maxCount : Nat := 0xFFFFFFFFFFFFFFFF

/-- What an offset and then a limit leave of the integers from the first to the last, in one of the
directions. They are computed when they are asked for. -/
def ofRange (first last : Int) (offset limit : Option Nat) (reversed : Bool) : LoopItems :=
  let total := max (last - first + 1) 0
  let skipped : Int := min (offset.getD 0) total
  let left : Int := match limit with
    | some n => min (total - skipped) n
    | none => total - skipped
  let start := first + skipped
  ⟨min left.toNat maxCount,
    fun i => .int (Int64.ofInt (if reversed then start + left - 1 - i else start + i))⟩

def ofList (items : List Value) : LoopItems :=
  let items := items.toArray
  ⟨items.size, fun i => items.getD i .nil⟩

end LoopItems

/-- The elements of a list, the entries of a map as pairs, and nothing of any other value. -/
def Value.loopItems (v : Value) : List Value :=
  match v.canonical with
  | .list items => items
  | .map entries => entries.map fun (key, v) => .list [.str key, v]
  | _ => []

/-- What an offset and then a limit leave of a list, in one of the directions. -/
def restrict {α : Type} (offset limit : Option Nat) (reversed : Bool) (items : List α) : List α :=
  let left := match limit with
    | some n => (items.drop (offset.getD 0)).take n
    | none => items.drop (offset.getD 0)
  if reversed then left.reverse else left

/-- What a loop tells about itself at an item. -/
def forloop (index count : Nat) : Value :=
  .map [("first", .bool (index = 0)), ("index", .ofNat (index + 1)), ("index0", .ofNat index),
    ("last", .bool (index + 1 = count)), ("length", .ofNat count),
    ("rindex", .ofNat (count - index)), ("rindex0", .ofNat (count - index - 1))]

namespace Render

/-- The value of a modifier; a negative one counts as zero. -/
def modifier? (engine : Engine) : Option Expr → Render (Option Nat)
  | none => return none
  | some e => do return some (← liftExcept (Expr.toInt (← eval engine e))).toNat

/-- The items of a loop. A range does not become a list. -/
def loopItems (engine : Engine) (source : Expr) (m : LoopModifiers) : Render LoopItems := do
  let offset ← modifier? engine m.offset
  let limit ← modifier? engine m.limit
  match source with
  | .range first last => do
    let a ← liftExcept (Expr.toInt (← eval engine first))
    let b ← liftExcept (Expr.toInt (← eval engine last))
    return .ofRange a b offset limit m.reversed
  | source => do
    let v ← eval engine source
    return .ofList (restrict offset limit m.reversed v.loopItems)

/-- Run a body for the `left` items from a position on. -/
def iterate (name : String) (items : LoopItems) (body : Render Signal) (index : Nat) :
    Nat → Render Signal
  | 0 => return .normal
  | left + 1 => do
    modifyScope fun s =>
      (s.setLocal name (items.item index)).setLocal "forloop" (forloop index items.count)
    match ← body with
    | .leave => return .normal
    | _ => iterate name items body (index + 1) left

/-- The name after the last slash, without what follows its last point. -/
def fileStem (path : String) : Option String :=
  let parts := ((Text.splitAt '/' [] path.toList).filter fun part => part ≠ [] ∧ part ≠ ['.'])
  match parts.getLast? with
  | none => none
  | some ['.', '.'] => none
  | some part =>
    let stem := part.reverse.dropWhile (· ≠ '.')
    some (String.ofList (if stem.length ≤ 1 then part else stem.tail.reverse))

/-- The name under which a template gets its value when no alias is given. -/
def defaultAlias (name : String) : String := (fileStem name).getD name

/-- The variables that an included template is passed. -/
def params (engine : Engine) (name : String) (subject : Option (Expr × Option String))
    (bindings : List (String × Expr)) : Render Bindings := do
  let start ← match subject with
    | none => pure []
    | some (e, given?) => do
      pure (Table.insert (given?.getD (defaultAlias name)) (← eval engine e) [])
  fun s => (Expr.evalNamed (engine.environment s.scope) start bindings, s)

/-- How templates are run that are included from here; absent where the limit is reached. -/
abbrev Includer := Option (List Node → Render Signal)

/-- Run another template. -/
def inclusion (engine : Engine) (includer : Includer) (isolated : Bool) (template : Expr)
    (subject : Option (Expr × Option String)) (bindings : List (String × Expr)) :
    Render Signal := do
  let name := (← eval engine template).display
  match includer with
  | none => throw ⟨.recursiveInclude name engine.options.maxIncludeDepth, none⟩
  | some run =>
    let included ← load engine name
    let params ← params engine name subject bindings
    discard (inChild params isolated (run included.nodes))
    return .normal

/-- The first of the values that equals a subject decides. -/
def anySame (engine : Engine) (subject : Value) : List Expr → Render Bool
  | [] => return false
  | e :: values => do
    if (← eval engine e).same subject then return true else anySame engine subject values

def guardHolds (engine : Engine) : Guard → Render Bool
  | .always => return true
  | .holds e => do return (← eval engine e).isTruthy
  | .fails e => do return !(← eval engine e).isTruthy

def cycleKey (engine : Engine) (occurrence : Occurrence) : Option Expr → Render CycleKey
  | none => return .occurrence occurrence
  | some e => do return .group (← eval engine e).display

/-- Write the mark of a body that did not run to its end. -/
def writeSignal : Signal → Render Unit
  | .normal => return ()
  | .leave => write "<break>"
  | .next => write "<continue>"

mutual

def runNodes (setting : Setting) (includer : Includer) : List Node → Render Signal
  | [] => return .normal
  | node :: nodes => do
    check setting.interrupt
    match ← runNode setting includer node with
    | .normal => runNodes setting includer nodes
    | signal => return signal

def runNode (setting : Setting) (includer : Includer) : Node → Render Signal
  | .text s => do
    write s
    return .normal
  | .output e location => locatedAt location do
    write (← eval setting.engine e).display
    return .normal
  | .tag _ _ location action => locatedAt location (runAction setting includer action)

def runAction (setting : Setting) (includer : Includer) : Action → Render Signal
  | .nothing => return .normal
  | .write s => do
    write s
    return .normal
  | .emit e => do
    write (← eval setting.engine e).display
    return .normal
  | .assign target e => do
    let v ← eval setting.engine e
    modifyScope (Scope.assign target v)
    return .normal
  | .capture target body => do
    let (signal, text) ← captured (runNodes setting includer body)
    modifyScope (Scope.assign target (.str text))
    return signal
  | .conditional branches => runBranches setting includer branches
  | .choice subject whens otherwise => do
    let v ← eval setting.engine subject
    runWhens setting includer v (runNodes setting includer otherwise) whens
  | .loop name source modifiers body otherwise => do
    let items ← loopItems setting.engine source modifiers
    if items.count = 0 then runNodes setting includer otherwise
    else inLoop (iterate name items (runNodes setting includer body) 0 items.count)
  | .jump signal => return signal
  | .cycle occurrence group values => do
    let key ← cycleKey setting.engine occurrence group
    let position ← nextCycle key values.length
    match values[position]? with
    | some e => write (← eval setting.engine e).display
    | none => pure ()
    return .normal
  | .include isolated template subject bindings =>
    inclusion setting.engine includer isolated template subject bindings
  | .outline tag body clauses => do
    write ("<" ++ tag.name ++ "|" ++ tag.args ++ "|")
    match ← runNodes setting includer body with
    | .normal => runClauses setting includer clauses
    | signal =>
      writeSignal signal
      return signal

def runBranches (setting : Setting) (includer : Includer) :
    List (Guard × List Node) → Render Signal
  | [] => return .normal
  | (guard, body) :: branches => do
    if ← guardHolds setting.engine guard then runNodes setting includer body
    else runBranches setting includer branches

def runWhens (setting : Setting) (includer : Includer) (subject : Value)
    (otherwise : Render Signal) : List (List Expr × List Node) → Render Signal
  | [] => otherwise
  | (values, body) :: whens => do
    if ← anySame setting.engine subject values then runNodes setting includer body
    else runWhens setting includer subject otherwise whens

/-- The clauses of an outline, and the end of it. -/
def runClauses (setting : Setting) (includer : Includer) :
    List (TagSource × List Node) → Render Signal
  | [] => do
    write ">"
    return .normal
  | (tag, body) :: clauses => do
    write ("/" ++ tag.name ++ "|" ++ tag.args ++ "|")
    match ← runNodes setting includer body with
    | .normal => runClauses setting includer clauses
    | signal =>
      writeSignal signal
      return signal

end

/-- Run nodes where templates may still be included `room` deep. -/
def runWithin (setting : Setting) : Nat → List Node → Render Signal
  | 0 => runNodes setting none
  | room + 1 => runNodes setting (some (runWithin setting room))

/-- Run nodes at the depth of the current scope. -/
def run (setting : Setting) (nodes : List Node) : Render Signal := fun s =>
  runWithin setting (setting.engine.options.maxIncludeDepth - s.scope.depth) nodes s

def flush : Render Unit := fun s => (s.sink.flush.mapError (⟨.output ·, none⟩), s)

/-- Run a template to its end. -/
def template (setting : Setting) (t : Template) : Render Unit := do
  discard (run setting t.nodes)
  flush

end Render

end Stencil
