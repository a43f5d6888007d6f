import Stencil.Value.Basic
import Stencil.Text.Search

/-!
# Order on values

A strict order that leaves many pairs unordered, and sorting that asks it nothing but whether one
element comes before another. Sorting merges neighbouring runs of one, two, four, … elements, and
takes an element of the right run first only when it strictly precedes the left one.
-/
namespace Stencil.Value

/-- Strictly less. Booleans, numbers, text and times are ordered among themselves; every other
pair, and everything with nil, is unordered. -/
def less (a b : Value) : Bool :=
  match a.canonical, b.canonical with
  | .bool x, .bool y => !x && y
  | .int x, .int y => x < y
  | .int x, .float y => Decimal.ofInt64 x < y
  | .float x, .int y => x < Decimal.ofInt64 y
  | .float x, .float y => x < y
  | .str x, .str y => x < y
  | .time x, .time y => x.before y
  | _, _ => false

/-- Nil, false, the empty text and empty collections. -/
def isEmpty (v : Value) : Bool :=
  match v.canonical with
  | .nil => true
  | .bool b => !b
  | .str s => s.isEmpty
  | .list items => items.isEmpty
  | .map entries => entries.isEmpty
  | _ => false

/-- Characters of a text, elements of a list, entries of a map. -/
def length (v : Value) : Nat :=
  match v.canonical with
  | .str s => s.length
  | .list items => items.length
  | .map entries => entries.length
  | _ => 0

/-- Whether a text holds the display form of an item, a list an equal element, a map a key. -/
def contains (container item : Value) : Bool :=
  match container.canonical with
  | .str s =>
    match item.canonical with
    | .nil => false
    | v => Text.occurs v.display.toList s.toList
  | .list items => items.any (same · item)
  | .map entries =>
    match item with
    | .str key => Table.contains key entries
    | _ => false
  | _ => false

end Stencil.Value

namespace Stencil.Sorting

variable {α : Type}

/-- Merge two runs; ties go to the left one. -/
def merge (before : α → α → Bool) : List α → List α → List α
  | [], right => right
  | left, [] => left
  | a :: left, b :: right =>
    if before b a then b :: merge before (a :: left) right
    else a :: merge before left (b :: right)
termination_by left right => left.length + right.length

/-- Merge the first run with the second, the third with the fourth, and so on. -/
def mergePairs (before : α → α → Bool) : List (List α) → List (List α)
  | a :: b :: runs => merge before a b :: mergePairs before runs
  | runs => runs

theorem length_mergePairs_le (before : α → α → Bool) (runs : List (List α)) :
    (mergePairs before runs).length ≤ runs.length := by
  induction runs using mergePairs.induct with
  | case1 a b runs ih => simp only [mergePairs, List.length_cons]; omega
  | case2 runs h =>
    match runs, h with
    | [], _ => simp [mergePairs]
    | [_], _ => simp [mergePairs]
    | a :: b :: rest, h => exact absurd rfl (h a b rest)

/-- Merge neighbouring runs until one is left. -/
def mergeAll (before : α → α → Bool) : List (List α) → List α
  | [] => []
  | [run] => run
  | a :: b :: runs => mergeAll before (mergePairs before (a :: b :: runs))
termination_by runs => runs.length
decreasing_by
  have := length_mergePairs_le before runs
  simp only [mergePairs, List.length_cons]
  omega

/-- Stable sorting by a strict order. -/
def sortBy (before : α → α → Bool) (items : List α) : List α :=
  mergeAll before (items.map ([·]))

end Stencil.Sorting

namespace Stencil.Value

/-- Ascending. -/
def sort (items : List Value) : List Value := Sorting.sortBy less items

/-- The order of keyed elements: nil keys first in both directions, then by key. -/
def keyBefore (ascending : Bool) (a b : Value × Value) : Bool :=
  if a.1.isNil then !b.1.isNil
  else if b.1.isNil then false
  else if ascending then less a.1 b.1 else less b.1 a.1

/-- By a property of each element, a missing one counting as nil. -/
def sortByProperty (key : String) (ascending : Bool) (items : List Value) : List Value :=
  (Sorting.sortBy (keyBefore ascending)
    (items.map fun v => ((v.property key).getD .nil, v))).map Prod.snd

end Stencil.Value
