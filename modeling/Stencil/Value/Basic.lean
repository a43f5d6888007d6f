import Stencil.Json.Basic
import Stencil.Time.Format

/-!
# Values

The dynamic values that bindings, expressions and filters are made of. A host object has an
identity, named fields, and perhaps a value of its own that stands for it; that value is called its
hook. The members of a map are in key order.
-/
namespace Stencil

inductive Value where
  | nil
  | bool (b : Bool)
  | int (n : Int64)
  | float (x : Float)
  | str (s : String)
  | time (t : Time.Moment)
  | list (items : List Value)
  | map (entries : List (String × Value))
  | object (id : Nat) (typeName : String) (fields : List (String × Value)) (hook : Option Value)

instance : Inhabited Value := ⟨.nil⟩

/-- Variables and named values. -/
abbrev Bindings := List (String × Value)

namespace Value

/-- A count as an integer, clamped to the 64-bit range. -/
def ofNat (n : Nat) : Value :=
  if n < 0x8000000000000000 then .int (Int64.ofNat n) else .int Int64.maxValue

def isNil : Value → Bool
  | .nil => true
  | _ => false

def isObject : Value → Bool
  | .object .. => true
  | _ => false

/-- The name of a value's kind. -/
def typeName : Value → String
  | .nil => "nil"
  | .bool _ => "bool"
  | .int _ => "int"
  | .float _ => "float"
  | .str _ => "string"
  | .time _ => "time"
  | .list _ => "list"
  | .map _ => "map"
  | .object _ name _ _ => name

def text? : Value → Option String
  | .str s => some s
  | _ => none

/-- The hook of an object that has one; any other value is itself. -/
def canonical : Value → Value
  | .object _ _ _ (some v) => v
  | v => v

/-- Only nil, false and objects whose hook is one of these do not hold. -/
def isTruthy : Value → Bool
  | .nil => false
  | .bool b => b
  | .object _ _ _ (some v) => v.isTruthy
  | _ => true

/-- A named property. Maps answer by key and objects by field, an object without the field through
its hook; lists know `size`, `first` and `last`, strings and maps `size`. -/
def property (key : String) : Value → Option Value
  | .map entries =>
    match Table.find? key entries with
    | some v => some v
    | none => if key = "size" then some (ofNat entries.length) else none
  | .list items =>
    if key = "size" then some (ofNat items.length)
    else if key = "first" then items.head?
    else if key = "last" then items.getLast?
    else none
  | .str s => if key = "size" then some (ofNat s.length) else none
  | .object _ _ fields (some v) => (Table.find? key fields).or (v.property key)
  | .object _ _ fields none => Table.find? key fields
  | _ => none

/-- The element of a list at a position, a negative one counting from the end. -/
def element? (items : List Value) (i : Int64) : Option Value :=
  let n := i.toInt
  let n := if n < 0 then items.length + n else n
  if 0 ≤ n then items[n.toNat]? else none

/-- The value under a computed key: a position in a list, an integer or text key of a map, or the
name of a property. -/
def index : Value → Value → Option Value
  | v, .str name => property name v
  | .list items, .int i => element? items i
  | .map entries, .int i => Table.find? (Json.intText i.toInt) entries
  | .object _ _ _ (some v), key => index v key
  | _, _ => none

mutual

/-- The JSON form. Times are text, and an object without a hook is the name of its kind. -/
def toJson : Value → Json
  | .nil => .null
  | .bool b => .bool b
  | .int n => .int n.toInt
  | .float x => if x.isFinite then .float x else .null
  | .str s => .str s
  | .time t => .str t.rfc3339
  | .list items => .arr (itemsToJson items)
  | .map entries => .obj (entriesToJson entries)
  | .object _ _ _ (some v) => v.toJson
  | .object _ name _ none => .str name

def itemsToJson : List Value → List Json
  | [] => []
  | v :: items => v.toJson :: itemsToJson items

def entriesToJson : List (String × Value) → List (String × Json)
  | [] => []
  | (key, v) :: entries => (key, v.toJson) :: entriesToJson entries

end

/-- Compact JSON text. -/
def jsonText (v : Value) : String := v.toJson.text

mutual

/-- The form in which output shows a value: nothing for nil, the elements of a list one after the
other, JSON for a map. -/
def display : Value → String
  | .nil => ""
  | .bool true => "true"
  | .bool false => "false"
  | .int n => Json.intText n.toInt
  | .float x => Decimal.display x
  | .str s => s
  | .time t => t.display
  | .list items => displayItems items
  | .map entries => (toJson (.map entries)).text
  | .object _ _ _ (some v) => v.display
  | .object _ name _ none => "<" ++ name ++ ">"

def displayItems : List Value → String
  | [] => ""
  | v :: items => v.display ++ displayItems items

end

/-- The value that stands for an object after all hooks are followed. -/
def resolve : Value → Value
  | .object _ _ _ (some v) => v.resolve
  | v => v

mutual

/-- Equality of values. Numbers are compared across integers and floats, times as instants, and
objects by identity or else by their hooks. Against a value that is no object, an object counts as
what its hooks lead to. -/
def same : Value → Value → Bool
  | .nil, w => w.resolve.isNil
  | .bool a, w => match w.resolve with
    | .bool b => a = b
    | _ => false
  | .int a, w => match w.resolve with
    | .int b => a = b
    | .float b => Decimal.ofInt64 a == b
    | _ => false
  | .float a, w => match w.resolve with
    | .float b => a == b
    | .int b => Decimal.ofInt64 b == a
    | _ => false
  | .str a, w => match w.resolve with
    | .str b => a = b
    | _ => false
  | .time a, w => match w.resolve with
    | .time b => a.sameInstant b
    | _ => false
  | .list a, w => match w.resolve with
    | .list b => sameItems a b
    | _ => false
  | .map a, w => match w.resolve with
    | .map b => sameEntries a b
    | _ => false
  | .object i _ _ (some v), w => match w with
    | .object j _ _ (some x) => i = j || same v x
    | .object j _ _ none => i = j
    | w => same v w
  | .object i _ _ none, w => match w with
    | .object j _ _ _ => i = j
    | _ => false

def sameItems : List Value → List Value → Bool
  | [], [] => true
  | v :: vs, w :: ws => same v w && sameItems vs ws
  | _, _ => false

def sameEntries : List (String × Value) → List (String × Value) → Bool
  | [], [] => true
  | (k, v) :: vs, (l, w) :: ws => k = l && same v w && sameEntries vs ws
  | _, _ => false

end

mutual

/-- The value that a JSON document describes; integers beyond 64 bits become floats. -/
def ofJson : Json → Value
  | .null => .nil
  | .bool b => .bool b
  | .int n =>
    if Int64.minValue.toInt ≤ n ∧ n ≤ Int64.maxValue.toInt then .int (Int64.ofInt n)
    else .float (Float.ofInt n)
  | .float x => .float x
  | .str s => .str s
  | .arr items => .list (ofJsonItems items)
  | .obj members => .map (ofJsonMembers members)

def ofJsonItems : List Json → List Value
  | [] => []
  | j :: items => ofJson j :: ofJsonItems items

def ofJsonMembers : List (String × Json) → List (String × Value)
  | [] => []
  | (key, j) :: members => (key, ofJson j) :: ofJsonMembers members

end

end Value

end Stencil
