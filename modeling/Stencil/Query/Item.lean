import Stencil.Decimal.Reader
import Stencil.Json.Basic
import Stencil.Text.Search

/-!
# Items

The documents that queries work on. Objects keep the order in which their keys were put in. A number
that is no 64-bit integer stays the text it was written as until it is computed with. Sums, differences
and products of integers are taken modulo 2^64.
-/
namespace Stencil

inductive Item where
  | null
  | bool (b : Bool)
  | int (n : Int64)
  | float (x : Float)
  /-- A number as it was written. -/
  | decimal (text : String)
  | str (s : String)
  | arr (items : List Item)
  | obj (members : List (String × Item))

namespace Item

mutual

def ofJson : Json → Item
  | .null => .null
  | .bool b => .bool b
  | .int n => if Decimal.inInt64 n then .int (Int64.ofInt n) else .decimal (Json.intText n)
  | .float x => .decimal (Decimal.json x)
  | .str s => .str s
  | .arr items => .arr (ofJsonItems items)
  | .obj members => .obj (ofJsonMembers members)

def ofJsonItems : List Json → List Item
  | [] => []
  | j :: items => ofJson j :: ofJsonItems items

def ofJsonMembers : List (String × Json) → List (String × Item)
  | [] => []
  | (key, j) :: members => (key, ofJson j) :: ofJsonMembers members

end

/-- Backspace, form feed and delete are escaped by their numbers. -/
def escapeChar (c : Char) : String :=
  if c = '\x08' ∨ c = '\x0c' ∨ c = '\x7f' then "\\u" ++ Json.hex4 c.toNat else Json.escapeChar c

def quote (s : String) : String := "\"" ++ String.join (s.toList.map escapeChar) ++ "\""

mutual

/-- Compact JSON text. -/
def text : Item → String
  | .null => "null"
  | .bool true => "true"
  | .bool false => "false"
  | .int n => Json.intText n.toInt
  | .float x => Decimal.queryLayout.write x
  | .decimal s => s
  | .str s => quote s
  | .arr [] => "[]"
  | .arr (item :: items) => "[" ++ text item ++ itemsText items ++ "]"
  | .obj [] => "\x7b\x7d"
  | .obj ((key, item) :: members) =>
    "\x7b" ++ quote key ++ ":" ++ text item ++ membersText members ++ "\x7d"

/-- The items after the first, each after a comma. -/
def itemsText : List Item → String
  | [] => ""
  | item :: items => "," ++ text item ++ itemsText items

/-- The members after the first, each after a comma. -/
def membersText : List (String × Item) → String
  | [] => ""
  | (key, item) :: members => "," ++ quote key ++ ":" ++ text item ++ membersText members

end

/-- A text as it is, anything else as JSON. -/
def display : Item → String
  | .str s => s
  | item => item.text

def isTruthy : Item → Bool
  | .null => false
  | .bool b => b
  | _ => true

/-- A number ready to be computed with. -/
def computable : Item → Item
  | .decimal s => match Decimal.readFloat? s with
    | some x => .float x
    | none => .null
  | item => item

/-- The float of a computable number. -/
def toFloat? : Item → Option Float
  | .int n => some (Decimal.ofInt64 n)
  | .float x => some x
  | _ => none

/-! ### Members -/

/-- Put an item under a key, in its old place or at the end. -/
def put (key : String) (item : Item) : List (String × Item) → List (String × Item)
  | [] => [(key, item)]
  | (k, v) :: rest => if k = key then (k, item) :: rest else (k, v) :: put key item rest

def get? (key : String) (members : List (String × Item)) : Option Item :=
  (members.find? (·.1 = key)).map Prod.snd

/-- The item under a key or at a position; nothing has an item under anything. -/
def at? : Item → Item → Option Item
  | .null, _ => some .null
  | .obj members, .str key => some ((get? key members).getD .null)
  | .arr items, .int i =>
    let n := if i.toInt < 0 then items.length + i.toInt else i.toInt
    some (if 0 ≤ n then items.getD n.toNat .null else .null)
  | _, _ => none

/-- A bound of a slice, from the front; it is absent or an integer. -/
def bound? (length default : Nat) : Option Item → Option Nat
  | none => some default
  | some (.int i) =>
    let n := if i.toInt < 0 then length + i.toInt else i.toInt
    some (min n.toNat length)
  | some _ => none

def sliceOf? {α : Type} (items : List α) (low high : Option Item) : Option (List α) := do
  let low ← bound? items.length 0 low
  let high ← bound? items.length items.length high
  return (items.take high).drop low

/-- Part of an array or of a text. -/
def slice? (item : Item) (low high : Option Item) : Option Item :=
  match item with
  | .null => some .null
  | .arr items => (sliceOf? items low high).map .arr
  | .str s => (sliceOf? s.toList low high).map fun cs => .str (String.ofList cs)
  | _ => none

/-- The items in an array or an object. -/
def elements? : Item → Option (List Item)
  | .arr items => some items
  | .obj members => some (members.map Prod.snd)
  | _ => none

def length? (item : Item) : Option Item :=
  match item.computable with
  | .null => some (.int 0)
  | .int n => some (.int (if n < 0 then -n else n))
  | .float x => some (.float (Decimal.abs x))
  | .str s => some (.int (Int64.ofNat s.length))
  | .arr items => some (.int (Int64.ofNat items.length))
  | .obj members => some (.int (Int64.ofNat members.length))
  | _ => none

/-- The keys of an object as they stand, or the positions of an array. -/
def keys? : Item → Option (List Item)
  | .arr items => some ((List.range items.length).map fun i => .int (Int64.ofNat i))
  | .obj members => some (members.map fun member => .str member.1)
  | _ => none

/-! ### Order -/

/-- Equal floats are equal, and a number that is none comes first. -/
def floatOrder (x y : Float) : Ordering :=
  if x == y then .eq
  else if x.isNaN then .lt
  else if y.isNaN then .gt
  else if x < y then .lt else .gt

/-- The place of a kind in the order of items. -/
def rank : Item → Nat
  | .null => 0
  | .bool _ => 1
  | .int _ => 2
  | .float _ => 2
  | .decimal _ => 2
  | .str _ => 3
  | .arr _ => 4
  | .obj _ => 5

/-- The order of items that are no collections. -/
def plainOrder (a b : Item) : Ordering :=
  match a.computable, b.computable with
  | .bool x, .bool y => compare x.toNat y.toNat
  | .int x, .int y => compare x.toInt y.toInt
  | .str x, .str y => compare x y
  | a, b => match a.toFloat?, b.toFloat? with
    | some x, some y => floatOrder x y
    | _, _ => compare a.rank b.rank

mutual

/-- The item with the members of all objects in key order. -/
def sorted : Item → Item
  | .arr items => .arr (sortedItems items)
  | .obj members => .obj (sortedMembers members)
  | item => item

def sortedItems : List Item → List Item
  | [] => []
  | item :: items => sorted item :: sortedItems items

def sortedMembers : List (String × Item) → List (String × Item)
  | [] => []
  | (key, item) :: members => Table.insert key (sorted item) (sortedMembers members)

end

mutual

def orderSorted : Item → Item → Ordering
  | .arr a, .arr b => itemsOrder a b
  | .obj a, .obj b => (compare (a.map Prod.fst) (b.map Prod.fst)).then (membersOrder a b)
  | a, b => plainOrder a b

def itemsOrder : List Item → List Item → Ordering
  | [], [] => .eq
  | [], _ => .lt
  | _, [] => .gt
  | a :: as, b :: bs => (orderSorted a b).then (itemsOrder as bs)

/-- The order of the values of members with the same keys. -/
def membersOrder : List (String × Item) → List (String × Item) → Ordering
  | [], [] => .eq
  | [], _ => .lt
  | _, [] => .gt
  | (_, a) :: as, (_, b) :: bs => (orderSorted a b).then (membersOrder as bs)

end

/-- Nothing, truth values, numbers, text, arrays, objects. Objects are compared by their keys
first. -/
def order (a b : Item) : Ordering := orderSorted a.sorted b.sorted

/-! ### Arithmetic -/

/-- Integers stay integers, other numbers are computed with as floats. -/
def numeric? (onInts : Int64 → Int64 → Int64) (onFloats : Float → Float → Float) (a b : Item) :
    Option Item :=
  match a, b with
  | .int x, .int y => some (.int (onInts x y))
  | a, b => do return .float (onFloats (← a.toFloat?) (← b.toFloat?))

def add? (a b : Item) : Option Item :=
  match a.computable, b.computable with
  | .null, _ => some b
  | _, .null => some a
  | .str x, .str y => some (.str (x ++ y))
  | .arr x, .arr y => some (.arr (x ++ y))
  | .obj x, .obj y => some (.obj (y.foldl (fun members (key, item) => put key item members) x))
  | a, b => numeric? (· + ·) (· + ·) a b

def sub? (a b : Item) : Option Item :=
  match a.computable, b.computable with
  | .arr x, .arr y => some (.arr (x.filter fun item => y.all fun other => order item other != .eq))
  | a, b => numeric? (· - ·) (· - ·) a b

/-- A text so many times, nothing for none. -/
def copies (s : String) (n : Int) : Item :=
  if 0 < n then .str (String.join (List.replicate n.toNat s)) else .null

mutual

/-- The members of two objects, merged where both hold an object. -/
def merge (members : List (String × Item)) : List (String × Item) → List (String × Item)
  | [] => members
  | (key, item) :: rest => merge (put key (mergeInto (get? key members) item) members) rest

def mergeInto (old? : Option Item) : Item → Item
  | .obj new => match old? with
    | some (.obj old) => .obj (merge old new)
    | _ => .obj new
  | new => new

end

def mul? (a b : Item) : Option Item :=
  match a.computable, b.computable with
  | .str s, .int n => some (copies s n.toInt)
  | .int n, .str s => some (copies s n.toInt)
  | .obj x, .obj y => some (.obj (merge x y))
  | a, b => numeric? (· * ·) (· * ·) a b

/-- The pieces of a text between separators, or its characters for an empty separator. -/
def pieces : List Char → List Char → List (List Char)
  | [], _ => []
  | cs, [] => cs.map ([·])
  | cs, p :: piece => Text.splitAt p piece cs

/-- A quotient of numbers is a float, texts are split. -/
def div? (a b : Item) : Option Item :=
  match a.computable, b.computable with
  | .str s, .str separator =>
    some (.arr ((pieces s.toList separator.toList).map fun cs => .str (String.ofList cs)))
  | a, b => do return .float ((← a.toFloat?) / (← b.toFloat?))

def rem? (a b : Item) : Option Item :=
  match a.computable, b.computable with
  | .int x, .int y => if y = 0 then none else some (.int (Int64.ofInt (x.toInt.tmod y.toInt)))
  | a, b => do return .float (Decimal.remainder (← a.toFloat?) (← b.toFloat?))

def neg? (item : Item) : Option Item :=
  match item.computable with
  | .int n => some (.int (-n))
  | .float x => some (.float (-x))
  | _ => none

end Item

end Stencil
