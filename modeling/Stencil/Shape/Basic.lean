import Stencil.Value.Basic

/-!
# Shapes

What a consumer expects a value to be. Filters state the shape of each of their parameters.
-/
namespace Stencil

inductive Shape where
  | any
  | bool
  | int
  | float
  /-- An int or a float. -/
  | number
  | string
  | time
  | list (element : Shape)
  | map (key value : Shape)
  /-- A map with the named fields. -/
  | record (fields : List (String × Shape))
  /-- Nil, or a value of the given shape. -/
  | optional (inner : Shape)

namespace Shape

mutual

def same : Shape → Shape → Bool
  | .any, .any => true
  | .bool, .bool => true
  | .int, .int => true
  | .float, .float => true
  | .number, .number => true
  | .string, .string => true
  | .time, .time => true
  | .list a, .list b => same a b
  | .map k a, .map l b => same k l && same a b
  | .record a, .record b => sameFields a b
  | .optional a, .optional b => same a b
  | _, _ => false

def sameFields : List (String × Shape) → List (String × Shape) → Bool
  | [], [] => true
  | (k, a) :: as, (l, b) :: bs => k = l && same a b && sameFields as bs
  | _, _ => false

end

def isAny : Shape → Bool
  | .any => true
  | _ => false

mutual

def text : Shape → String
  | .any => "any"
  | .bool => "bool"
  | .int => "int"
  | .float => "float"
  | .number => "number"
  | .string => "string"
  | .time => "time"
  | .list element => "list of " ++ element.text
  | .map key value => "map of " ++ key.text ++ " to " ++ value.text
  | .record [] => "record \x7b\x7d"
  | .record ((name, shape) :: fields) =>
    "record \x7b" ++ name ++ ": " ++ shape.text ++ fieldsText fields ++ "\x7d"
  | .optional inner => "optional " ++ inner.text

/-- The fields after the first, each after a comma. -/
def fieldsText : List (String × Shape) → String
  | [] => ""
  | (name, shape) :: fields => ", " ++ name ++ ": " ++ shape.text ++ fieldsText fields

end

/-- The shape that all the given ones agree on, any if they differ or there are none. -/
def common : List Shape → Shape
  | [] => .any
  | shape :: shapes => if shapes.all (same · shape) then shape else .any

mutual

/-- The shape that a value already has. An object has the shape of its hook, unless that is an
object again. -/
def of : Value → Shape
  | .bool _ => .bool
  | .int _ => .int
  | .float _ => .float
  | .str _ => .string
  | .time _ => .time
  | .list items => .list (common (ofItems items))
  | .map _ => .map .string .any
  | .nil => .any
  | .object _ _ _ none => .any
  | .object _ _ _ (some v) => if v.isObject then .any else of v

def ofItems : List Value → List Shape
  | [] => []
  | v :: items => of v :: ofItems items

end

/-- The common shape of the elements of a list. -/
def ofElements (items : List Value) : Shape := common (ofItems items)

end Shape

end Stencil
