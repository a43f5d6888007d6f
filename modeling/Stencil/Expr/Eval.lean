import Stencil.Filter.Basic
import Stencil.Value.Order

/-!
# Evaluation

The value of an expression where the variables have values. Operands are evaluated from left to
right, an index before the value it is applied to, and only as far as they decide the result.
-/
namespace Stencil

/-- What evaluation looks at. -/
structure Environment where
  lookup : String → Option Value
  filters : Filters
  /-- Whether an undefined variable is an error; it is nil otherwise. -/
  strict : Bool

namespace Operator

def isEquality : Operator → Bool
  | .eq => true
  | .ne => true
  | _ => false

/-- An operator on the values of both operands. Arithmetic takes them as numbers. -/
def apply (op : Operator) (a b : Value) : Except Error Value :=
  match op with
  | .or => .ok (.bool (a.isTruthy || b.isTruthy))
  | .and => .ok (.bool (a.isTruthy && b.isTruthy))
  | .eq => .ok (.bool (a.same b))
  | .ne => .ok (.bool !(a.same b))
  | .lt => .ok (.bool (a.less b))
  | .le => .ok (.bool (a.less b || a.same b))
  | .gt => .ok (.bool (b.less a))
  | .ge => .ok (.bool (b.less a || a.same b))
  | .contains => .ok (.bool (a.contains b))
  | op => do
    let x ← (Shape.number.convert a).mapError (⟨.conversion ·, none⟩)
    let y ← (Shape.number.convert b).mapError (⟨.conversion ·, none⟩)
    (Arithmetic.apply op x y).mapError fun fault => ⟨.evaluation (.arithmetic fault), none⟩

end Operator

namespace Expr

/-- The longest range that becomes a list. -/
def maxRangeLength : Nat := 1000000

/-- A value as an integer, for the bounds of a range and the modifiers of a loop. -/
def toInt (v : Value) : Except Error Int :=
  match Shape.int.convert v with
  | .ok (.int n) => .ok n.toInt
  | .ok w => .error ⟨.evaluation (.stated ("expected an integer, got " ++ w.typeName)), none⟩
  | .error e => .error ⟨.conversion e, none⟩

/-- The number of integers from the first to the last. -/
def rangeLength (first last : Int) : Nat := (last - first + 1).toNat

def rangeItem (first : Int) (i : Nat) : Value := .int (Int64.ofInt (first + i))

/-- The integers from the first to the last as a list. -/
def rangeList (first last : Int) : Except Error Value :=
  if maxRangeLength < rangeLength first last then
    .error ⟨.evaluation (.longRange first last maxRangeLength), none⟩
  else .ok (.list ((List.range (rangeLength first last)).map (rangeItem first)))

def isEmptyWord : Expr → Bool
  | .empty => true
  | _ => false

mutual

def eval (env : Environment) : Expr → Except Error Value
  | .literal v => .ok v
  | .empty => .ok (.str "")
  | .variable name =>
    match env.lookup name with
    | some v => .ok v
    | none => if env.strict then .error ⟨.undefinedVariable name, none⟩ else .ok .nil
  | .property base key => do return ((← eval env base).property key).getD .nil
  | .index base key => do
    let k ← eval env key
    return ((← eval env base).index k).getD .nil
  | .range first last => do
    let a ← toInt (← eval env first)
    let b ← toInt (← eval env last)
    rangeList a b
  | .not e => do return .bool !(← eval env e).isTruthy
  | .binary .and left right => do
    if (← eval env left).isTruthy then return .bool (← eval env right).isTruthy
    else return .bool false
  | .binary .or left right => do
    if (← eval env left).isTruthy then return .bool true
    else return .bool (← eval env right).isTruthy
  | .binary op left right =>
    if op.isEquality && left.isEmptyWord then do
      return .bool ((← eval env right).isEmpty == (op = .eq))
    else if op.isEquality && right.isEmptyWord then do
      return .bool ((← eval env left).isEmpty == (op = .eq))
    else do
      let a ← eval env left
      let b ← eval env right
      op.apply a b
  | .filtered base calls => do applyCalls env calls (← eval env base)

/-- A value passed through filters. -/
def applyCalls (env : Environment) : List FilterCall → Value → Except Error Value
  | [], v => .ok v
  | .mk name args named _ :: calls, v =>
    match Table.find? name env.filters with
    | none => .error ⟨.undefinedFilter name, none⟩
    | some f => do
      let args ← evalArgs env args
      let named ← evalNamed env [] named
      applyCalls env calls (← f.call (v :: args) named)

def evalArgs (env : Environment) : List Expr → Except Error (List Value)
  | [] => .ok []
  | e :: args => do
    let v ← eval env e
    return v :: (← evalArgs env args)

/-- Named values, put into a table; a later one replaces an earlier one. -/
def evalNamed (env : Environment) (done : Bindings) :
    List (String × Expr) → Except Error Bindings
  | [] => .ok done
  | (key, e) :: named => do
    let v ← eval env e
    evalNamed env (Table.insert key v done) named

end

end Expr

end Stencil
