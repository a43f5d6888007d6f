import Stencil.Decimal.Reader
import Stencil.Expr.Basic

/-!
# Arithmetic

Two integers give an integer where the result has 64 bits; everything else is computed in floats.
Quotients are rounded down, so that a remainder takes the sign of the divisor.
-/
namespace Stencil

inductive ArithmeticFault where
  | divisionByZero
  | notArithmetic (op : Operator)
  /-- An operand of another kind. -/
  | notNumber (typeName : String)

def ArithmeticFault.message : ArithmeticFault → String
  | .divisionByZero => "divided by 0"
  | .notArithmetic op => op.name ++ " is not an arithmetic operator"
  | .notNumber typeName => "expected a number, got " ++ typeName

namespace Arithmetic

/-- An integer result, if 64 bits hold it. -/
def int? (n : Int) : Option Int64 := if Decimal.inInt64 n then some (Int64.ofInt n) else none

/-- Whether division toward zero is defined and its quotient has 64 bits. -/
def isDivisible (x y : Int64) : Bool := y ≠ 0 && !(x = Int64.minValue && y = -1)

/-- Whether exactly one of two integers is negative. -/
def differInSign (x y : Int64) : Bool := decide (x < 0) != decide (y < 0)

/-- The quotient rounded down, which lies one below the quotient toward zero where there is a
remainder and the signs differ. -/
def floorDiv? (x y : Int64) : Option Int64 :=
  if isDivisible x y then
    let q := x / y
    if x % y ≠ 0 ∧ differInSign x y then int? (q.toInt - 1) else some q
  else none

/-- The remainder of the quotient rounded down. It is given only where division toward zero is. -/
def floorMod? (x y : Int64) : Option Int64 :=
  if isDivisible x y then
    let r := x % y
    if r ≠ 0 ∧ differInSign r y then some (r + y) else some r
  else none

/-- The result on integers, where it is found without floats. -/
def int64Result? (op : Operator) (x y : Int64) : Option Int64 :=
  match op with
  | .add => int? (x.toInt + y.toInt)
  | .sub => int? (x.toInt - y.toInt)
  | .mul => int? (x.toInt * y.toInt)
  | .div => floorDiv? x y
  | .mod => floorMod? x y
  | _ => none

def isDivision : Operator → Bool
  | .div => true
  | .mod => true
  | _ => false

def operand : Value → Except ArithmeticFault Float
  | .int n => .ok (Decimal.ofInt64 n)
  | .float x => .ok x
  | v => .error (.notNumber v.typeName)

def onFloats (op : Operator) (x y : Float) : Except ArithmeticFault Float :=
  if isDivision op && y == 0.0 then .error .divisionByZero
  else match op with
    | .add => .ok (x + y)
    | .sub => .ok (x - y)
    | .mul => .ok (x * y)
    | .div => .ok (x / y)
    | .mod => .ok (x - y * Decimal.floor (x / y))
    | op => .error (.notArithmetic op)

def viaFloats (op : Operator) (a b : Value) : Except ArithmeticFault Value := do
  let x ← operand a
  let y ← operand b
  return .float (← onFloats op x y)

def apply (op : Operator) (a b : Value) : Except ArithmeticFault Value :=
  match a, b with
  | .int x, .int y =>
    if isDivision op && y = 0 then .error .divisionByZero
    else match int64Result? op x y with
      | some n => .ok (.int n)
      | none => viaFloats op a b
  | a, b => viaFloats op a b

end Arithmetic

end Stencil
