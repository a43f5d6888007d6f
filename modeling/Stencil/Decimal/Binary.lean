/-!
# Binary fractions

Finite floating-point numbers as exact values `± mantissa · 2 ^ exponent`, read off the bits, and
the operations that are exact on them: rounding to an integer in each direction, and conversion to
and from integers.
-/
namespace Stencil.Decimal

/-- The value `± mantissa · 2 ^ exponent`. A sign without a mantissa is the sign of a zero. -/
structure Binary where
  negative : Bool
  mantissa : Nat
  exponent : Int
  deriving DecidableEq, Repr

namespace Binary

/-- The leading bit of a normal mantissa, which the 52 stored ones leave out. -/
def hidden : Nat := 0x10000000000000

/-- The exact value of a float; infinities and NaN have none. -/
def ofFloat? (x : Float) : Option Binary :=
  let bits := x.toBits.toNat
  let negative := bits / 0x8000000000000000 = 1
  let e : Nat := bits / hidden % 0x800
  let f : Nat := bits % hidden
  if e = 2047 then none
  else if e = 0 then some ⟨negative, f, -1074⟩
  else some ⟨negative, f + hidden, (e : Int) - 1075⟩

/-- Whether the value has no fraction. -/
def isWhole (b : Binary) : Bool :=
  0 ≤ b.exponent || b.mantissa % Nat.pow 2 b.exponent.natAbs = 0

/-- The magnitude rounded toward zero. -/
def wholePart (b : Binary) : Nat :=
  if 0 ≤ b.exponent then b.mantissa * Nat.pow 2 b.exponent.toNat
  else b.mantissa / Nat.pow 2 b.exponent.natAbs

def signed (negative : Bool) (n : Nat) : Int := if negative then -(n : Int) else n

/-- Toward zero. -/
def truncate (b : Binary) : Int := signed b.negative b.wholePart

/-- The greatest integer that is not above the value. -/
def floor (b : Binary) : Int :=
  if b.negative && !b.isWhole then b.truncate - 1 else b.truncate

/-- The least integer that is not below the value. -/
def ceil (b : Binary) : Int :=
  if !b.negative && !b.isWhole then b.truncate + 1 else b.truncate

end Binary

/-- An integer as a float, with the sign that a zero has to take. -/
def floatOfInt (negativeZero : Bool) (n : Int) : Float :=
  if n = 0 && negativeZero then -0.0 else Float.ofInt n

/-- Round a float by a rule for its exact value. A float without one stays, and a zero result
keeps the sign of the argument. -/
def roundBy (rule : Binary → Int) (x : Float) : Float :=
  match Binary.ofFloat? x with
  | none => x
  | some b => if b.isWhole then x else floatOfInt b.negative (rule b)

def floor (x : Float) : Float := roundBy Binary.floor x

def ceil (x : Float) : Float := roundBy Binary.ceil x

/-- The integer part, clamped to the 64-bit range; NaN is 0. -/
def toInt64 (x : Float) : Int64 :=
  match Binary.ofFloat? x with
  | some b =>
    let n := b.truncate
    if n < Int64.minValue.toInt then Int64.minValue
    else if Int64.maxValue.toInt < n then Int64.maxValue
    else Int64.ofInt n
  | none => if x.isNaN then 0 else if x < 0 then Int64.minValue else Int64.maxValue

/-- The float nearest to a 64-bit integer. -/
def ofInt64 (n : Int64) : Float := Float.ofInt n.toInt

/-- The absolute value, by clearing the sign bit. -/
def abs (x : Float) : Float := Float.ofBits (x.toBits &&& 0x7FFFFFFFFFFFFFFF)

/-- `base ^ n` by repeated squaring, in floating point. -/
def power (base : Float) (n : Nat) : Float := go base n 1.0
where
  /-- Multiply `acc` by `base ^ n`. -/
  go (base : Float) (n : Nat) (acc : Float) : Float :=
    if n = 0 then acc
    else go (base * base) (n / 2) (if n % 2 = 1 then acc * base else acc)
  termination_by n

end Stencil.Decimal
