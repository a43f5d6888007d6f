import Stencil.Decimal.Binary

/-!
# Reading numbers

Decimal integers and fractions as texts write them: an optional sign, ASCII digits, for fractions
a point and an exponent, and nothing around them.
-/
namespace Stencil.Decimal

def allDigits (cs : List Char) : Bool := !cs.isEmpty && cs.all Char.isDigit

/-- The number that decimal digits write. -/
def natOfDigits (cs : List Char) : Nat :=
  cs.foldl (fun n c => n * 10 + (c.toNat - '0'.toNat)) 0

/-- Whether a minus sign comes first, and the text after a sign of either kind. -/
def dropSign : List Char → Bool × List Char
  | '-' :: cs => (true, cs)
  | '+' :: cs => (false, cs)
  | cs => (false, cs)

/-- An integer of any size. -/
def readInt? (s : String) : Option Int :=
  let (negative, digits) := dropSign s.toList
  if allDigits digits then
    some (if negative then -(natOfDigits digits : Int) else natOfDigits digits)
  else none

def inInt64 (n : Int) : Bool := Int64.minValue.toInt ≤ n && n ≤ Int64.maxValue.toInt

/-- An integer within 64 bits. -/
def readInt64? (s : String) : Option Int64 :=
  (readInt? s).bind fun n => if inInt64 n then some (Int64.ofInt n) else none

/-- The float nearest to `digits · 10 ^ exponent`. Exponents far out of range are settled by the
size of the number, which a float cannot hold or tell from zero. -/
def floatOfDecimal (digits : Nat) (exponent : Int) : Float :=
  if digits = 0 then 0.0
  else
    let size := exponent + (Nat.toDigits 10 digits).length
    if 400 < size then 1.0 / 0.0
    else if size < -400 then 0.0
    else Float.ofScientific digits (exponent < 0) exponent.natAbs

/-- The float nearest to `± mantissa · 2 ^ exponent`. A negative power of two is a decimal fraction. -/
def floatOfBinary (b : Binary) : Float :=
  let x := if 0 ≤ b.exponent then floatOfDecimal (b.mantissa * Nat.pow 2 b.exponent.toNat) 0
    else floatOfDecimal (b.mantissa * Nat.pow 5 b.exponent.natAbs) b.exponent
  if b.negative then -x else x

/-- What is left of a float after taking another away from its magnitude as often as it goes, with
the sign of the first. It is exact. -/
def remainder (x y : Float) : Float :=
  match Binary.ofFloat? x, Binary.ofFloat? y with
  | some a, some b =>
    if b.mantissa = 0 then 0.0 / 0.0
    else
      let e := min a.exponent b.exponent
      let m := a.mantissa * Nat.pow 2 (a.exponent - e).toNat
      let n := b.mantissa * Nat.pow 2 (b.exponent - e).toNat
      floatOfBinary ⟨a.negative, m % n, e⟩
  | some _, none => if y.isNaN then y else x
  | none, _ => 0.0 / 0.0

/-- The exponent that follows `e`, or none for a text that ends before one. -/
def readExponent? : List Char → Option Int
  | [] => some 0
  | e :: cs =>
    if e = 'e' || e = 'E' then
      let (negative, digits) := dropSign cs
      if allDigits digits then
        some (if negative then -(natOfDigits digits : Int) else natOfDigits digits)
      else none
    else none

/-- A magnitude: digits before or after a point, and perhaps an exponent. -/
def readMagnitude? (cs : List Char) : Option Float :=
  let whole := cs.takeWhile Char.isDigit
  let rest := cs.dropWhile Char.isDigit
  let (fraction, rest) := match rest with
    | '.' :: rest => (rest.takeWhile Char.isDigit, rest.dropWhile Char.isDigit)
    | rest => ([], rest)
  if whole.isEmpty && fraction.isEmpty then none
  else (readExponent? rest).map fun e =>
    floatOfDecimal (natOfDigits (whole ++ fraction)) (e - fraction.length)

/-- A float, which may also be spelt `inf`, `infinity` or `nan` in any case. -/
def readFloat? (s : String) : Option Float :=
  let (negative, cs) := dropSign s.toList
  let word := String.ofList (cs.map Char.toLower)
  let magnitude :=
    if word = "inf" || word = "infinity" then some (1.0 / 0.0)
    else if word = "nan" then some (0.0 / 0.0)
    else readMagnitude? cs
  magnitude.map fun x => if negative then -x else x

end Stencil.Decimal
