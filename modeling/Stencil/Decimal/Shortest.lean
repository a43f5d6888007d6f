import Stencil.Decimal.Binary

/-!
# Shortest decimals

The decimal number with the fewest digits that still rounds to a given float, and of those the one
nearest to it. The reals that round to a float form an interval around it; the candidates with `k`
digits are the two neighbours of the value on the grid of its leading `k` digits, so it is enough
to test those two for `k = 1, 2, …, 17`. All comparisons are between natural numbers.
-/
namespace Stencil.Decimal

/-- The number `digits · 10 ^ exponent`. -/
structure Scaled where
  digits : Nat
  exponent : Int
  deriving DecidableEq, Repr

/-- Number of decimal digits; zero has one. -/
def digitCount (n : Nat) : Nat := (Nat.toDigits 10 n).length

/-- A positive ratio. -/
structure Ratio where
  num : Nat
  den : Nat
  deriving DecidableEq, Repr

/-- The ratio times `2 ^ e`. -/
def Ratio.scale2 (r : Ratio) (e : Int) : Ratio :=
  if 0 ≤ e then ⟨r.num * Nat.pow 2 e.toNat, r.den⟩ else ⟨r.num, r.den * Nat.pow 2 e.natAbs⟩

/-- The ratio times `10 ^ e`. -/
def Ratio.scale10 (r : Ratio) (e : Int) : Ratio :=
  if 0 ≤ e then ⟨r.num * Nat.pow 10 e.toNat, r.den⟩ else ⟨r.num, r.den * Nat.pow 10 e.natAbs⟩

/-- The number of digits before the decimal point: the `p` with `10 ^ (p - 1) ≤ r < 10 ^ p`. -/
def Ratio.magnitude (r : Ratio) : Int :=
  if r.den ≤ r.num then digitCount (r.num / r.den)
  else 1 - (digitCount ((r.den - 1) / r.num) : Int)

/-- What rounds to a float: from `low` to `high`, in quarters of the last place, the ends included
when `closed`. The value itself is `4 * mantissa` quarters. -/
structure Reach where
  low : Nat
  high : Nat
  closed : Bool

def Binary.reach (b : Binary) : Reach :=
  let narrow := b.mantissa = Binary.hidden && -1074 < b.exponent
  ⟨4 * b.mantissa - (if narrow then 1 else 2), 4 * b.mantissa + 2, b.mantissa % 2 = 0⟩

/-- Whether `d` grid steps lie within reach, `unit` being a quarter of the last place divided by
the grid step. -/
def Reach.holds (reach : Reach) (unit : Ratio) (d : Nat) : Bool :=
  let x := d * unit.den
  if reach.closed then reach.low * unit.num ≤ x && x ≤ reach.high * unit.num
  else reach.low * unit.num < x && x < reach.high * unit.num

/-- Of the two neighbours of the value on a grid, the one within reach; of two, the nearer, and
halfway between them as `tieUp` says. -/
def nearestWithin (tieUp : Nat → Bool) (b : Binary) (unit : Ratio) : Option Nat :=
  let value := 4 * b.mantissa * unit.num
  let d := value / unit.den
  let below := b.reach.holds unit d
  let above := b.reach.holds unit (d + 1)
  let rest := value % unit.den
  if below && above then
    if 2 * rest < unit.den || (2 * rest = unit.den && !tieUp d) then some d else some (d + 1)
  else if below then some d
  else if above then some (d + 1)
  else none

/-- Drop the zeros at the end of the digits. -/
def Scaled.strip (d : Scaled) : Scaled :=
  if h : d.digits ≠ 0 ∧ d.digits % 10 = 0 then Scaled.strip ⟨d.digits / 10, d.exponent + 1⟩ else d
termination_by d.digits
decreasing_by exact Nat.div_lt_self (Nat.pos_of_ne_zero h.1) (by decide)

/-- The first grid, from the `k`-th on, that has a candidate within reach. -/
def shortestFrom (tieUp : Nat → Bool) (b : Binary) (magnitude : Int) (k : Nat) : Nat → Scaled
  | 0 => ⟨0, 0⟩
  | fuel + 1 =>
    let unit := (Ratio.scale2 ⟨1, 4⟩ b.exponent).scale10 (k - magnitude)
    match nearestWithin tieUp b unit with
    | some d => ⟨d, magnitude - k⟩
    | none => shortestFrom tieUp b magnitude (k + 1) fuel

/-- The shortest decimal of a magnitude. Seventeen digits always suffice. -/
def shortest (tieUp : Nat → Bool) (b : Binary) : Scaled :=
  if b.mantissa = 0 then ⟨0, 0⟩
  else
    let magnitude := (Ratio.scale2 ⟨b.mantissa, 1⟩ b.exponent).magnitude
    (shortestFrom tieUp b magnitude 1 17).strip

end Stencil.Decimal
