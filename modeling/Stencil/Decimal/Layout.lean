import Stencil.Decimal.Shortest

/-!
# Writing floats

The ways in which a float is written. All of them write the shortest digits; they differ in where
the decimal point gives way to an exponent, in the mark of a whole number, in the choice between
two equally near decimals, and in the words for what is not finite.
-/
namespace Stencil.Decimal

/-- How floats are written. -/
structure Layout where
  /-- Exponents of the leading digit that are written with a decimal point; absent when all are. -/
  positional : Option (Int × Int)
  /-- Whether whole numbers written with a point end in `.0`. -/
  markWhole : Bool
  /-- What stands before an exponent that is not negative. -/
  plus : String
  /-- Whether the larger of two equally near decimals is taken, the smaller one being given. -/
  tieUp : Nat → Bool
  nan : String
  infinity : String
  negativeInfinity : String

/-- Digits with a point, never an exponent; a whole number has no point. -/
def plainLayout : Layout where
  positional := none
  markWhole := false
  plus := ""
  tieUp := fun _ => true
  nan := "NaN"
  infinity := "inf"
  negativeInfinity := "-inf"

/-- Numbers in JSON: an exponent below `1e-5` and from `1e16` on, a point otherwise. -/
def jsonLayout : Layout where
  positional := some (-5, 15)
  markWhole := true
  plus := "+"
  tieUp := fun d => d % 2 = 1
  nan := "null"
  infinity := "null"
  negativeInfinity := "null"

/-- Numbers in the results of queries: an exponent below `1e-4` and from `1e16` on. -/
def queryLayout : Layout where
  positional := some (-4, 15)
  markWhole := true
  plus := ""
  tieUp := fun _ => true
  nan := "null"
  infinity := "null"
  negativeInfinity := "null"

def digitText (n : Nat) : String := String.ofList (Nat.toDigits 10 n)

def zeros (n : Nat) : String := String.ofList (List.replicate n '0')

/-- With a decimal point, or none for a whole number. -/
def positionalText (markWhole : Bool) (d : Scaled) : String :=
  let text := Nat.toDigits 10 d.digits
  if 0 ≤ d.exponent then
    String.ofList text ++ zeros d.exponent.toNat ++ (if markWhole then ".0" else "")
  else
    let places := d.exponent.natAbs
    if places < text.length then
      String.ofList (text.take (text.length - places)) ++ "." ++
        String.ofList (text.drop (text.length - places))
    else "0." ++ zeros (places - text.length) ++ String.ofList text

/-- One digit before the point, and the exponent of that digit. -/
def exponentText (plus : String) (d : Scaled) : String :=
  let text := Nat.toDigits 10 d.digits
  let e := d.exponent + text.length - 1
  String.ofList (text.take 1) ++
    (if text.length = 1 then "" else "." ++ String.ofList (text.drop 1)) ++
    "e" ++ (if e < 0 then "-" else plus) ++ digitText e.natAbs

def Layout.magnitudeText (layout : Layout) (d : Scaled) : String :=
  let e := d.exponent + digitCount d.digits - 1
  match layout.positional with
  | some (low, high) =>
    if d.digits = 0 || (low ≤ e && e ≤ high) then positionalText layout.markWhole d
    else exponentText layout.plus d
  | none => positionalText layout.markWhole d

def Layout.write (layout : Layout) (x : Float) : String :=
  match Binary.ofFloat? x with
  | some b =>
    (if b.negative then "-" else "") ++ layout.magnitudeText (shortest layout.tieUp b)
  | none =>
    if x.isNaN then layout.nan
    else if x < 0 then layout.negativeInfinity else layout.infinity

/-- Without an exponent, and without a point for whole numbers. -/
def plain (x : Float) : String := plainLayout.write x

/-- As templates show a float: whole numbers below `10 ^ 16` keep `.0`. -/
def display (x : Float) : String :=
  match Binary.ofFloat? x with
  | some b => if b.isWhole && b.wholePart < 10000000000000000 then plain x ++ ".0" else plain x
  | none => plain x

def json (x : Float) : String := jsonLayout.write x

end Stencil.Decimal
