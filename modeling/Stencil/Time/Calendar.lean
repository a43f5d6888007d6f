/-!
# Calendar

The Gregorian calendar extended to all years, days being counted from 1970-01-01. Years begin in
March inside the conversions, so that the leap day is the last day of its year.
-/
namespace Stencil.Time

/-- A day of the calendar. -/
structure Date where
  year : Int
  month : Nat
  day : Nat
  deriving DecidableEq, Repr

def isLeap (year : Int) : Bool :=
  year % 4 = 0 && (year % 100 ≠ 0 || year % 400 = 0)

def daysInMonth (year : Int) (month : Nat) : Nat :=
  match month with
  | 2 => if isLeap year then 29 else 28
  | 4 | 6 | 9 | 11 => 30
  | _ => 31

def Date.isValid (d : Date) : Bool :=
  1 ≤ d.month && d.month ≤ 12 && 1 ≤ d.day && d.day ≤ daysInMonth d.year d.month

/-- Days from 1970-01-01. -/
def Date.number (d : Date) : Int :=
  let y := if d.month ≤ 2 then d.year - 1 else d.year
  let era := y / 400
  let yearOfEra := y - era * 400
  let month := (d.month + 9) % 12
  let dayOfYear := (153 * month + 2) / 5 + d.day - 1
  era * 146097 + (yearOfEra * 365 + yearOfEra / 4 - yearOfEra / 100 + dayOfYear) - 719468

/-- The day at a distance from 1970-01-01. -/
def Date.ofNumber (n : Int) : Date :=
  let z := n + 719468
  let era := z / 146097
  let dayOfEra := (z - era * 146097).toNat
  let yearOfEra := (dayOfEra - dayOfEra / 1460 + dayOfEra / 36524 - dayOfEra / 146096) / 365
  let dayOfYear := dayOfEra - (365 * yearOfEra + yearOfEra / 4 - yearOfEra / 100)
  let mp := (5 * dayOfYear + 2) / 153
  let day := dayOfYear - (153 * mp + 2) / 5 + 1
  let month := if mp < 10 then mp + 3 else mp - 9
  ⟨era * 400 + yearOfEra + (if month ≤ 2 then 1 else 0), month, day⟩

/-- Days since Monday. -/
def weekday (number : Int) : Nat := ((number + 3) % 7).toNat

/-- The place of a day in its year, from 1. -/
def Date.ordinal (d : Date) : Nat := (d.number - Date.number ⟨d.year, 1, 1⟩).toNat + 1

/-- The year and number of the week that holds a day. A week belongs to the year of its
Thursday. -/
def isoWeek (number : Int) : Int × Nat :=
  let thursday := Date.ofNumber (number - weekday number + 3)
  (thursday.year, (thursday.ordinal - 1) / 7 + 1)

/-- Weeks begun in the year by a day, when weeks begin so many days after Monday. -/
def weekOfYear (start : Nat) (number : Int) : Nat :=
  ((Date.ofNumber number).ordinal + 6 - (weekday number + 7 - start) % 7) / 7

def monthNames : List String :=
  ["January", "February", "March", "April", "May", "June", "July", "August", "September",
    "October", "November", "December"]

def weekdayNames : List String :=
  ["Monday", "Tuesday", "Wednesday", "Thursday", "Friday", "Saturday", "Sunday"]

def monthName (month : Nat) : String := monthNames.getD (month - 1) ""

def weekdayName (number : Int) : String := weekdayNames.getD (weekday number) ""

/-- The first three letters of a name. -/
def short (name : String) : String := String.ofList (name.toList.take 3)

/-- The years that dates may have. -/
def minYear : Int := -262143

def maxYear : Int := 262142

end Stencil.Time
