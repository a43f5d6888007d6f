import Stencil.Time.Basic
import Stencil.Time.Pattern

/-!
# Writing moments

A moment is written item by item as its clock showed it. Years outside 0 to 9999 carry a sign.
-/
namespace Stencil.Time

def decimal (n : Nat) : String := String.ofList (Nat.toDigits 10 n)

/-- Fill up to a width on the left. -/
def padLeft (c : Char) (width : Nat) (s : String) : String :=
  String.ofList (List.replicate (width - s.length) c) ++ s

/-- A number of a given width; a zero-filled one has its sign in front of the zeros. -/
def padded (pad : Pad) (width : Nat) (plus : Bool) (n : Int) : String :=
  let sign := if n < 0 then "-" else if plus then "+" else ""
  let width := if plus then width + 1 else width
  match pad with
  | .none => sign ++ decimal n.natAbs
  | .zero => sign ++ padLeft '0' (width - sign.length) (decimal n.natAbs)
  | .space => padLeft ' ' width (sign ++ decimal n.natAbs)

/-- Two digits of a number below 256. The first digit counts on past `9` through the characters
that follow it. -/
def twoDigits (pad : Pad) (n : Nat) : String :=
  let tens := n / 10
  let first :=
    if tens = 0 then
      match pad with
      | .none => ""
      | .zero => "0"
      | .space => " "
    else (Char.ofNat (48 + tens)).toString
  first ++ (Char.ofNat (48 + n % 10)).toString

def yearText (pad : Pad) (year : Int) : String :=
  if 1000 ≤ year ∧ year ≤ 9999 then decimal year.toNat
  else padded pad 4 (year < 0 || 9999 < year) year

def Moment.date (m : Moment) : Date := Date.ofNumber m.clock.1

def Moment.hour (m : Moment) : Nat := m.clock.2 / 3600

def Moment.minute (m : Moment) : Nat := m.clock.2 / 60 % 60

/-- The second of the minute, 60 in a leap second. -/
def Moment.secondOfMinute (m : Moment) : Nat := m.clock.2 % 60 + m.nano / 1000000000

def Moment.fraction (m : Moment) : Nat := m.nano % 1000000000

def Moment.writeField (m : Moment) (pad : Pad) : Field → String
  | .year => yearText pad m.date.year
  | .century => twoDigits pad (m.date.year / 100 % 256).toNat
  | .yearOfCentury => twoDigits pad (m.date.year % 100).toNat
  | .isoYear => yearText pad (isoWeek m.clock.1).1
  | .isoYearOfCentury => twoDigits pad ((isoWeek m.clock.1).1 % 100).toNat
  | .quarter => decimal ((m.date.month - 1) / 3 + 1)
  | .month => twoDigits pad m.date.month
  | .day => twoDigits pad m.date.day
  | .weekFromSunday => twoDigits pad (weekOfYear 6 m.clock.1)
  | .weekFromMonday => twoDigits pad (weekOfYear 0 m.clock.1)
  | .isoWeek => twoDigits pad (isoWeek m.clock.1).2
  | .daysFromSunday => decimal ((weekday m.clock.1 + 1) % 7)
  | .weekdayFromMonday => decimal (weekday m.clock.1 + 1)
  | .ordinal => padded pad 3 false m.date.ordinal
  | .hour => twoDigits pad m.hour
  | .hourOfHalf => twoDigits pad (if m.hour % 12 = 0 then 12 else m.hour % 12)
  | .minute => twoDigits pad m.minute
  | .second => twoDigits pad m.secondOfMinute
  | .nanosecond => padded pad 9 false m.fraction
  | .timestamp => padded pad 9 false m.timestamp

/-- A point and three, six or nine digits, nothing for no fraction. -/
def Moment.fractionText (m : Moment) : String :=
  let nano := m.fraction
  if nano = 0 then ""
  else if nano % 1000000 = 0 then "." ++ padLeft '0' 3 (decimal (nano / 1000000))
  else if nano % 1000 = 0 then "." ++ padLeft '0' 6 (decimal (nano / 1000))
  else "." ++ padLeft '0' 9 (decimal nano)

def offsetText (style : OffsetStyle) (offset : Int) : String :=
  let sign := if offset < 0 then "-" else "+"
  let hours := padLeft '0' 2 (decimal (offset.natAbs / 60))
  let minutes := padLeft '0' 2 (decimal (offset.natAbs % 60))
  match style with
  | .compact => sign ++ hours ++ minutes
  | .colon => sign ++ hours ++ ":" ++ minutes
  | .seconds => sign ++ hours ++ ":" ++ minutes ++ ":00"
  | .hours => sign ++ hours

/-- Date, `T`, time and offset, the offset never abbreviated. -/
def Moment.rfc3339 (m : Moment) : String :=
  let two (n : Nat) : String := padLeft '0' 2 (decimal n)
  let year := m.date.year
  let yearText :=
    if 0 ≤ year ∧ year ≤ 9999 then padLeft '0' 4 (decimal year.toNat) else padded .zero 4 true year
  yearText ++ "-" ++ two m.date.month ++ "-" ++ two m.date.day ++ "T" ++ two m.hour ++ ":" ++
    two m.minute ++ ":" ++ two m.secondOfMinute ++ m.fractionText ++ offsetText .colon m.offset

def Moment.writeItem (m : Moment) : Item → String
  | .literal text => String.ofList text
  | .space text => String.ofList text
  | .number field pad => m.writeField pad field
  | .monthShort => short (monthName m.date.month)
  | .monthLong => monthName m.date.month
  | .weekdayShort => short (weekdayName m.clock.1)
  | .weekdayLong => weekdayName m.clock.1
  | .halfLower => if m.hour < 12 then "am" else "pm"
  | .halfUpper => if m.hour < 12 then "AM" else "PM"
  | .fraction => m.fractionText
  | .fractionDigits point digits =>
    (if point then "." else "") ++ padLeft '0' digits (decimal (m.fraction / Nat.pow 10 (9 - digits)))
  | .zone => offsetText .colon m.offset
  | .offset style => offsetText style m.offset
  | .full => m.rfc3339

/-- Write a moment by a pattern; none when the pattern is malformed. -/
def Moment.format? (m : Moment) (pattern : String) : Option String :=
  (Item.ofPattern? pattern).map fun items => String.join (items.map m.writeItem)

/-- The form in which templates show a moment: date, time and offset, with spaces between. -/
def Moment.display (m : Moment) : String := (m.format? "%Y-%m-%d %H:%M:%S %z").getD ""

end Stencil.Time
