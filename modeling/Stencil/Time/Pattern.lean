import Stencil.Text.Blank

/-!
# Date patterns

The pattern language of dates: text with specifiers introduced by `%`. A pattern is read into
items once, and the items then guide writing and reading.
-/
namespace Stencil.Time

/-- What fills a number up to its usual width. -/
inductive Pad where
  | none
  | zero
  | space
  deriving DecidableEq, Repr

/-- The numbers a date can show. -/
inductive Field where
  | year
  | century
  | yearOfCentury
  | isoYear
  | isoYearOfCentury
  | quarter
  | month
  | day
  | weekFromSunday
  | weekFromMonday
  | isoWeek
  | daysFromSunday
  | weekdayFromMonday
  | ordinal
  | hour
  | hourOfHalf
  | minute
  | second
  | nanosecond
  | timestamp
  deriving DecidableEq, Repr

/-- How much of an offset is written, and with which separator. -/
inductive OffsetStyle where
  | compact
  | colon
  | seconds
  | hours
  deriving DecidableEq, Repr

/-- A piece of a pattern. -/
inductive Item where
  | literal (text : List Char)
  | space (text : List Char)
  | number (field : Field) (pad : Pad)
  | monthShort
  | monthLong
  | weekdayShort
  | weekdayLong
  | halfLower
  | halfUpper
  /-- A point and as many digits as the fraction needs, nothing when there is none. -/
  | fraction
  /-- So many digits of the fraction, after a point if asked. -/
  | fractionDigits (point : Bool) (digits : Nat)
  | zone
  | offset (style : OffsetStyle)
  | full
  deriving DecidableEq, Repr

namespace Item

private def colonChar : Item := .literal [':']

private def slash : Item := .literal ['/']

private def hyphen : Item := .literal ['-']

private def blank : Item := .space [' ']

private def zero (field : Field) : Item := .number field .zero

private def clock : List Item := [zero .hour, colonChar, zero .minute, colonChar, zero .second]

private def slashed : List Item := [zero .month, slash, zero .day, slash, zero .yearOfCentury]

/-- The items of a specifier of one letter. -/
def ofLetter? (c : Char) : Option (List Item) :=
  match c with
  | 'A' => some [.weekdayLong]
  | 'B' => some [.monthLong]
  | 'C' => some [zero .century]
  | 'D' => some slashed
  | 'F' => some [zero .year, hyphen, zero .month, hyphen, zero .day]
  | 'G' => some [zero .isoYear]
  | 'H' => some [zero .hour]
  | 'I' => some [zero .hourOfHalf]
  | 'M' => some [zero .minute]
  | 'P' => some [.halfLower]
  | 'R' => some [zero .hour, colonChar, zero .minute]
  | 'S' => some [zero .second]
  | 'T' => some clock
  | 'U' => some [zero .weekFromSunday]
  | 'V' => some [zero .isoWeek]
  | 'W' => some [zero .weekFromMonday]
  | 'X' => some clock
  | 'Y' => some [zero .year]
  | 'Z' => some [.zone]
  | 'a' => some [.weekdayShort]
  | 'b' => some [.monthShort]
  | 'c' => some ([.weekdayShort, blank, .monthShort, blank, .number .day .space, blank] ++
      clock ++ [blank, zero .year])
  | 'd' => some [zero .day]
  | 'e' => some [.number .day .space]
  | 'f' => some [zero .nanosecond]
  | 'g' => some [zero .isoYearOfCentury]
  | 'h' => some [.monthShort]
  | 'j' => some [zero .ordinal]
  | 'k' => some [.number .hour .space]
  | 'l' => some [.number .hourOfHalf .space]
  | 'm' => some [zero .month]
  | 'n' => some [.space ['\n']]
  | 'p' => some [.halfUpper]
  | 'q' => some [.number .quarter .none]
  | 'r' => some [zero .hourOfHalf, colonChar, zero .minute, colonChar, zero .second, blank,
      .halfUpper]
  | 's' => some [.number .timestamp .none]
  | 't' => some [.space ['\t']]
  | 'u' => some [.number .weekdayFromMonday .none]
  | 'v' => some [.number .day .space, hyphen, .monthShort, hyphen, zero .year]
  | 'w' => some [.number .daysFromSunday .none]
  | 'x' => some slashed
  | 'y' => some [zero .yearOfCentury]
  | 'z' => some [.offset .compact]
  | '+' => some [.full]
  | '%' => some [.literal ['%']]
  | _ => none

/-- The items of the specifier that follows a `%`, and the rest of the pattern. -/
def specifier? : List Char → Option (List Item × List Char)
  | ':' :: ':' :: ':' :: 'z' :: rest => some ([.offset .hours], rest)
  | ':' :: ':' :: 'z' :: rest => some ([.offset .seconds], rest)
  | ':' :: 'z' :: rest => some ([.offset .colon], rest)
  | '.' :: '3' :: 'f' :: rest => some ([.fractionDigits true 3], rest)
  | '.' :: '6' :: 'f' :: rest => some ([.fractionDigits true 6], rest)
  | '.' :: '9' :: 'f' :: rest => some ([.fractionDigits true 9], rest)
  | '.' :: 'f' :: rest => some ([.fraction], rest)
  | '3' :: 'f' :: rest => some ([.fractionDigits false 3], rest)
  | '6' :: 'f' :: rest => some ([.fractionDigits false 6], rest)
  | '9' :: 'f' :: rest => some ([.fractionDigits false 9], rest)
  | c :: rest => (ofLetter? c).map fun items => (items, rest)
  | [] => none

/-- A padding mark, which only a specifier of a single number may carry. -/
def padMark? : Char → Option Pad
  | '-' => some .none
  | '0' => some .zero
  | '_' => some .space
  | _ => none

def withPad? (pad : Pad) : List Item → Option (List Item)
  | [.number field _] => some [.number field pad]
  | _ => none

/-- The specifier after a `%` with an optional padding mark. -/
def padded? : List Char → Option (List Item × List Char)
  | [] => none
  | c :: rest => match padMark? c with
    | some pad => do
      let (items, rest) ← specifier? rest
      return (← withPad? pad items, rest)
    | none => specifier? (c :: rest)

/-- The items of a pattern; none when it has an unknown or unfinished specifier. Each step reads
at least one character, so the length of the pattern bounds their number. -/
def read (fuel : Nat) (pattern : List Char) : Option (List Item) :=
  match fuel, pattern with
  | _, [] => some []
  | 0, _ :: _ => none
  | fuel + 1, c :: rest =>
    if c = '%' then do
      let (items, rest) ← padded? rest
      return items ++ (← read fuel rest)
    else
      let inRun (d : Char) : Bool := if Text.isBlank c then Text.isBlank d
        else !Text.isBlank d && d ≠ '%'
      let run := c :: rest.takeWhile inRun
      let item := if Text.isBlank c then .space run else .literal run
      return item :: (← read fuel (rest.dropWhile inRun))

/-- The items of a pattern. -/
def ofPattern? (pattern : String) : Option (List Item) :=
  read pattern.toList.length pattern.toList

end Item

end Stencil.Time
