import Stencil.Time.Basic
import Stencil.Time.Pattern

/-!
# Reading moments

The forms in which a text may state a moment, tried in turn: RFC 3339, RFC 2822, and a list of
patterns with and without offset. A clock without an offset shows universal time, and a date
alone means its midnight.
-/
namespace Stencil.Time

/-- A reader consumes the front of a text or fails. -/
abbrev Reader (α : Type) := StateT (List Char) Option α

/-- The parts of a moment found so far. -/
structure Parts where
  year : Option Int := none
  month : Option Nat := none
  day : Option Nat := none
  hour : Option Nat := none
  minute : Option Nat := none
  second : Option Nat := none
  nano : Nat := 0
  offset : Option Int := none
  weekday : Option Nat := none

namespace Reader

def fail {α : Type} : Reader α := fun _ => none

def require (p : Bool) : Reader Unit := fun cs => if p then some ((), cs) else none

def skipBlank : Reader Unit := modify Text.trimStart

/-- At least one blank. -/
def blank : Reader Unit := fun cs => match cs with
  | c :: rest => if Text.isBlank c then some ((), Text.trimStart rest) else none
  | [] => none

def char (c : Char) : Reader Unit := fun cs => match cs with
  | d :: rest => if c = d then some ((), rest) else none
  | [] => none

/-- A number of at least `low` and at most `high` digits. -/
def number (low : Nat) (high : Option Nat) : Reader (Nat × Nat) := fun cs =>
  let run := (match high with
    | some n => cs.take n
    | none => cs).takeWhile Char.isDigit
  if low ≤ run.length then
    some ((run.foldl (fun n c => n * 10 + (c.toNat - 48)) 0, run.length), cs.drop run.length)
  else none

def digits (count : Nat) : Reader Nat := Prod.fst <$> number count (some count)

def atMost (count : Nat) : Reader Nat := Prod.fst <$> number 1 (some count)

/-- A year, which may have any number of digits after a sign and at most four without. -/
def year : Reader Int := do
  match (← get) with
  | '-' :: rest => do set rest; return -((← number 1 none).1 : Int)
  | '+' :: rest => do set rest; return ((← number 1 none).1 : Int)
  | _ => return (← atMost 4)

/-- The position in a list of names of the one whose first three letters come next, in any
case. -/
def shortName (names : List String) : Reader Nat := fun cs =>
  let word := String.ofList ((cs.take 3).map Char.toLower)
  (names.findIdx? fun name => (short name).toLower = word).map fun i => (i, cs.drop 3)

/-- A month by its short or full name. -/
def monthName : Reader Nat := do
  let i ← shortName monthNames
  let suffix := ((monthNames.getD i "").toList.drop 3)
  let rest ← get
  if (rest.take suffix.length).map Char.toLower = suffix then set (rest.drop suffix.length)
  return i + 1

/-- A fraction of a second, in nanoseconds; digits after the ninth are passed over. -/
def fraction : Reader Nat := do
  let (n, count) ← number 1 (some 9)
  modify (·.dropWhile Char.isDigit)
  return n * Nat.pow 10 (9 - count)

/-- A sign; the long minus only where `long` allows it. -/
def sign (long : Bool) : Reader Int := fun cs => match cs with
  | '+' :: rest => some (1, rest)
  | '-' :: rest => some (-1, rest)
  | '\u2212' :: rest => if long then some (-1, rest) else none
  | _ => none

/-- A signed offset of hours and minutes, in minutes. -/
def offset (long : Bool) (separator : Reader Unit) : Reader Int := do
  let s ← sign long
  let hours ← digits 2
  separator
  let minutes ← digits 2
  require (minutes < 60)
  return s * (hours * 60 + minutes)

/-- The zone names of RFC 2822, with their hours. A single letter other than `J` means
universal time. -/
def zoneHours? (name : String) : Option Int :=
  if name = "gmt" || name = "ut" || name = "z" then some 0
  else if name = "edt" then some (-4)
  else if name = "est" || name = "cdt" then some (-5)
  else if name = "cst" || name = "mdt" then some (-6)
  else if name = "mst" || name = "pdt" then some (-7)
  else if name = "pst" then some (-8)
  else if name.length = 1 && name ≠ "j" then some 0
  else none

/-- An offset or a zone name, as in RFC 2822. -/
def zone : Reader Int := do
  let letters := (← get).takeWhile Char.isAlpha
  if letters.isEmpty then offset false (pure ())
  else match zoneHours? (String.ofList (letters.map Char.toLower)) with
    | some hours => do modify (·.drop letters.length); return hours * 60
    | none => fail

/-- A comment in parentheses, which nest and may be escaped, from inside `depth + 1` of them. -/
def commentEnd (depth : Nat) : List Char → Option (List Char)
  | [] => none
  | '\\' :: _ :: rest => commentEnd depth rest
  | c :: rest =>
    if c = '(' then commentEnd (depth + 1) rest
    else if c = ')' then match depth with
      | 0 => some rest
      | depth + 1 => commentEnd depth rest
    else commentEnd depth rest

/-- Pass over the comments at the end of a text; each takes at least two characters. -/
def skipComments : Nat → List Char → List Char
  | 0, cs => cs
  | fuel + 1, cs => match Text.trimStart cs with
    | '(' :: rest => match commentEnd 0 rest with
      | some rest => skipComments fuel rest
      | none => cs
    | _ => cs

end Reader

open Reader

/-- Hour, minute and second within their ranges; second 60 is a leap second. -/
def Parts.time? (p : Parts) : Option (Nat × Nat) := do
  let hour ← p.hour
  let minute ← p.minute
  let second := p.second.getD 0
  if hour < 24 ∧ minute < 60 ∧ second ≤ 60 then
    if second = 60 then some (hour * 3600 + minute * 60 + 59, 1000000000 + p.nano)
    else some (hour * 3600 + minute * 60 + second, p.nano)
  else none

/-- A date of the calendar that falls on the stated day of the week. -/
def Parts.date? (p : Parts) : Option Date := do
  let date : Date := ⟨← p.year, ← p.month, ← p.day⟩
  if date.isValid ∧ minYear ≤ date.year ∧ date.year ≤ maxYear ∧
      p.weekday.all (· = Stencil.Time.weekday date.number) then some date
  else none

/-- The moment that the parts make up, with universal time for a missing offset. -/
def Parts.moment? (p : Parts) : Option Moment := do
  let date ← p.date?
  let (second, nano) ← p.time?
  let offset := p.offset.getD 0
  if offset.natAbs < 24 * 60 then Moment.ofClock? date second nano offset else none

/-- All of a text by a reader. -/
def readAll {α : Type} (reader : Reader α) (s : List Char) : Option α :=
  match reader s with
  | some (a, []) => some a
  | _ => none

def rfc3339Parts : Reader Parts := do
  let year ← digits 4
  char '-'
  let month ← digits 2
  char '-'
  let day ← digits 2
  match (← get) with
  | c :: rest => if c = 't' || c = 'T' || c = ' ' then set rest else fail
  | [] => fail
  let hour ← digits 2
  char ':'
  let minute ← digits 2
  char ':'
  let second ← digits 2
  let nano ← match (← get) with
    | '.' :: rest => do set rest; fraction
    | _ => pure 0
  let offset ← match (← get) with
    | 'Z' :: rest | 'z' :: rest => do set rest; pure 0
    | _ => offset true (char ':')
  return { year := some year, month, day, hour, minute, second, nano, offset }

/-- A year of two digits lies between 1950 and 2049, one of three digits after 1900. -/
def fullYear (n count : Nat) : Nat :=
  if count = 2 then if n < 50 then n + 2000 else n + 1900
  else if count = 3 then n + 1900
  else n

def rfc2822Parts : Reader Parts := do
  skipBlank
  let weekday ← match shortName weekdayNames (← get) with
    | some (i, ',' :: rest) => do set rest; pure (some i)
    | some _ => fail
    | none => pure none
  skipBlank
  let day ← atMost 2
  blank
  let month ← shortName monthNames
  blank
  let (n, count) ← number 2 none
  blank
  let hour ← digits 2
  skipBlank
  char ':'
  skipBlank
  let minute ← digits 2
  let second ← match Text.trimStart (← get) with
    | ':' :: rest => do set rest; some <$> digits 2
    | _ => pure none
  blank
  let offset ← zone
  modify fun cs => skipComments cs.length cs
  return { year := some (fullYear n count), month := some (month + 1), day, hour, minute, second,
           offset, weekday }

/-- Read one item of a pattern into the parts. -/
def readItem (p : Parts) : Item → Reader Parts
  | .literal text => do
    let rest ← get
    if rest.take text.length = text then set (rest.drop text.length) else fail
    return p
  | .space _ => do skipBlank; return p
  | .number .year _ => do skipBlank; return { p with year := some (← year) }
  | .number .month _ => do skipBlank; return { p with month := some (← atMost 2) }
  | .number .day _ => do skipBlank; return { p with day := some (← atMost 2) }
  | .number .hour _ => do skipBlank; return { p with hour := some (← atMost 2) }
  | .number .minute _ => do skipBlank; return { p with minute := some (← atMost 2) }
  | .number .second _ => do skipBlank; return { p with second := some (← atMost 2) }
  | .monthShort => return { p with month := some ((← shortName monthNames) + 1) }
  | .monthLong => return { p with month := some (← Reader.monthName) }
  | .offset _ => do
    skipBlank
    let separator : Reader Unit := modify fun cs => cs.dropWhile fun c => c = ':' || Text.isBlank c
    return { p with offset := some (← offset true separator) }
  | _ => fail

/-- Read all of a text by a pattern. -/
def readPattern (s : List Char) (pattern : String) : Option Parts :=
  (Item.ofPattern? pattern).bind fun items =>
    readAll (items.foldlM readItem ({} : Parts)) s

def momentPatterns : List String :=
  ["%Y-%m-%d %H:%M:%S %z", "%Y-%m-%dT%H:%M:%S%z", "%Y-%m-%d %H:%M:%S", "%Y-%m-%dT%H:%M:%S",
    "%Y-%m-%d %H:%M"]

def datePatterns : List String := ["%Y-%m-%d", "%B %d, %Y", "%b %d, %Y", "%d %B %Y"]

/-- The moment that an RFC 3339 text states. -/
def Moment.ofRfc3339? (s : String) : Option Moment :=
  (readAll rfc3339Parts s.toList).bind Parts.moment?

/-- The moment that a text states in any of the known forms. -/
def Moment.read? (s : List Char) : Option Moment :=
  let forms : List (Option Moment) :=
    [(readAll rfc3339Parts s).bind Parts.moment?, (readAll rfc2822Parts s).bind Parts.moment?] ++
    momentPatterns.map (fun pattern => (readPattern s pattern).bind Parts.moment?) ++
    datePatterns.map (fun pattern => do
      let date ← (← readPattern s pattern).date?
      Moment.ofClock? date 0 0 0)
  forms.findSome? id

end Stencil.Time
