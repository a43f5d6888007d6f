import Stencil.Time.Calendar

/-!
# Moments

A moment is an instant of universal time together with the offset of the clock that showed it.
Moments are compared as instants; the offset only matters for how they are written.
-/
namespace Stencil.Time

structure Moment where
  /-- Days from 1970-01-01, in universal time. -/
  day : Int
  /-- Seconds of the day. -/
  second : Nat
  /-- Nanoseconds of the second; from `10 ^ 9` on they belong to a leap second. -/
  nano : Nat
  /-- Minutes by which the clock is ahead of universal time. -/
  offset : Int
  deriving DecidableEq, Repr

namespace Moment

/-- Whether two moments are the same instant. -/
def sameInstant (a b : Moment) : Bool := a.day = b.day && a.second = b.second && a.nano = b.nano

def before (a b : Moment) : Bool :=
  a.day < b.day || (a.day = b.day && (a.second < b.second ||
    (a.second = b.second && a.nano < b.nano)))

/-- The day and the second of the day that the clock showed. -/
def clock (m : Moment) : Int × Nat :=
  let s : Int := m.second + m.offset * 60
  (m.day + s / 86400, (s % 86400).toNat)

/-- Seconds from the start of 1970. -/
def timestamp (m : Moment) : Int := m.day * 86400 + m.second

/-- The moment at which a clock with an offset shows a date and a second of the day, unless the
offset takes it out of the calendar. -/
def ofClock? (date : Date) (second nano : Nat) (offset : Int) : Option Moment :=
  let s : Int := second - offset * 60
  let day := date.number + s / 86400
  if Date.number ⟨minYear, 1, 1⟩ ≤ day ∧ day ≤ Date.number ⟨maxYear, 12, 31⟩ then
    some ⟨day, (s % 86400).toNat, nano, offset⟩
  else none

end Moment

end Stencil.Time
