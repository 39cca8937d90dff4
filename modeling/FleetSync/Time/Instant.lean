/-!
# Instants

An `Instant` is a calendar date and a time of day in UTC, to the nanosecond; a leap second is
second `59` with a billion nanoseconds more. Only arithmetic with durations needs the count of
seconds since 1970 (`Instant.seconds`), and it can leave the calendar's range (`Instant.back?`).
-/

namespace FleetSync

/-- Whether February has 29 days. -/
def isLeapYear (year : Int) : Bool := year % 4 == 0 && (year % 100 != 0 || year % 400 == 0)

/-- How many days a month has. -/
def daysInMonth (year : Int) (month : Nat) : Nat :=
  match month with
  | 2 => if isLeapYear year then 29 else 28
  | 4 | 6 | 9 | 11 => 30
  | _ => 31

/-- A day of the calendar. -/
structure Date where
  year : Int
  month : Nat
  day : Nat
deriving DecidableEq, Repr, Inhabited

namespace Date

/-- The first year of the calendar. -/
def minYear : Int := -262143

/-- The last year of the calendar. -/
def maxYear : Int := 262142

/-- Whether the day exists and the calendar reaches it. -/
def valid (d : Date) : Bool :=
  decide (minYear ≤ d.year ∧ d.year ≤ maxYear ∧ 1 ≤ d.month ∧ d.month ≤ 12 ∧ 1 ≤ d.day ∧
    d.day ≤ daysInMonth d.year d.month)

/-- The day after. -/
def next (d : Date) : Date :=
  if d.day < daysInMonth d.year d.month then { d with day := d.day + 1 }
  else if d.month < 12 then ⟨d.year, d.month + 1, 1⟩
  else ⟨d.year + 1, 1, 1⟩

/-- The day before. -/
def previous (d : Date) : Date :=
  if 1 < d.day then { d with day := d.day - 1 }
  else if 1 < d.month then ⟨d.year, d.month - 1, daysInMonth d.year (d.month - 1)⟩
  else ⟨d.year - 1, 12, 31⟩

/-- The days of the year before a month. -/
def daysBeforeMonth (year : Int) (month : Nat) : Nat :=
  (List.range (month - 1)).foldl (fun days m => days + daysInMonth year (m + 1)) 0

/-- The days from the first of January of year 1 to the first of January of a year. -/
def daysBeforeYear (year : Int) : Int :=
  let y := year - 1
  365 * y + y / 4 - y / 100 + y / 400

/-- The number of the day, counted from the first of January 1970. -/
def number (d : Date) : Int :=
  daysBeforeYear d.year - daysBeforeYear 1970 + daysBeforeMonth d.year d.month + (d.day - 1 : Nat)

end Date

/-- A billion, the nanoseconds of a second. -/
def nanosPerSecond : Nat := 1000000000

/-- The seconds of a day. -/
def secondsPerDay : Nat := 86400

/-- A time of day. -/
structure TimeOfDay where
  hour : Nat
  minute : Nat
  second : Nat
  nanos : Nat
deriving DecidableEq, Repr, Inhabited

namespace TimeOfDay

/-- Whether the time exists; second `59` may last two seconds. -/
def valid (t : TimeOfDay) : Bool :=
  decide (t.hour < 24 ∧ t.minute < 60 ∧ t.second < 60 ∧
    (t.nanos < nanosPerSecond ∨ t.second = 59 ∧ t.nanos < 2 * nanosPerSecond))

/-- The second of the day. -/
def seconds (t : TimeOfDay) : Nat := (t.hour * 60 + t.minute) * 60 + t.second

/-- The time at a second of the day. -/
def ofSeconds (s nanos : Nat) : TimeOfDay := ⟨s / 3600, s / 60 % 60, s % 60, nanos⟩

end TimeOfDay

/-- A point in time of the calendar, in UTC. -/
structure Instant where
  date : Date
  time : TimeOfDay
  date_valid : date.valid = true
  time_valid : time.valid = true
deriving DecidableEq, Repr

namespace Instant

instance : Inhabited Instant := ⟨⟨⟨1970, 1, 1⟩, ⟨0, 0, 0, 0⟩, by decide, by decide⟩⟩

/-- The instant of a date and a time of day, if both exist. -/
def of? (date : Date) (time : TimeOfDay) : Option Instant :=
  if hd : date.valid = true then
    if ht : time.valid = true then some ⟨date, time, hd, ht⟩ else none
  else none

/-- The instant of a date and a time of day on a clock `offset` seconds ahead of UTC. -/
def ofLocal? (date : Date) (time : TimeOfDay) (offset : Int) : Option Instant :=
  if date.valid && time.valid then
    let s : Int := time.seconds - offset
    let date :=
      if s < 0 then date.previous else if (secondsPerDay : Int) ≤ s then date.next else date
    of? date (TimeOfDay.ofSeconds (s % secondsPerDay).toNat time.nanos)
  else none

/-- The seconds since 1970 began. -/
def seconds (t : Instant) : Int := t.date.number * secondsPerDay + t.time.seconds

/-- The milliseconds since 1970 began. -/
def millis (t : Instant) : Int := t.seconds * 1000 + t.time.nanos / 1000000

/-- Whether one instant is before another. -/
def before (a b : Instant) : Bool :=
  decide (a.seconds < b.seconds ∨ a.seconds = b.seconds ∧ a.time.nanos < b.time.nanos)

end Instant

/-- A point on the line of time, for comparison with instants. -/
structure Cutoff where
  seconds : Int
  nanos : Nat
deriving DecidableEq, Repr, Inhabited

namespace Cutoff

/-- The first second of the calendar. -/
def minSeconds : Int := Date.number ⟨Date.minYear, 1, 1⟩ * secondsPerDay

/-- The first second after the calendar. -/
def endSeconds : Int := Date.number ⟨Date.maxYear + 1, 1, 1⟩ * secondsPerDay

/-- Whether an instant is before the cutoff. -/
def isAfter (c : Cutoff) (t : Instant) : Bool :=
  decide (t.seconds < c.seconds ∨ t.seconds = c.seconds ∧ t.time.nanos < c.nanos)

end Cutoff

/-- The point `nanos` nanoseconds before an instant; `none` outside the calendar. -/
def Instant.back? (t : Instant) (nanos : Nat) : Option Cutoff :=
  let total : Int := t.seconds * nanosPerSecond + t.time.nanos - nanos
  let s := total / nanosPerSecond
  if Cutoff.minSeconds ≤ s ∧ s < Cutoff.endSeconds then
    some ⟨s, (total % nanosPerSecond).toNat⟩
  else none

end FleetSync
