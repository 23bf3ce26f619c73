import XmlDraft.Text.Digits

/-!
# Dates, times and durations

Days of the calendar, times of the day with a precision of microseconds and an optional
offset from universal time, and durations.  Dates and times are written in the notation
of ISO 8601; a duration shows its days, then hours, minutes and seconds.
-/

namespace XmlDraft

/-- A day of the calendar. -/
structure Date where
  /-- The year. -/
  year : Nat
  /-- The month, counted from one. -/
  month : Nat
  /-- The day of the month, counted from one. -/
  day : Nat
deriving DecidableEq, Repr

/-- A time of the day, with an offset from universal time in seconds or none. -/
structure Clock where
  /-- The hour. -/
  hour : Nat
  /-- The minute. -/
  minute : Nat
  /-- The second. -/
  second : Nat
  /-- The microsecond. -/
  micro : Nat
  /-- The offset from universal time in seconds, if known. -/
  offset : Option Int := none
deriving DecidableEq, Repr

/-- A duration in microseconds. -/
structure Span where
  /-- The length in microseconds. -/
  micros : Int
deriving DecidableEq, Repr

open Text

namespace Date

/-- The date as year, month and day. -/
def iso (d : Date) : String :=
  padded 4 d.year ++ "-" ++ padded 2 d.month ++ "-" ++ padded 2 d.day

/-- The number of days from the first of March of the year zero. -/
def dayNumber (d : Date) : Int :=
  let y : Int := if d.month ≤ 2 then (d.year : Int) - 1 else d.year
  let m : Int := (d.month + 9) % 12
  365 * y + y / 4 - y / 100 + y / 400 + (153 * m + 2) / 5 + d.day - 1

end Date

/-- Hours, minutes and seconds with two digits each. -/
def hoursMinutes (seconds : Nat) : String :=
  padded 2 (seconds / 3600) ++ ":" ++ padded 2 (seconds / 60 % 60)

namespace Clock

/-- An offset as a sign, hours and minutes, and seconds where there are any. -/
def offsetText (seconds : Int) : String :=
  let n := seconds.natAbs
  (if seconds < 0 then "-" else "+") ++ hoursMinutes n
    ++ (if n % 60 = 0 then "" else ":" ++ padded 2 (n % 60))

/-- The time as hours, minutes and seconds, microseconds where there are any, and the
offset where it is known. -/
def iso (t : Clock) : String :=
  padded 2 t.hour ++ ":" ++ padded 2 t.minute ++ ":" ++ padded 2 t.second
    ++ (if t.micro = 0 then "" else "." ++ padded 6 t.micro)
    ++ (t.offset.map offsetText).getD ""

/-- The microseconds since the start of the day. -/
def micros (t : Clock) : Int :=
  ((t.hour * 3600 + t.minute * 60 + t.second) * 1000000 + t.micro : Nat)

end Clock

/-- A date and a time of that day in one notation. -/
def momentIso (d : Date) (t : Clock) : String :=
  d.iso ++ "T" ++ t.iso

namespace Span

/-- The microseconds of a day. -/
def dayMicros : Int := 86400000000

/-- The duration of days, seconds and microseconds. -/
def of (days seconds micros : Int) : Span :=
  ⟨days * dayMicros + seconds * 1000000 + micros⟩

/-- The whole days of a duration, rounded down. -/
def days (s : Span) : Int :=
  Int.fdiv s.micros dayMicros

/-- The microseconds of a duration beyond its whole days. -/
def rest (s : Span) : Nat :=
  (Int.fmod s.micros dayMicros).toNat

/-- The text of a duration: its days if there are any, then hours, minutes and seconds,
and microseconds where there are any. -/
def text (s : Span) : String :=
  let seconds := s.rest / 1000000
  let micro := s.rest % 1000000
  let days :=
    if s.days = 0 then ""
    else intText s.days ++ (if s.days.natAbs = 1 then " day, " else " days, ")
  days ++ natText (seconds / 3600) ++ ":" ++ padded 2 (seconds / 60 % 60) ++ ":"
    ++ padded 2 (seconds % 60) ++ (if micro = 0 then "" else "." ++ padded 6 micro)

end Span

end XmlDraft
