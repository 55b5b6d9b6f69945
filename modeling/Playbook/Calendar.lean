import Playbook.Text.Numeral

/-!
# Instants

Points in time as seconds since 1970-01-01T00:00:00Z and a fraction, their RFC 3339 text, and the
nearest whole second.
-/

namespace Playbook

/-- A point in time: `seconds` since 1970 began, of either sign, and `nanos` counted upward from
them. -/
structure Instant where
  seconds : Int
  nanos : Fin 1000000000
  deriving DecidableEq

namespace Instant

/-- A day of the calendar that extends the present one to all years. -/
structure Day where
  year : Int
  month : Nat
  day : Nat
  deriving DecidableEq

/-- The calendar day that lies `days` after 1970-01-01. Years are counted from March, so that the
leap day is the last one. -/
def Day.ofCount (days : Int) : Day :=
  let shifted := days + 719468
  let era := shifted / 146097
  let inEra := (shifted % 146097).toNat
  let yearOfEra := (inEra - inEra / 1460 + inEra / 36524 - inEra / 146096) / 365
  let dayOfYear := inEra - (365 * yearOfEra + yearOfEra / 4 - yearOfEra / 100)
  let march := (5 * dayOfYear + 2) / 153
  let day := dayOfYear - (153 * march + 2) / 5 + 1
  let month := if march < 10 then march + 3 else march - 9
  let year := era * 400 + yearOfEra + (if month ≤ 2 then 1 else 0)
  ⟨year, month, day⟩

/-- A year has four digits; outside 0 to 9999 it has a sign and at least four. -/
def yearText (year : Int) : String :=
  let digits := Text.decimalPadded 4 year.natAbs
  if year < 0 then "-" ++ digits else if 9999 < year then "+" ++ digits else digits

/-- The instant in RFC 3339, in UTC, without its fraction. -/
def rfc3339 (t : Instant) : String :=
  let date := Day.ofCount (t.seconds / 86400)
  let time := (t.seconds % 86400).toNat
  let two := Text.decimalPadded 2
  yearText date.year ++ "-" ++ two date.month ++ "-" ++ two date.day ++ "T" ++
    two (time / 3600) ++ ":" ++ two (time / 60 % 60) ++ ":" ++ two (time % 60) ++ "Z"

/-- Whole milliseconds since 1970, a begun one not counted. -/
def milliseconds (t : Instant) : Int :=
  t.seconds * 1000 + t.nanos.val / 1000000

/-- The nearest whole second; half a second goes up. -/
def roundedSeconds (t : Instant) : Int :=
  (t.milliseconds + 500) / 1000

example : rfc3339 ⟨1704164645, 5⟩ = "2024-01-02T03:04:05Z" := by decide +kernel
example : rfc3339 ⟨-1, 0⟩ = "1969-12-31T23:59:59Z" := by decide +kernel

end Instant

end Playbook
