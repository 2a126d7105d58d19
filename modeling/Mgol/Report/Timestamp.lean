import Mgol.Text.Decimal

/-! # Points in time

Writing a moment, given in milliseconds since the beginning of 1970, as a date and a time of day.

* **`CivilDate`, `CivilDate.ofDays`** — the date that is a number of days away.
* **`timestamp millis`** — date and time with milliseconds, in universal time. -/

namespace Mgol

/-- **A date of the Gregorian calendar.** -/
structure CivilDate where
  year : Int
  month : Nat
  day : Nat
  deriving DecidableEq, Repr

/-- **The date `days` after the first of January 1970.** Counts in eras of 400 years, whose years
begin in March so that the leap day comes last. -/
def CivilDate.ofDays (days : Int) : CivilDate :=
  let shifted := days + 719468
  let era := shifted.fdiv 146097
  let dayOfEra := (shifted.fmod 146097).toNat
  let yearOfEra :=
    (dayOfEra - dayOfEra / 1460 + dayOfEra / 36524 - dayOfEra / 146096) / 365
  let dayOfYear := dayOfEra - (365 * yearOfEra + yearOfEra / 4 - yearOfEra / 100)
  let month' := (5 * dayOfYear + 2) / 153
  let day := dayOfYear - (153 * month' + 2) / 5 + 1
  let month := if month' < 10 then month' + 3 else month' - 9
  let year := (yearOfEra : Int) + era * 400
  ⟨if month ≤ 2 then year + 1 else year, month, day⟩

/-- A year in four digits, with a sign where those do not suffice. -/
def yearText (year : Int) : String :=
  if 0 ≤ year ∧ year ≤ 9999 then Text.zeroFilled 4 year.toNat
  else if 0 ≤ year then "+" ++ Text.zeroFilled 4 year.toNat
  else "-" ++ Text.zeroFilled 4 year.natAbs

/-- **A moment as date and time.** -/
def timestamp (millis : Int) : String :=
  let date := CivilDate.ofDays (millis.fdiv 86400000)
  let inDay := (millis.fmod 86400000).toNat
  yearText date.year ++ "-" ++ Text.zeroFilled 2 date.month ++ "-" ++ Text.zeroFilled 2 date.day
    ++ "T" ++ Text.zeroFilled 2 (inDay / 3600000) ++ ":"
    ++ Text.zeroFilled 2 (inDay / 60000 % 60) ++ ":" ++ Text.zeroFilled 2 (inDay / 1000 % 60)
    ++ "." ++ Text.zeroFilled 3 (inDay % 1000) ++ "Z"

end Mgol
