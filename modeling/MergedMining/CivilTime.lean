/-
Module: MergedMining.CivilTime
Purpose: Dates and times of day in text, in coordinated universal time.
Trusted boundary: that a supplied calendar is `Calendar.gregorian`; what is proved of summaries
  depends on the law in `Calendar` only
Main exports: CivilTime, CivilTime.ofSeconds, CivilTime.text, Unbroken, Calendar, Calendar.gregorian
-/

namespace MergedMining

/-- A second of a day of the Gregorian calendar. -/
structure CivilTime where
  year : Nat
  month : Nat
  day : Nat
  hour : Nat
  minute : Nat
  second : Nat
deriving Repr, DecidableEq

namespace CivilTime

/-- The date of a day counted from the beginning of 1970.

The days are counted from the first of March of a year divisible by 400, so that a leap day is the
last of its year.  Periods of 400 years have 146097 days, and months of 31, 30, 31, 30, 31 days,
which from March on follow one another, have 153 in five. -/
def dateOfDay (day : Nat) : Nat × Nat × Nat :=
  let sinceMarch := day + 719468
  let era := sinceMarch / 146097
  let dayOfEra := sinceMarch % 146097
  let yearOfEra := (dayOfEra - dayOfEra / 1460 + dayOfEra / 36524 - dayOfEra / 146096) / 365
  let dayOfYear := dayOfEra - (365 * yearOfEra + yearOfEra / 4 - yearOfEra / 100)
  let monthFromMarch := (5 * dayOfYear + 2) / 153
  let dayOfMonth := dayOfYear - (153 * monthFromMarch + 2) / 5 + 1
  let year := 400 * era + yearOfEra
  if monthFromMarch < 10 then
    (year, monthFromMarch + 3, dayOfMonth)
  else
    (year + 1, monthFromMarch - 9, dayOfMonth)

/-- The second counted from the beginning of 1970; every day has 86400. -/
def ofSeconds (seconds : Nat) : CivilTime :=
  let (year, month, day) := dateOfDay (seconds / 86400)
  { year, month, day,
    hour := seconds % 86400 / 3600,
    minute := seconds % 3600 / 60,
    second := seconds % 60 }

/-- A number in at least `width` digits. -/
def padded (width n : Nat) : String :=
  String.ofList ((Nat.toDigits 10 n).leftpad width '0')

/-- The date and the time of day, each from its greatest unit to its least. -/
def text (time : CivilTime) : String :=
  padded 4 time.year ++ "-" ++ padded 2 time.month ++ "-" ++ padded 2 time.day ++ " "
    ++ padded 2 time.hour ++ ":" ++ padded 2 time.minute ++ ":" ++ padded 2 time.second ++ " UTC"

/-- A leap day. -/
example : (ofSeconds 951782400).text = "2000-02-29 00:00:00 UTC" := by rfl

end CivilTime

/-! ## Calendars -/

/-- The text stays on one line. -/
def Unbroken (text : String) : Prop := '\n' ∉ text.toList

/-- Two texts on end stay on one line if both do. -/
theorem unbroken_append_iff {front back : String} :
    Unbroken (front ++ back) ↔ Unbroken front ∧ Unbroken back := by
  rw [Unbroken, String.toList_append, List.mem_append, not_or]
  rfl

/-- A supplied way to write the second counted from the beginning of 1970 on a line. -/
structure Calendar where
  text : (seconds : UInt32) → String
  unbroken (seconds : UInt32) : Unbroken (text seconds)

/-- Padding and digits have no newline in them. -/
theorem CivilTime.unbroken_padded (width n : Nat) : Unbroken (padded width n) := by
  rw [Unbroken, padded, String.toList_ofList, List.leftpad, List.mem_append, not_or]
  constructor
  · intro zero
    exact absurd (List.eq_of_mem_replicate zero) (by decide)
  · intro digit
    have decimal := Nat.isDigit_of_mem_toDigits (by decide) (by decide) digit
    exact absurd decimal (by decide)

theorem CivilTime.unbroken_text (time : CivilTime) : Unbroken time.text := by
  simp only [text, unbroken_append_iff, unbroken_padded, true_and, and_true]
  simp [Unbroken]

/-- The calendar of this library. -/
def Calendar.gregorian : Calendar where
  text seconds := (CivilTime.ofSeconds seconds.toNat).text
  unbroken _ := CivilTime.unbroken_text _

end MergedMining
