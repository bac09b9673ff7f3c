import RowScope.Number.Decimal
import RowScope.Ordered

/-!
# Dates

Dates of the Gregorian calendar, carried back before its introduction and with a year zero. Days of
the year are counted from 1, days of the week from Monday as 0.
-/

namespace RowScope.Calendar

/-- Whether a year has a 29th of February. -/
def isLeap (year : Int) : Bool := year % 4 == 0 && (year % 100 != 0 || year % 400 == 0)

/-- The number of days of a year. -/
def daysInYear (year : Int) : Nat := if isLeap year then 366 else 365

/-- The number of days of a month. -/
def daysInMonth (year : Int) (month : Nat) : Nat :=
  if month = 2 then (if isLeap year then 29 else 28)
  else if month = 4 ∨ month = 6 ∨ month = 9 ∨ month = 11 then 30
  else 31

/-- The first year that dates are kept for. -/
def firstYear : Int := -262143

/-- The last year that dates are kept for. -/
def lastYear : Int := 262142

/-- Whether a year, a month and a day make a date. -/
def IsDate (year : Int) (month day : Nat) : Prop :=
  firstYear ≤ year ∧ year ≤ lastYear ∧ 1 ≤ month ∧ month ≤ 12 ∧ 1 ≤ day ∧
    day ≤ daysInMonth year month

instance (year : Int) (month day : Nat) : Decidable (IsDate year month day) :=
  inferInstanceAs (Decidable (_ ∧ _))

/-- A date. -/
structure Date where
  /-- The year. -/
  year : Int
  /-- The month, from 1 to 12. -/
  month : Nat
  /-- The day of the month, from 1. -/
  day : Nat
  /-- The month has that day. -/
  isDate : IsDate year month day
deriving DecidableEq

namespace Date

/-- The date of a year, a month and a day, if there is one. -/
def ofParts? (year : Int) (month day : Nat) : Option Date :=
  if h : IsDate year month day then some ⟨year, month, day, h⟩ else none

/-- The year, the month and the day. -/
def parts (d : Date) : Int × Nat × Nat := (d.year, d.month, d.day)

/-- A date is determined by its parts. -/
theorem parts_injective (d e : Date) (h : d.parts = e.parts) : d = e := by
  cases d
  cases e
  simp only [parts, Prod.mk.injEq] at h
  obtain ⟨rfl, rfl, rfl⟩ := h
  rfl

/-- Dates in the order of time. -/
instance : Ordered Date := Ordered.via parts parts_injective

/-- The text of a date: the year in at least four digits, with a sign unless it lies from 0 to 9999,
then the month and the day in two digits each. -/
def text (d : Date) : String :=
  let year :=
    if 0 ≤ d.year ∧ d.year ≤ 9999 then Number.padded 4 d.year.toNat
    else (if d.year < 0 then '-' else '+') :: Number.padded 4 d.year.natAbs
  String.ofList (year ++ '-' :: Number.padded 2 d.month ++ '-' :: Number.padded 2 d.day)

/-! ## Days of the year -/

/-- The number of days before a month, counting the months down from it. -/
def daysBeforeMonth (year : Int) : Nat → Nat
  | 0 => 0
  | month + 1 => if month = 0 then 0 else daysBeforeMonth year month + daysInMonth year month

/-- The day of the year. -/
def ordinal (d : Date) : Nat := daysBeforeMonth d.year d.month + d.day

/-- The month and the day of the month of a day of the year, searched from `month` on. -/
def monthOfOrdinal (year : Int) (ordinal month : Nat) : Nat → Nat × Nat
  | 0 => (month, ordinal)
  | more + 1 =>
    if ordinal ≤ daysInMonth year month then (month, ordinal)
    else monthOfOrdinal year (ordinal - daysInMonth year month) (month + 1) more

/-- The date of a day of a year, if the year has that day. -/
def ofOrdinal? (year : Int) (ordinal : Nat) : Option Date :=
  let found := monthOfOrdinal year ordinal 1 11
  if 1 ≤ ordinal then ofParts? year found.1 found.2 else none

/-! ## Weeks -/

/-- The number of days from the first of January of the year 1 to that of `year`. -/
def daysBeforeYear (year : Int) : Int :=
  let past := year - 1
  365 * past + past / 4 - past / 100 + past / 400

/-- The day of the week of a day of a year, Monday as 0. -/
def weekdayOf (year : Int) (ordinal : Int) : Nat :=
  ((daysBeforeYear year + ordinal - 1) % 7).toNat

/-- The day of the week, Monday as 0. -/
def weekday (d : Date) : Nat := weekdayOf d.year d.ordinal

/-- The week of the year when weeks begin on the day `start` of the week, and the days before the
first such day are week 0. -/
def weekFrom (d : Date) (start : Nat) : Nat :=
  (d.ordinal + 6 - (d.weekday + 7 - start) % 7) / 7

/-- The year that has the Thursday of the date's week, and the number of the week in it. -/
def isoWeek (d : Date) : Int × Nat :=
  let thursday : Int := d.ordinal - d.weekday + 3
  let found : Int × Int :=
    if thursday < 1 then (d.year - 1, thursday + daysInYear (d.year - 1))
    else if daysInYear d.year < thursday then (d.year + 1, thursday - daysInYear d.year)
    else (d.year, thursday)
  (found.1, ((found.2 - 1) / 7 + 1).toNat)

/-- The date of a day that is counted from the last day before `year`, and lies at most a year away
from it. -/
def ofNearbyOrdinal? (year : Int) (ordinal : Int) : Option Date :=
  if ordinal < 1 then ofOrdinal? (year - 1) (ordinal + daysInYear (year - 1)).toNat
  else if daysInYear year < ordinal then ofOrdinal? (year + 1) (ordinal - daysInYear year).toNat
  else ofOrdinal? year ordinal.toNat

/-- The number of weeks of a year whose weeks belong to the year that has their Thursday. -/
def isoWeeks (year : Int) : Nat :=
  let first := weekdayOf year 1
  if first = 3 ∨ (first = 2 ∧ isLeap year) then 53 else 52

/-- The date of a day of such a week. -/
def ofIsoWeek? (year : Int) (week weekday : Nat) : Option Date :=
  if 1 ≤ week ∧ week ≤ isoWeeks year then
    ofNearbyOrdinal? year (4 - (weekdayOf year 4 : Int) + (week - 1 : Nat) * 7 + weekday)
  else none

/-- The date of a day of a week of the year, when weeks begin on the day `start` of the week. -/
def ofWeekFrom? (year : Int) (start week weekday : Nat) : Option Date :=
  let first := 1 + (start + 7 - weekdayOf year 1) % 7
  let ordinal : Int := first + ((week : Int) - 1) * 7 + ((weekday + 7 - start) % 7 : Nat)
  if 1 ≤ ordinal then ofOrdinal? year ordinal.toNat else none

/-- The quarter of the year, from 1 to 4. -/
def quarter (d : Date) : Nat := (d.month - 1) / 3 + 1

end Date

end RowScope.Calendar
