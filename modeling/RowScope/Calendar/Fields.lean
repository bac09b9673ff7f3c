import RowScope.Calendar.Date

/-!
# Components of a date

`Fields` holds what a text says about a point in time, each component once; a second mention must
agree with the first. `Fields.date?` finds the date that the components name. Components that do not
take part in finding it must agree with it, and those of the time of day are left aside.
-/

namespace RowScope.Calendar

/-- A component of a point in time. -/
inductive Component where
  | year
  | century
  | yearOfCentury
  | isoYear
  | isoCentury
  | isoYearOfCentury
  | quarter
  | month
  | day
  | weekFromSunday
  | weekFromMonday
  | isoWeek
  | weekday
  | ordinal
  | halfDay
  | hourOfHalf
  | minute
  | second
  | nanosecond
  | timestamp
  | offset
deriving DecidableEq, Repr

/-- The components that have been read. -/
abbrev Fields : Type := List (Component × Int)

namespace Fields

/-- The value of a component. -/
def get? (fields : Fields) (c : Component) : Option Int :=
  (fields.find? fun field => field.1 = c).map (·.2)

/-- Adds a component; it must agree with an earlier mention. -/
def add (fields : Fields) (c : Component) (value : Int) : Option Fields :=
  match fields.get? c with
  | none => some ((c, value) :: fields)
  | some earlier => if earlier = value then some fields else none

/-- Adds a component whose value lies from `low` to `high`. -/
def addWithin (fields : Fields) (c : Component) (low high value : Int) : Option Fields :=
  if low ≤ value ∧ value ≤ high then fields.add c value else none

/-- Whether a component is absent or has the value. -/
def agrees (fields : Fields) (c : Component) (value : Int) : Bool :=
  match fields.get? c with
  | none => true
  | some given => given = value

/-! ## Years -/

/-- The greatest number that a year may be read as. -/
def greatestYear : Int := 2147483647

/-- The least number that a year may be read as. -/
def leastYear : Int := -2147483648

/-- The year that is given whole, or by its century and its number in it, or by that number alone,
which then lies from 1970 to 2069. The inner option is empty if nothing is given. -/
def resolveYear (whole hundreds rest : Option Int) : Option (Option Int) :=
  match whole, hundreds, rest with
  | whole, none, none => some whole
  | some y, q, r =>
    if y < 0 then none
    else if q.getD (y / 100) = y / 100 ∧ r.getD (y % 100) = y % 100 then some (some y)
    else none
  | none, some q, some r =>
    if q * 100 + r ≤ greatestYear then some (some (q * 100 + r)) else none
  | none, none, some r => some (some (if r < 70 then 2000 + r else 1900 + r))
  | none, some _, none => none

/-- Whether a century and the number in it agree with a year. A year below zero has neither. -/
def agreesWithYear (fields : Fields) (whole hundreds rest : Component) (year : Int) : Bool :=
  fields.agrees whole year &&
    (if 0 ≤ year then fields.agrees hundreds (year / 100) && fields.agrees rest (year % 100)
    else (fields.get? hundreds).isNone && (fields.get? rest).isNone)

/-! ## The date -/

/-- Whether the year, the month and the day agree with a date. -/
def agreesWithParts (fields : Fields) (d : Date) : Bool :=
  fields.agreesWithYear .year .century .yearOfCentury d.year &&
    fields.agrees .month d.month && fields.agrees .day d.day

/-- Whether the day of the year and the weeks of the year agree with a date. -/
def agreesWithOrdinal (fields : Fields) (d : Date) : Bool :=
  fields.agrees .ordinal d.ordinal &&
    fields.agrees .weekFromSunday (d.weekFrom 6) && fields.agrees .weekFromMonday (d.weekFrom 0)

/-- Whether the week that belongs to the year of its Thursday, and the day of the week, agree with a
date. -/
def agreesWithIsoWeek (fields : Fields) (d : Date) : Bool :=
  fields.agreesWithYear .isoYear .isoCentury .isoYearOfCentury d.isoWeek.1 &&
    fields.agrees .isoWeek d.isoWeek.2 && fields.agrees .weekday d.weekday

/-- The date that the first sufficient set of components names: the month and the day of a year, its
day, the day of a week of it counted from Sundays or from Mondays, or the day of a week that belongs
to the year of its Thursday. -/
def named? (fields : Fields) (year isoYear : Option Int) : Option Date :=
  let part := fun c => (fields.get? c).map Int.toNat
  match year, part .month, part .day with
  | some y, some m, some d => Date.ofParts? y m d
  | _, _, _ =>
    match year, part .ordinal with
    | some y, some n => Date.ofOrdinal? y n
    | _, _ =>
      match year, part .weekFromSunday, part .weekday with
      | some y, some w, some d => Date.ofWeekFrom? y 6 w d
      | _, _, _ =>
        match year, part .weekFromMonday, part .weekday with
        | some y, some w, some d => Date.ofWeekFrom? y 0 w d
        | _, _, _ =>
          match isoYear, part .isoWeek, part .weekday with
          | some y, some w, some d => Date.ofIsoWeek? y w d
          | _, _, _ => none

/-- The date that the components name, if all of them agree with it. -/
def date? (fields : Fields) : Option Date := do
  let year ← resolveYear (fields.get? .year) (fields.get? .century) (fields.get? .yearOfCentury)
  let isoYear ←
    resolveYear (fields.get? .isoYear) (fields.get? .isoCentury) (fields.get? .isoYearOfCentury)
  let d ← fields.named? year isoYear
  if fields.agreesWithParts d && fields.agreesWithOrdinal d && fields.agreesWithIsoWeek d &&
      fields.agrees .quarter d.quarter then
    some d
  else none

end Fields

end RowScope.Calendar
