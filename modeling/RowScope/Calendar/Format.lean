import RowScope.Text.Blank

/-!
# Date formats

A format is a text in which a percent sign and a letter stand for a component of a date or of a time
of day. Blanks in the format stand for any blanks or none, and all other characters for themselves.
-/

namespace RowScope.Calendar

/-- A component of a point in time that is written as a number. -/
inductive Numeric where
  | year
  | century
  | yearOfCentury
  | isoYear
  | isoYearOfCentury
  | quarter
  | month
  | day
  | weekFromSunday
  | weekFromMonday
  | isoWeek
  | weekdayFromSunday
  | weekdayFromMonday
  | ordinal
  | hour
  | hourOfHalf
  | minute
  | second
  | nanosecond
  | timestamp
deriving DecidableEq, Repr

/-- A piece of a format. -/
inductive Item where
  /-- A character that stands for itself. -/
  | literal (c : Char)
  /-- Any blanks. -/
  | blanks
  /-- A number. -/
  | number (component : Numeric)
  /-- The name of a month: the first three letters, or the whole name too if `whole`. -/
  | monthName (whole : Bool)
  /-- The name of a day of the week: the first three letters, or the whole name too if `whole`. -/
  | weekdayName (whole : Bool)
  /-- `AM` or `PM`. -/
  | halfDay
  /-- A point and a fraction of a second, or nothing. -/
  | fraction
  /-- A point and so many digits of a fraction of a second, or nothing. -/
  | pointedFraction (digits : Nat)
  /-- So many digits of a fraction of a second. -/
  | bareFraction (digits : Nat)
  /-- The name of a time zone: everything up to the next blank. -/
  | zoneName
  /-- The distance from universal time; `lax` also takes `Z` for none, and hours alone. -/
  | offset (lax : Bool)
  /-- The letter `T`, or a space, between a date and a time. -/
  | timeMark
  /-- The distance from universal time, `Z` or `UTC`. -/
  | offsetOrUtc
  /-- A percent sign that nothing known follows; no text has it. -/
  | unknown
deriving DecidableEq, Repr

/-- The number that a letter stands for. -/
def numericOf? (c : Char) : Option Numeric :=
  match c with
  | 'Y' => some .year
  | 'C' => some .century
  | 'y' => some .yearOfCentury
  | 'G' => some .isoYear
  | 'g' => some .isoYearOfCentury
  | 'q' => some .quarter
  | 'm' => some .month
  | 'd' | 'e' => some .day
  | 'U' => some .weekFromSunday
  | 'W' => some .weekFromMonday
  | 'V' => some .isoWeek
  | 'w' => some .weekdayFromSunday
  | 'u' => some .weekdayFromMonday
  | 'j' => some .ordinal
  | 'H' | 'k' => some .hour
  | 'I' | 'l' => some .hourOfHalf
  | 'M' => some .minute
  | 'S' => some .second
  | 'f' => some .nanosecond
  | 's' => some .timestamp
  | _ => none

/-- The hour, the minute and the second with colons between them. -/
def clockItems : List Item :=
  [.number .hour, .literal ':', .number .minute, .literal ':', .number .second]

/-- The year, the month and the day with hyphens between them. -/
def dashedItems : List Item :=
  [.number .year, .literal '-', .number .month, .literal '-', .number .day]

/-- The month, the day and the year of the century with slashes between them. -/
def slashedItems : List Item :=
  [.number .month, .literal '/', .number .day, .literal '/', .number .yearOfCentury]

/-- The year, the month and the day, with blanks allowed before the hyphens. -/
def spacedDateItems : List Item :=
  [.number .year, .blanks, .literal '-', .number .month, .blanks, .literal '-', .number .day]

/-- The hour, the minute and the second, with blanks allowed before the colons. -/
def spacedClockItems : List Item :=
  [.number .hour, .blanks, .literal ':', .number .minute, .blanks, .literal ':', .number .second]

/-- A date, a time of day and a distance from universal time. -/
def momentItems : List Item :=
  spacedDateItems ++ .timeMark :: spacedClockItems ++ [.fraction, .blanks, .offsetOrUtc]

/-- The pieces that one letter stands for. -/
def itemsOf (c : Char) : List Item :=
  match numericOf? c with
  | some component => [.number component]
  | none =>
    match c with
    | '%' => [.literal '%']
    | 'A' => [.weekdayName true]
    | 'a' => [.weekdayName false]
    | 'B' => [.monthName true]
    | 'b' | 'h' => [.monthName false]
    | 'D' | 'x' => slashedItems
    | 'F' => dashedItems
    | 'v' => [.number .day, .literal '-', .monthName false, .literal '-', .number .year]
    | 'R' => [.number .hour, .literal ':', .number .minute]
    | 'T' | 'X' => clockItems
    | 'r' =>
      [.number .hourOfHalf, .literal ':', .number .minute, .literal ':', .number .second, .blanks,
        .halfDay]
    | 'c' =>
      [.weekdayName false, .blanks, .monthName false, .blanks, .number .day, .blanks] ++
        clockItems ++ [.blanks, .number .year]
    | 'p' | 'P' => [.halfDay]
    | 'Z' => [.zoneName]
    | 'z' => [.offset false]
    | '+' => momentItems
    | 'n' | 't' => [.blanks]
    | _ => [.unknown]

/-- The piece that a letter stands for after a mark for padding, which only numbers may have. -/
def paddedItem (c : Char) : Item :=
  match numericOf? c with
  | some component => .number component
  | none => .unknown

/-- The pieces of a format. -/
def formatItems : List Char → List Item
  | [] => []
  | ['%'] => [.unknown]
  | '%' :: ':' :: ':' :: ':' :: 'z' :: cs => .offset false :: formatItems cs
  | '%' :: ':' :: ':' :: 'z' :: cs => .offset false :: formatItems cs
  | '%' :: ':' :: 'z' :: cs => .offset false :: formatItems cs
  | '%' :: '#' :: 'z' :: cs => .offset true :: formatItems cs
  | '%' :: '.' :: 'f' :: cs => .fraction :: formatItems cs
  | '%' :: '.' :: '3' :: 'f' :: cs => .pointedFraction 3 :: formatItems cs
  | '%' :: '.' :: '6' :: 'f' :: cs => .pointedFraction 6 :: formatItems cs
  | '%' :: '.' :: '9' :: 'f' :: cs => .pointedFraction 9 :: formatItems cs
  | '%' :: '3' :: 'f' :: cs => .bareFraction 3 :: formatItems cs
  | '%' :: '6' :: 'f' :: cs => .bareFraction 6 :: formatItems cs
  | '%' :: '9' :: 'f' :: cs => .bareFraction 9 :: formatItems cs
  | '%' :: '-' :: c :: cs => paddedItem c :: formatItems cs
  | '%' :: '0' :: c :: cs => paddedItem c :: formatItems cs
  | '%' :: '_' :: c :: cs => paddedItem c :: formatItems cs
  | '%' :: c :: cs => itemsOf c ++ formatItems cs
  | c :: cs => (if Text.isBlank c then .blanks else .literal c) :: formatItems cs

/-- The pieces of the common form of a date, with blanks allowed before the hyphens and at the
end. -/
def plainItems : List Item := spacedDateItems ++ [.blanks]

end RowScope.Calendar
