import RowScope.Calendar.Fields
import RowScope.Calendar.Format

/-!
# Reading dates

A text is a date in a format if the pieces of the format, one after the other, take all of its
characters and the components found name a date. Blanks before a number do not count.
-/

namespace RowScope.Calendar

/-- What a piece of a format leaves: the components found so far and the characters that follow. -/
abbrev Step : Type := Option (Fields × List Char)

/-- The greatest integer that digits may write. -/
def greatestInteger : Nat := Nat.pow 2 63 - 1

/-- Takes one digit at least and at most `width` of them, if there is a limit. -/
def takeNumber (width : Option Nat) (cs : List Char) : Option (Nat × List Char) :=
  let run := cs.takeWhile Char.isDigit
  let digits := match width with | none => run | some n => run.take n
  let value := Number.digitsValue digits
  if digits.isEmpty ∨ greatestInteger < value then none else some (value, cs.drop digits.length)

/-- Takes a number; only a number that may be signed may have a sign, which lifts the limit on its
digits. -/
def takeSigned (signed : Bool) (width : Option Nat) (cs : List Char) : Option (Int × List Char) :=
  match signed, Text.dropBlank cs with
  | true, '-' :: cs => (takeNumber none cs).map fun found => (-(found.1 : Int), found.2)
  | true, '+' :: cs => (takeNumber none cs).map fun found => ((found.1 : Int), found.2)
  | _, cs => (takeNumber width cs).map fun found => ((found.1 : Int), found.2)

namespace Numeric

/-- The greatest number of digits without a sign. -/
def width : Numeric → Option Nat
  | .year | .isoYear => some 4
  | .quarter | .weekdayFromSunday | .weekdayFromMonday => some 1
  | .ordinal => some 3
  | .nanosecond => some 9
  | .timestamp => none
  | .century | .yearOfCentury | .isoYearOfCentury | .month | .day | .weekFromSunday
  | .weekFromMonday | .isoWeek | .hour | .hourOfHalf | .minute | .second => some 2

/-- Whether a sign may stand before the number: only years have one. -/
def signed : Numeric → Bool
  | .year | .isoYear => true
  | _ => false

/-- Adds the components that the number gives. -/
def addTo (component : Numeric) (fields : Fields) (n : Int) : Option Fields :=
  match component with
  | .year => fields.addWithin .year Fields.leastYear Fields.greatestYear n
  | .isoYear => fields.addWithin .isoYear Fields.leastYear Fields.greatestYear n
  | .century => fields.add .century n
  | .yearOfCentury => fields.add .yearOfCentury n
  | .isoYearOfCentury => fields.add .isoYearOfCentury n
  | .quarter => fields.addWithin .quarter 1 4 n
  | .month => fields.addWithin .month 1 12 n
  | .day => fields.addWithin .day 1 31 n
  | .weekFromSunday => fields.addWithin .weekFromSunday 0 53 n
  | .weekFromMonday => fields.addWithin .weekFromMonday 0 53 n
  | .isoWeek => fields.addWithin .isoWeek 1 53 n
  | .weekdayFromSunday => if n ≤ 6 then fields.add .weekday ((n + 6) % 7) else none
  | .weekdayFromMonday => if 1 ≤ n ∧ n ≤ 7 then fields.add .weekday (n - 1) else none
  | .ordinal => fields.addWithin .ordinal 1 366 n
  | .hour =>
    if n ≤ 23 then (fields.add .halfDay (n / 12)).bind fun fields => fields.add .hourOfHalf (n % 12)
    else none
  | .hourOfHalf => if 1 ≤ n ∧ n ≤ 12 then fields.add .hourOfHalf (n % 12) else none
  | .minute => fields.addWithin .minute 0 59 n
  | .second => fields.addWithin .second 0 60 n
  | .nanosecond => fields.add .nanosecond n
  | .timestamp => fields.add .timestamp n

end Numeric

/-! ## Names -/

/-- The first three letters of the months, in lower case, and the letters that may follow them. -/
def monthNames : List (List Char × List Char) :=
  [(['j', 'a', 'n'], ['u', 'a', 'r', 'y']), (['f', 'e', 'b'], ['r', 'u', 'a', 'r', 'y']),
    (['m', 'a', 'r'], ['c', 'h']), (['a', 'p', 'r'], ['i', 'l']), (['m', 'a', 'y'], []),
    (['j', 'u', 'n'], ['e']), (['j', 'u', 'l'], ['y']), (['a', 'u', 'g'], ['u', 's', 't']),
    (['s', 'e', 'p'], ['t', 'e', 'm', 'b', 'e', 'r']), (['o', 'c', 't'], ['o', 'b', 'e', 'r']),
    (['n', 'o', 'v'], ['e', 'm', 'b', 'e', 'r']), (['d', 'e', 'c'], ['e', 'm', 'b', 'e', 'r'])]

/-- The first three letters of the days of the week, in lower case, and the letters that may follow
them. -/
def weekdayNames : List (List Char × List Char) :=
  [(['m', 'o', 'n'], ['d', 'a', 'y']), (['t', 'u', 'e'], ['s', 'd', 'a', 'y']),
    (['w', 'e', 'd'], ['n', 'e', 's', 'd', 'a', 'y']), (['t', 'h', 'u'], ['r', 's', 'd', 'a', 'y']),
    (['f', 'r', 'i'], ['d', 'a', 'y']), (['s', 'a', 't'], ['u', 'r', 'd', 'a', 'y']),
    (['s', 'u', 'n'], ['d', 'a', 'y'])]

/-- Takes a word, in letters of either case. -/
def takeWord (word cs : List Char) : Option (List Char) :=
  if (cs.take word.length).map Char.toLower = word then some (cs.drop word.length) else none

/-- Takes one of some names and answers with its place among them. -/
def takeName (whole : Bool) (names : List (List Char × List Char)) (cs : List Char) :
    Option (Nat × List Char) := do
  let place ← names.findIdx? fun name => (takeWord name.1 cs).isSome
  let name ← names[place]?
  let rest ← takeWord name.1 cs
  return (place, if whole then (takeWord name.2 rest).getD rest else rest)

/-! ## Fractions and zones -/

/-- Takes exactly so many digits of a fraction of a second, in nanoseconds. -/
def takeFraction (digits : Nat) (fields : Fields) (cs : List Char) : Step := do
  if (cs.take digits).length = digits ∧ (cs.take digits).all Char.isDigit then
    let value := Number.digitsValue (cs.take digits) * Nat.pow 10 (9 - digits)
    return (← fields.add .nanosecond value, cs.drop digits)
  else none

/-- Takes the digits of a fraction of a second, those after the ninth without regard to them. -/
def takeAnyFraction (fields : Fields) (cs : List Char) : Step := do
  let digits := (cs.takeWhile Char.isDigit).take 9
  if digits.isEmpty then none
  else
    let value := Number.digitsValue digits * Nat.pow 10 (9 - digits.length)
    return (← fields.add .nanosecond value, cs.dropWhile Char.isDigit)

/-- Takes the minutes of a distance from universal time; `lax` lets them be missing at the end of
the text. -/
def takeOffsetMinutes (lax : Bool) (cs : List Char) : Option (Int × List Char) :=
  match cs with
  | a :: b :: rest =>
    if '0' ≤ a ∧ a ≤ '5' ∧ b.isDigit then some (Number.digitsValue [a, b], rest) else none
  | [] => if lax then some (0, []) else none
  | [_] => none

/-- Takes a distance from universal time: a sign, two digits of hours and two of minutes, with
blanks and colons between them. -/
def takeOffset (lax : Bool) (fields : Fields) (cs : List Char) : Step := do
  let (sign, cs) ←
    match cs with
    | '+' :: cs => some ((1 : Int), cs)
    | '-' :: cs => some (-1, cs)
    | '\u2212' :: cs => some (-1, cs)
    | _ => none
  let hours := cs.take 2
  if hours.length = 2 ∧ hours.all Char.isDigit then
    let between := (cs.drop 2).dropWhile fun c => c == ':' || Text.isBlank c
    let (minutes, rest) ← takeOffsetMinutes lax between
    return (← fields.add .offset (sign * (Number.digitsValue hours * 3600 + minutes * 60)), rest)
  else none

/-- Takes a distance from universal time, or `Z` for none. -/
def takeOffsetOrZulu (lax : Bool) (fields : Fields) (cs : List Char) : Step := do
  match takeWord ['z'] cs with
  | some rest => return (← fields.add .offset 0, rest)
  | none => takeOffset lax fields cs

/-! ## Pieces and texts -/

/-- Takes what a piece of a format stands for. -/
def Item.take (item : Item) (fields : Fields) (cs : List Char) : Step :=
  match item with
  | .literal c =>
    match cs with
    | [] => none
    | d :: rest => if c = d then some (fields, rest) else none
  | .blanks => some (fields, Text.dropBlank cs)
  | .number component => do
    let (n, rest) ← takeSigned component.signed component.width cs
    return (← component.addTo fields n, rest)
  | .monthName whole => do
    let (place, rest) ← takeName whole monthNames cs
    return (← fields.add .month (place + 1), rest)
  | .weekdayName whole => do
    let (place, rest) ← takeName whole weekdayNames cs
    return (← fields.add .weekday place, rest)
  | .halfDay =>
    match takeWord ['a', 'm'] cs, takeWord ['p', 'm'] cs with
    | some rest, _ => do return (← fields.add .halfDay 0, rest)
    | none, some rest => do return (← fields.add .halfDay 1, rest)
    | none, none => none
  | .fraction =>
    match cs with
    | '.' :: rest => takeAnyFraction fields rest
    | _ => some (fields, cs)
  | .pointedFraction digits =>
    match cs with
    | '.' :: rest => takeFraction digits fields rest
    | _ => some (fields, cs)
  | .bareFraction digits => takeFraction digits fields cs
  | .zoneName => some (fields, cs.dropWhile fun c => !Text.isBlank c)
  | .offset lax =>
    if lax then takeOffsetOrZulu true fields (Text.dropBlank cs)
    else takeOffset false fields (Text.dropBlank cs)
  | .timeMark =>
    match cs with
    | c :: rest => if c = 'T' ∨ c = 't' ∨ c = ' ' then some (fields, rest) else none
    | [] => none
  | .offsetOrUtc => do
    match takeWord ['u', 't', 'c'] cs with
    | some rest => return (← fields.add .offset 0, rest)
    | none => takeOffsetOrZulu false fields cs
  | .unknown => none

/-- Takes what the pieces of a format stand for, one after the other. -/
def takeItems : List Item → Fields → List Char → Step
  | [], fields, cs => some (fields, cs)
  | item :: items, fields, cs => do
    let (fields, cs) ← item.take fields cs
    takeItems items fields cs

/-- The date that a text names by the pieces of a format, which take all of it. -/
def readItems? (items : List Item) (cs : List Char) : Option Date := do
  let (fields, rest) ← takeItems items [] cs
  if rest.isEmpty then fields.date? else none

/-- The date that a text names in a format. -/
def readDate? (format text : String) : Option Date :=
  readItems? (formatItems format.toList) text.toList

/-- The date that a text names in the common form of dates. -/
def readPlainDate? (text : String) : Option Date := readItems? plainItems text.toList

end RowScope.Calendar
