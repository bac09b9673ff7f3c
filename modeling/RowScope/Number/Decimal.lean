/-!
# Decimal integers

Integers are written with the fewest digits and a `-` before a negative one. A reader also takes a
`+` and leading zeros; it takes digits of ASCII alone and nothing before or after them.
-/

namespace RowScope.Number

/-- The digits of a natural number. -/
def natText (n : Nat) : List Char := Nat.toDigits 10 n

/-- The digits of a natural number, with zeros before them up to `width`. -/
def padded (width n : Nat) : List Char :=
  List.replicate (width - (natText n).length) '0' ++ natText n

/-- The text of an integer. -/
def intText : Int → List Char
  | .ofNat n => natText n
  | .negSucc n => '-' :: natText (n + 1)

/-- The natural number that some digits write. -/
def digitsValue (digits : List Char) : Nat := Nat.ofDigitChars 10 digits 0

/-- Reads one or more digits. -/
def readNat (cs : List Char) : Option Nat :=
  if cs ≠ [] ∧ cs.all Char.isDigit then some (digitsValue cs) else none

/-- Reads an optional sign and one or more digits. -/
def readInt : List Char → Option Int
  | '-' :: cs => (readNat cs).map fun n => -(n : Int)
  | '+' :: cs => (readNat cs).map fun n => (n : Int)
  | cs => (readNat cs).map fun n => (n : Int)

/-- The word that stands for an integer, if it fits into 64 bits with a sign. -/
def int64? (n : Int) : Option Int64 :=
  if Int64.minValue.toInt ≤ n ∧ n ≤ Int64.maxValue.toInt then some (Int64.ofInt n) else none

/-- Reads an integer of 64 bits with a sign. -/
def readInt64 (s : String) : Option Int64 := (readInt s.toList).bind int64?

/-- The text of an integer of 64 bits. -/
def int64Text (n : Int64) : String := String.ofList (intText n.toInt)

end RowScope.Number
