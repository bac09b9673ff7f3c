import RowScope.Number.Shortest

/-!
# Numbers of JSON texts

A number is an integer if its literal has neither fraction nor exponent, is not `-0` and fits into
64 bits, with or without a sign. Any other literal stands for a number of 53 bits, found in two
steps: the leading digits that fit into 64 bits are rounded to 53 bits, and the result is multiplied
or divided by a power of ten and rounded again. A literal whose number is too great for the format
is refused.
-/

namespace RowScope.Json

open RowScope.Number

/-- A number as a reader of JSON keeps it. -/
inductive Number where
  /-- A natural number below `2 ^ 64`. -/
  | natural (n : Nat)
  /-- The negative integer `-(n + 1)`, not below `-2 ^ 63`. -/
  | negative (n : Nat)
  /-- A number of 53 bits with its sign. -/
  | real (isNegative : Bool) (magnitude : Binary64)
deriving DecidableEq, Repr

/-! ## From literals -/

/-- The greatest natural number that a literal may stand for exactly. -/
def greatestNatural : Nat := Nat.pow 2 64 - 1

/-- The greatest power of ten by which a number is scaled in one step. -/
def greatestPower : Nat := 308

/-- Ten to the power `e`, rounded. -/
def powerOfTen (e : Nat) : Binary64 := (Binary64.ofRatio (Nat.pow 10 e) 1).getD .zero

/-- `x` divided by `10 ^ e`, in steps of the greatest power. -/
def scaleDown (x : Binary64) (e : Nat) : Nat → Binary64
  | 0 => x
  | steps + 1 =>
    if e ≤ greatestPower then (x.div (powerOfTen e)).getD .zero
    else if x.significand = 0 then x
    else scaleDown ((x.div (powerOfTen greatestPower)).getD .zero) (e - greatestPower) steps

/-- `x` multiplied by `10 ^ e`, if the format holds the product. -/
def scaleUp (x : Binary64) (e : Nat) : Option Binary64 :=
  if e ≤ greatestPower then x.mul (powerOfTen e)
  else if x.significand = 0 then some x
  else none

/-- The number `digits * 10 ^ exponent`, rounded to 53 bits before and after it is scaled. After
three steps down nothing but zero is left. -/
def ofScaled (digits : Nat) (exponent : Int) : Option Binary64 :=
  let x := (Binary64.ofRatio digits 1).getD .zero
  if 0 ≤ exponent then scaleUp x exponent.toNat
  else some (scaleDown x (-exponent).toNat 4)

/-- The longest beginning of some digits whose number does not exceed the greatest natural number,
appended to the digits of `value`: its number and the digits left over. -/
def leadingDigits (value : Nat) : List Char → Nat × List Char
  | [] => (value, [])
  | c :: cs =>
    let next := value * 10 + (c.toNat - '0'.toNat)
    if greatestNatural < next then (value, c :: cs) else leadingDigits next cs

/-- The parts of a number literal. -/
structure Literal where
  /-- Whether it begins with a minus sign. -/
  isNegative : Bool
  /-- The digits before the point, without needless zeros at their beginning. -/
  whole : List Char
  /-- The digits after the point, if there is one. -/
  fraction : Option (List Char)
  /-- The exponent: whether it is negative, and its digits. -/
  exponent : Option (Bool × List Char)

/-- The greatest exponent that is taken at its value. -/
def greatestExponent : Nat := Nat.pow 2 31 - 1

/-- The number of a literal that is not an integer of 64 bits. -/
def Literal.real? (l : Literal) : Option Number :=
  let whole := leadingDigits 0 l.whole
  let before : Int := whole.2.length
  let part := leadingDigits whole.1 (l.fraction.getD [])
  let scale := before - ((l.fraction.getD []).length - part.2.length : Nat)
  let magnitude :=
    match l.exponent with
    | none => ofScaled part.1 scale
    | some (isNegative, digits) =>
      let e := digitsValue digits
      if greatestExponent < e then
        if part.1 ≠ 0 ∧ !isNegative then none else some .zero
      else ofScaled part.1 (if isNegative then scale - e else scale + e)
  magnitude.map (.real l.isNegative)

/-- The number of a literal; none if it is too great for 53 bits and the exponents of the format. -/
def Literal.number? (l : Literal) : Option Number :=
  let n := digitsValue l.whole
  if l.fraction.isSome ∨ l.exponent.isSome ∨ greatestNatural < n then l.real?
  else if !l.isNegative then some (.natural n)
  else if n = 0 ∨ Nat.pow 2 63 < n then (Binary64.ofRatio n 1).map (.real true)
  else some (.negative (n - 1))

/-! ## Text -/

/-- The text of a positive number of 53 bits: positional from `10 ^ -5` to below `10 ^ 16`, else
with an exponent and its sign. -/
def realText (x : Binary64) : List Char :=
  if x.significand = 0 then ['0', '.', '0']
  else
    let shown := x.shortest.positions
    let digits := shown.1
    let order := shown.2
    if 0 ≤ order ∧ order < 16 then
      let whole := order.toNat + 1
      let fraction := digits.drop whole
      digits.take whole ++ List.replicate (whole - digits.length) '0' ++
        '.' :: (if fraction.isEmpty then ['0'] else fraction)
    else if -5 ≤ order ∧ order < 0 then
      '0' :: '.' :: List.replicate ((-order).toNat - 1) '0' ++ digits
    else
      let mantissa :=
        match digits with
        | [] => []
        | [d] => [d]
        | d :: rest => d :: '.' :: rest
      let sign := if order < 0 then '-' else '+'
      mantissa ++ 'e' :: sign :: natText order.natAbs

/-- The text of a number. -/
def Number.text : Number → String
  | .natural n => String.ofList (natText n)
  | .negative n => String.ofList ('-' :: natText (n + 1))
  | .real isNegative x => String.ofList ((if isNegative then ['-'] else []) ++ realText x)

/-- The integer that a number is, if it is one of 64 bits with a sign. -/
def Number.int64? : Number → Option Int64
  | .natural n => RowScope.Number.int64? n
  | .negative n => RowScope.Number.int64? (.negSucc n)
  | .real _ _ => none

end RowScope.Json
