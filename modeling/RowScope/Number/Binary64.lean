/-!
# Numbers of 53 bits

A `Binary64` is a number `significand * 2 ^ exponent` of the format with 53 bits and exponents from
-1074 to 971, without a sign. `ofRatio` rounds a quotient to the nearest such number, and a quotient
half-way between two of them to the one with the even significand; a quotient that rounds beyond the
greatest finite number has none.
-/

namespace RowScope.Number

/-- A finite number of the format, without its sign: `significand * 2 ^ exponent`. -/
structure Binary64 where
  /-- The significand, below `2 ^ 53`; at least `2 ^ 52` unless the exponent is the least. -/
  significand : Nat
  /-- The exponent of two. -/
  exponent : Int
deriving DecidableEq, Repr

namespace Binary64

/-- The least exponent. -/
def leastExponent : Int := -1074

/-- The greatest exponent. -/
def greatestExponent : Int := 971

/-- The number zero. -/
def zero : Binary64 := ⟨0, leastExponent⟩

/-- The number as a quotient of natural numbers. -/
def ratio (x : Binary64) : Nat × Nat :=
  (x.significand * Nat.pow 2 x.exponent.toNat, Nat.pow 2 (-x.exponent).toNat)

/-- The natural number nearest to `num / den`; of two nearest the even one. -/
def nearest (num den : Nat) : Nat :=
  let floor := num / den
  let twice := 2 * (num % den)
  if twice < den then floor
  else if den < twice then floor + 1
  else if floor % 2 = 0 then floor else floor + 1

/-- The quotient `num / den` divided by `2 ^ e`, again as a quotient. -/
def shift (num den : Nat) (e : Int) : Nat × Nat :=
  (num * Nat.pow 2 (-e).toNat, den * Nat.pow 2 e.toNat)

/-- The number nearest to `num / den`; none if it lies beyond the greatest one. -/
def ofRatio (num den : Nat) : Option Binary64 :=
  if num = 0 then some zero
  else
    -- The integral part of the quotient has this many bits, or one less.
    let bits := (num.log2 : Int) - (den.log2 : Int) + 1
    let low := max leastExponent (bits - 54)
    let scaled := shift num den low
    let exponent := if Nat.pow 2 53 ≤ scaled.1 / scaled.2 then low + 1 else low
    let part := shift num den exponent
    let significand := nearest part.1 part.2
    let rounded : Binary64 :=
      if significand = Nat.pow 2 53 then ⟨Nat.pow 2 52, exponent + 1⟩ else ⟨significand, exponent⟩
    if rounded.exponent ≤ greatestExponent then some rounded else none

/-- The product of two numbers, rounded. -/
def mul (x y : Binary64) : Option Binary64 :=
  ofRatio (x.ratio.1 * y.ratio.1) (x.ratio.2 * y.ratio.2)

/-- The quotient of two numbers, rounded; the divisor is not zero. -/
def div (x y : Binary64) : Option Binary64 :=
  ofRatio (x.ratio.1 * y.ratio.2) (x.ratio.2 * y.ratio.1)

end Binary64

end RowScope.Number
