import RowScope.Number.Binary64
import RowScope.Number.Decimal

/-!
# Shortest decimals

A number of 53 bits is written with the fewest digits that read back to it: of the decimals with
that many digits the one nearest to the number, and of two nearest the one with the even last digit.
-/

namespace RowScope.Number

/-- The decimal `digits * 10 ^ exponent`. -/
structure Scaled where
  /-- The digits as one natural number. -/
  digits : Nat
  /-- The exponent of ten. -/
  exponent : Int
deriving DecidableEq, Repr

namespace Binary64

/-- The greatest `e` with `10 ^ e ≤ num / den`. -/
def decimalOrder (num den : Nat) : Int :=
  let guess := ((natText num).length : Int) - (natText den).length
  if Nat.pow 10 guess.toNat * den ≤ Nat.pow 10 (-guess).toNat * num then guess else guess - 1

/-- The least and the greatest real numbers that round to `x`, as multiples of a quarter of its
last place. -/
def roundingEnds (x : Binary64) : Nat × Nat :=
  let below := if x.significand = Nat.pow 2 52 ∧ x.exponent ≠ leastExponent then 1 else 2
  (4 * x.significand - below, 4 * x.significand + 2)

/-- The grid of decimals with the exponent `e`, against the quarters of the last place of `x`:
`c * 10 ^ e` lies at `c * decimalUnit` where the `a`-th quarter lies at `a * quarterUnit`. -/
def gridUnits (x : Binary64) (e : Int) : Nat × Nat :=
  let q := x.exponent - 2
  (Nat.pow 10 e.toNat * Nat.pow 2 (-q).toNat, Nat.pow 10 (-e).toNat * Nat.pow 2 q.toNat)

/-- Whether `c * 10 ^ e` rounds to `x`. The ends of the interval do if the significand is even. -/
def readsBack (x : Binary64) (e : Int) (c : Nat) : Bool :=
  let units := x.gridUnits e
  let ends := x.roundingEnds
  let place := c * units.1
  let low := ends.1 * units.2
  let high := ends.2 * units.2
  if x.significand % 2 = 0 then low ≤ place && place ≤ high else low < place && place < high

/-- The point of the grid of exponent `e` that is nearest to `x` among the neighbours of `x` that
read back, if one of them does. -/
def nearestOnGrid (x : Binary64) (e : Int) : Option Nat :=
  let units := x.gridUnits e
  let value := 4 * x.significand * units.2
  let below := value / units.1
  match x.readsBack e below, x.readsBack e (below + 1) with
  | false, false => none
  | true, false => some below
  | false, true => some (below + 1)
  | true, true =>
    let twiceRest := 2 * (value % units.1)
    if twiceRest < units.1 ∨ (twiceRest = units.1 ∧ below % 2 = 0) then some below
    else some (below + 1)

/-- The first hit on the grids of `count` digits and more, up to `count + more` digits. -/
def firstHit (x : Binary64) (order : Int) (count : Nat) : Nat → Scaled
  | 0 => ⟨0, 0⟩
  | more + 1 =>
    let e := order + 1 - count
    match x.nearestOnGrid e with
    | some c => ⟨c, e⟩
    | none => firstHit x order (count + 1) more

/-- The shortest decimal of a number that is not zero. Seventeen digits always suffice. -/
def shortest (x : Binary64) : Scaled :=
  x.firstHit (decimalOrder x.ratio.1 x.ratio.2) 1 17

end Binary64

/-- The digits of a scaled decimal without the zeros at their end, and the exponent of the first
digit. -/
def Scaled.positions (d : Scaled) : List Char × Int :=
  let all := natText d.digits
  ((all.reverse.dropWhile (· == '0')).reverse, d.exponent + all.length - 1)

end RowScope.Number
