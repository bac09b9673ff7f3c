import RowScope.Sql.Predicate

/-!
# Truth and comparison

A condition on a row is true, false or, where a value is missing, unknown. Unknown is `none` here. A
conjunction is false if one part is, and otherwise unknown if one part is; a disjunction is the same
with true and false exchanged.
-/

namespace RowScope

/-- A truth value, or none if it is unknown. -/
abbrev Truth : Type := Option Bool

namespace Truth

/-- Goes through truth values up to the first that decides. If none does, the result is the other
one, or unknown if one of them is or one before was. -/
def settle (deciding : Bool) (unknown : Bool) : List Truth → Truth
  | [] => if unknown then none else some !deciding
  | some b :: rest => if b = deciding then some deciding else settle deciding unknown rest
  | none :: rest => settle deciding true rest

/-- The conjunction of some truth values. A false one decides. -/
def all (truths : List Truth) : Truth := settle false false truths

/-- The disjunction of some truth values. A true one decides. -/
def any (truths : List Truth) : Truth := settle true false truths

end Truth

/-- How two values of one kind compare. Nothing is known of values of different kinds, nor of
missing ones. -/
def Value.compare? : Value → Value → Option Ordering
  | bool a, bool b => some (Ordered.cmp a b)
  | int a, int b => some (Ordered.cmp a b)
  | text a, text b => some (Ordered.cmp a b)
  | date a, date b => some (Ordered.cmp a b)
  | textArray a, textArray b => some (Ordered.cmp a b)
  | _, _ => none

/-- Whether a comparison holds of values that stand in an order. -/
def CompareOp.holds : CompareOp → Ordering → Bool
  | eq, order => order = .eq
  | lt, order => order = .lt
  | le, order => order ≠ .gt
  | gt, order => order = .gt
  | ge, order => order ≠ .lt

/-- Whether a comparison holds of two values. -/
def CompareOp.truth (op : CompareOp) (a b : Value) : Truth := (a.compare? b).map op.holds

end RowScope
