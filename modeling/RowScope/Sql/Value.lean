import RowScope.Calendar.Date
import RowScope.Text.Quoted

/-!
# Values

A value stands in a column of a row or is bound to a placeholder. Values of all kinds have one
order: by kind first, then by content.
-/

namespace RowScope

open RowScope.Calendar (Date)

/-- A value of a column. -/
inductive Value where
  | null
  | bool (b : Bool)
  | int (n : Int64)
  | text (s : String)
  | date (d : Date)
  | textArray (items : List String)
deriving DecidableEq

namespace Value

/-- Whether the value is absent. -/
def isNull : Value → Bool
  | null => true
  | bool _ | int _ | text _ | date _ | textArray _ => false

/-- The text of a value for people. -/
def display : Value → String
  | null => "NULL"
  | bool b => if b then "true" else "false"
  | int n => Number.int64Text n
  | text s => Text.quoted s
  | date d => d.text
  | textArray items => Text.quotedList items

/-! ## Order -/

/-- The place of the value's kind, and its content among default contents of the other kinds. -/
def orderKey : Value → Nat × Bool × Int64 × String × (Int × Nat × Nat) × List String
  | null => (0, false, 0, "", (0, 0, 0), [])
  | bool b => (1, b, 0, "", (0, 0, 0), [])
  | int n => (2, false, n, "", (0, 0, 0), [])
  | text s => (3, false, 0, s, (0, 0, 0), [])
  | date d => (4, false, 0, "", d.parts, [])
  | textArray items => (5, false, 0, "", (0, 0, 0), items)

/-- A value is determined by its order key. -/
theorem orderKey_injective (a b : Value) (h : a.orderKey = b.orderKey) : a = b := by
  cases a <;> cases b <;> simp_all [orderKey]
  exact Date.parts_injective _ _ h

/-- Values by kind, then by content. -/
instance : Ordered Value := Ordered.via orderKey orderKey_injective

/-- Values in ascending order, equal ones in the order in which they stand. -/
def sort (values : List Value) : List Value :=
  values.mergeSort fun a b => Ordered.cmp a b ≠ .gt

end Value

end RowScope
