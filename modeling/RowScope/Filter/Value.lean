import RowScope.Json.Decode

/-!
# Filter values

A filter compares with one text or with a list of texts. A list is a set of choices inside one
comparison and is never split into several filters.
-/

namespace RowScope

open RowScope.Json

/-- What a filter compares with. -/
inductive FilterValue where
  | single (entry : String)
  | many (entries : List String)
deriving DecidableEq, Repr

namespace FilterValue

/-- The texts of a value in their order. -/
def entries : FilterValue → List String
  | single entry => [entry]
  | many entries => entries

/-- Whether the value is the empty text or the empty list. -/
def isEmpty : FilterValue → Bool
  | single entry => entry.isEmpty
  | many entries => entries.isEmpty

/-- The value with one more text at its end. -/
def push (value : FilterValue) (entry : String) : FilterValue := many (value.entries ++ [entry])

/-! ## In JSON texts -/

/-- Why a value is refused that is neither a scalar nor a list. -/
def notScalarOrList : String := "filter value must be a scalar or a list"

/-- Why a list is refused that holds something else than scalars. -/
def notScalarEntries : String := "filter list entries must be scalars"

/-- The text of a scalar: a string is its own text, numbers and truth values are written out. -/
def scalarText? : Document → Option String
  | .bool b => some (if b then "true" else "false")
  | .number leaf => leaf.reading.toOption.map Number.text
  | .text leaf => leaf.reading.toOption
  | .null | .array _ _ | .object _ _ | .broken _ _ => none

/-- The texts of a list of scalars. -/
def scalarTexts (items : List Document) : Except Fault (List String) :=
  items.mapM fun item =>
    match scalarText? item with
    | some text => .ok text
    | none => .error (.refused notScalarEntries)

/-- Reads a scalar or a list of scalars. The value is read as a whole before its kind counts. -/
def decode : Decoder FilterValue := fun depth document => do
  unlessFault (anyFault depth document)
  match document with
  | .array items _ => return many (← scalarTexts items)
  | other =>
    match scalarText? other with
    | some text => return single text
    | none => .error (.refused notScalarOrList)

end FilterValue

end RowScope
