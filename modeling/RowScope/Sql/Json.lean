import RowScope.Calendar.Reader
import RowScope.Json.Write
import RowScope.Sql.Predicate

/-!
# Predicates in JSON texts

Values, columns, joins, predicates and subqueries have each a form in JSON: records are objects with
their fields in a fixed order, and alternatives are named as `Json.Decode` says. A decoder reads
what the encoder beside it writes.
-/

namespace RowScope

open RowScope.Json

/-! ## Values -/

/-- A value in JSON. -/
def Value.toJson : Value → Json
  | .null => .str "null"
  | .bool b => .tagged "bool" (.bool b)
  | .int n => .tagged "int" (.int64 n)
  | .text s => .tagged "text" (.str s)
  | .date d => .tagged "date" (.str d.text)
  | .textArray items => .tagged "text_array" (.strings items)

/-- Reads a date. -/
def decodeDate : Decoder Calendar.Date := fun depth document => do
  required (Calendar.readPlainDate? (← decodeString depth document))

/-- Reads what `decode` reads, and wraps it. -/
def wrapping {α β : Type} (wrap : α → β) (decode : Decoder α) : Decoder β :=
  fun depth document => (decode depth document).map wrap

/-- Reads a value. -/
def Value.decode : Decoder Value :=
  decodeAlternative
    [.plain "null" .null, .carrying "bool" (wrapping .bool decodeBool),
      .carrying "int" (wrapping .int decodeInt64), .carrying "text" (wrapping .text decodeString),
      .carrying "date" (wrapping .date decodeDate),
      .carrying "text_array" (wrapping .textArray (decodeList decodeString))]

/-! ## Columns and joins -/

/-- A column in JSON. -/
def ColumnRef.toJson (c : ColumnRef) : Json :=
  .obj [("alias", .str c.aliasName), ("column", .str c.column)]

/-- The fields of a column that have been read. -/
structure ColumnParts where
  /-- The alias. -/
  aliasName : Option String := none
  /-- The column. -/
  column : Option String := none

/-- Reads a column. -/
def ColumnRef.decode : Decoder ColumnRef :=
  decodeRecord
    [.slot "alias" ColumnParts.aliasName (fun v s => { s with aliasName := v }) decodeString,
      .slot "column" ColumnParts.column (fun v s => { s with column := v }) decodeString]
    false {} fun s => do return ⟨← required s.aliasName, ← required s.column⟩

/-- The name of a kind of join. -/
def JoinKind.name : JoinKind → String
  | inner => "inner"
  | left => "left"

/-- Reads a kind of join. -/
def JoinKind.decode : Decoder JoinKind :=
  decodeAlternative [.plain "inner" .inner, .plain "left" .left]

/-- A join in JSON. -/
def JoinClause.toJson (j : JoinClause) : Json :=
  .obj [("kind", .str j.kind.name), ("table", .str j.table), ("alias", .str j.aliasName),
    ("on_column", .str j.onColumn), ("other", j.other.toJson)]

/-- The fields of a join that have been read. -/
structure JoinParts where
  /-- The kind. -/
  kind : Option JoinKind := none
  /-- The table. -/
  table : Option String := none
  /-- The alias. -/
  aliasName : Option String := none
  /-- The column of the table. -/
  onColumn : Option String := none
  /-- The column that it equals. -/
  other : Option ColumnRef := none

/-- Reads a join. -/
def JoinClause.decode : Decoder JoinClause :=
  decodeRecord
    [.slot "kind" JoinParts.kind (fun v s => { s with kind := v }) JoinKind.decode,
      .slot "table" JoinParts.table (fun v s => { s with table := v }) decodeString,
      .slot "alias" JoinParts.aliasName (fun v s => { s with aliasName := v }) decodeString,
      .slot "on_column" JoinParts.onColumn (fun v s => { s with onColumn := v }) decodeString,
      .slot "other" JoinParts.other (fun v s => { s with other := v }) ColumnRef.decode]
    false {} fun s => do
      return ⟨← required s.kind, ← required s.table, ← required s.aliasName, ← required s.onColumn,
        ← required s.other⟩

/-! ## Predicates -/

/-- The name of a comparison. -/
def CompareOp.name : CompareOp → String
  | eq => "eq"
  | lt => "lt"
  | le => "le"
  | gt => "gt"
  | ge => "ge"

/-- Reads a comparison. -/
def CompareOp.decode : Decoder CompareOp :=
  decodeAlternative
    [.plain "eq" .eq, .plain "lt" .lt, .plain "le" .le, .plain "gt" .gt, .plain "ge" .ge]

mutual

/-- A predicate in JSON. -/
def Predicate.toJson : Predicate → Json
  | .always => .str "always"
  | .never => .str "never"
  | .equals column value =>
    .tagged "equals" (.obj [("column", column.toJson), ("value", value.toJson)])
  | .oneOf column values =>
    .tagged "one_of"
      (.obj [("column", column.toJson), ("values", .arr (values.map Value.toJson))])
  | .compare column op value =>
    .tagged "compare"
      (.obj [("column", column.toJson), ("op", .str op.name), ("value", value.toJson)])
  | .between column low high =>
    .tagged "between"
      (.obj [("column", column.toJson), ("low", low.toJson), ("high", high.toJson)])
  | .like column pattern =>
    .tagged "like" (.obj [("column", column.toJson), ("pattern", .str pattern)])
  | .overlaps column values =>
    .tagged "overlaps" (.obj [("column", column.toJson), ("values", .strings values)])
  | .sameElements column values =>
    .tagged "same_elements" (.obj [("column", column.toJson), ("values", .strings values)])
  | .isNull column => .tagged "is_null" (.obj [("column", column.toJson)])
  | .all parts => .tagged "all" (.arr (partsToJson parts))
  | .any parts => .tagged "any" (.arr (partsToJson parts))
  | .notTrue part => .tagged "not_true" part.toJson
  | .inSet column subquery =>
    .tagged "in_set" (.obj [("column", column.toJson), ("subquery", subquery.toJson)])

/-- Some predicates in JSON. -/
def partsToJson : List Predicate → List Json
  | [] => []
  | part :: parts => part.toJson :: partsToJson parts

/-- A subquery in JSON. -/
def Subquery.toJson : Subquery → Json
  | ⟨table, aliasName, key, joins, filter, having⟩ =>
    .obj [("table", .str table), ("alias", .str aliasName), ("key", .str key),
      ("joins", .arr (joins.map JoinClause.toJson)), ("filter", filter.toJson),
      ("having", having.toJson)]

/-- A condition on the rows of a key in JSON. -/
def Having.toJson : Having → Json
  | .absent => .null
  | .noneMatch predicate => .tagged "none_match" predicate.toJson
  | .count column op value =>
    .tagged "count"
      (.obj [("column", column.toJson), ("op", .str op.name), ("value", .int64 value)])

end

/-- The fields of a comparison that have been read, its column and one or two operands. -/
structure OperandParts (α β : Type) where
  /-- The column. -/
  column : Option ColumnRef := none
  /-- The first operand. -/
  first : Option α := none
  /-- The second operand. -/
  second : Option β := none

/-- Reads a column and one operand. -/
def decodeOperand {α β : Type} (name : String) (decode : Decoder α) (build : ColumnRef → α → β) :
    Decoder β :=
  decodeRecord
    [.slot "column" (OperandParts.column (α := α) (β := Unit)) (fun v s => { s with column := v })
        ColumnRef.decode,
      .slot name OperandParts.first (fun v s => { s with first := v }) decode]
    false {} fun s => do return build (← required s.column) (← required s.first)

/-- Reads a column and two operands. -/
def decodeOperands {α β γ : Type} (first : String) (decodeFirst : Decoder α) (second : String)
    (decodeSecond : Decoder β) (build : ColumnRef → α → β → γ) : Decoder γ :=
  decodeRecord
    [.slot "column" (OperandParts.column (α := α) (β := β)) (fun v s => { s with column := v })
        ColumnRef.decode,
      .slot first OperandParts.first (fun v s => { s with first := v }) decodeFirst,
      .slot second OperandParts.second (fun v s => { s with second := v }) decodeSecond]
    false {} fun s => do
      return build (← required s.column) (← required s.first) (← required s.second)

/-- Reads a column alone. -/
def decodeColumnAlone {α : Type} (build : ColumnRef → α) : Decoder α :=
  decodeRecord
    [.slot "column" (fun s : Option ColumnRef => s) (fun v _ => some v) ColumnRef.decode]
    false none fun s => do return build (← required s)

/-- Reads a condition on the rows of a key that is not absent, given how predicates inside it are
read. -/
def decodePresentHaving (inner : Decoder Predicate) : Decoder Having :=
  decodeAlternative
    [.carrying "none_match" (wrapping .noneMatch inner),
      .carrying "count"
        (decodeOperands "op" CompareOp.decode "value" decodeInt64 .count)]

/-- Reads a condition on the rows of a key; `null` stands for none, and its first letter for the
beginning of `null`. -/
def decodeHaving (inner : Decoder Predicate) : Decoder Having
  | _, .null => .ok .absent
  | _, .broken (some 'n') fault => .error fault
  | depth, document => decodePresentHaving inner depth document

/-- The fields of a subquery that have been read. -/
structure SubqueryParts where
  /-- The table. -/
  table : Option String := none
  /-- The alias. -/
  aliasName : Option String := none
  /-- The key. -/
  key : Option String := none
  /-- The joins. -/
  joins : Option (List JoinClause) := none
  /-- The condition on joined rows. -/
  filter : Option Predicate := none
  /-- The condition on the rows of a key. -/
  having : Option Having := none

/-- Reads a subquery, given how predicates inside it are read. The condition on the rows of a key
may be missing. -/
def decodeSubquery (inner : Decoder Predicate) : Decoder Subquery :=
  decodeRecord
    [.slot "table" SubqueryParts.table (fun v s => { s with table := v }) decodeString,
      .slot "alias" SubqueryParts.aliasName (fun v s => { s with aliasName := v }) decodeString,
      .slot "key" SubqueryParts.key (fun v s => { s with key := v }) decodeString,
      .slot "joins" SubqueryParts.joins (fun v s => { s with joins := v })
        (decodeList JoinClause.decode),
      .slot "filter" SubqueryParts.filter (fun v s => { s with filter := v }) inner,
      .slot "having" SubqueryParts.having (fun v s => { s with having := v })
        (decodeHaving inner)]
    false {} fun s => do
      return ⟨← required s.table, ← required s.aliasName, ← required s.key, ← required s.joins,
        ← required s.filter, s.having.getD .absent⟩

/-- Reads a predicate, given how predicates inside it are read. -/
def decodePredicateWith (inner : Decoder Predicate) : Decoder Predicate :=
  decodeAlternative
    [.plain "always" .always, .plain "never" .never,
      .carrying "equals" (decodeOperand "value" Value.decode .equals),
      .carrying "one_of" (decodeOperand "values" (decodeList Value.decode) .oneOf),
      .carrying "compare" (decodeOperands "op" CompareOp.decode "value" Value.decode .compare),
      .carrying "between" (decodeOperands "low" Value.decode "high" Value.decode .between),
      .carrying "like" (decodeOperand "pattern" decodeString .like),
      .carrying "overlaps" (decodeOperand "values" (decodeList decodeString) .overlaps),
      .carrying "same_elements" (decodeOperand "values" (decodeList decodeString) .sameElements),
      .carrying "is_null" (decodeColumnAlone .isNull),
      .carrying "all" (wrapping .all (decodeList inner)),
      .carrying "any" (wrapping .any (decodeList inner)),
      .carrying "not_true" (wrapping .notTrue inner),
      .carrying "in_set" (decodeOperand "subquery" (decodeSubquery inner) .inSet)]

/-- Reads a predicate that holds others at most so many levels deep. -/
def decodePredicateWithin : Nat → Decoder Predicate
  | 0 => decodePredicateWith fun _ _ => .error .malformed
  | levels + 1 => decodePredicateWith (decodePredicateWithin levels)

/-- Reads a predicate. A predicate inside another stands inside an object of it, so no more levels
are needed than objects may be opened. -/
def Predicate.decode : Decoder Predicate := fun depth => decodePredicateWithin depth depth

end RowScope
