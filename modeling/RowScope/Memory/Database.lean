import RowScope.Memory.Pattern
import RowScope.Memory.Truth
import RowScope.Scope

/-!
# Databases in memory

A database holds the rows of its tables, and `Database.select` executes a scope on them as a
database server executes its text: joins pair every row with all of its partners, conditions have
three truth values, and a subquery finds the keys whose rows meet its conditions.
-/

namespace RowScope

/-- A row of a table: its values by column. A column that it lacks has the value `null`. -/
abbrev Row : Type := OrderedMap String Value

/-- The value of a column of a row. -/
def Row.value (row : Row) (column : String) : Value := (OrderedMap.get? row column).getD .null

/-- The rows that a joined row consists of, by alias, the one joined last in front; none where a
left join found no partner. -/
abbrev JoinedRow : Type := List (String × Option Row)

/-- Why a scope cannot be executed. -/
inductive ExecutionFault where
  /-- A column names an alias that no table goes by. -/
  | unboundAlias (aliasName : String)
  /-- The id of a row is not an integer. -/
  | idNotInteger (table : String) (id : Value)
deriving DecidableEq

/-- The description of a fault. -/
def ExecutionFault.message : ExecutionFault → String
  | unboundAlias aliasName => "predicate references unbound alias " ++ aliasName
  | idNotInteger table id => table ++ " row has non-integer id " ++ id.display

/-- The value of a column of a joined row. -/
def JoinedRow.value (row : JoinedRow) (column : ColumnRef) : Except ExecutionFault Value :=
  match row.lookup column.aliasName with
  | some (some part) => .ok (Row.value part column.column)
  | some none => .ok .null
  | none => .error (.unboundAlias column.aliasName)

/-- The rows of some tables. -/
structure Database where
  /-- The rows by table, each list in the order of insertion. -/
  tables : OrderedMap String (List Row)

namespace Database

/-- The database without rows. -/
def empty : Database := ⟨.empty⟩

/-- The rows of a table. -/
def rows (db : Database) (table : String) : List Row := (db.tables.get? table).getD []

/-- The database with one more row in a table. -/
def insert (db : Database) (table : String) (row : Row) : Database :=
  ⟨db.tables.insert table (db.rows table ++ [row])⟩

/-! ## Joins -/

/-- The rows of a join's table that have a value in its column; none for a missing value. -/
def partners (db : Database) (join : JoinClause) (value : Value) : List Row :=
  if value.isNull then []
  else (db.rows join.table).filter fun row => OrderedMap.get? row join.onColumn = some value

/-- A joined row with each of its partners. -/
def extend (db : Database) (join : JoinClause) (row : JoinedRow) :
    Except ExecutionFault (List JoinedRow) := do
  match db.partners join (← row.value join.other), join.kind with
  | [], .inner => return []
  | [], .left => return [(join.aliasName, none) :: row]
  | found, _ => return found.map fun partner => (join.aliasName, some partner) :: row

/-- Some joined rows with the partners that some joins find, one join after the other. -/
def joinAll (db : Database) : List JoinClause → List JoinedRow →
    Except ExecutionFault (List JoinedRow)
  | [], rows => .ok rows
  | join :: joins, rows => do db.joinAll joins (← rows.mapM (db.extend join)).flatten

/-- The rows of a table under an alias with the partners that some joins find. -/
def joined (db : Database) (table aliasName : String) (joins : List JoinClause) :
    Except ExecutionFault (List JoinedRow) :=
  db.joinAll joins ((db.rows table).map fun row => [(aliasName, some row)])

/-- Some joined rows by the value of a column, those of one value in their order. -/
def groupBy (column : ColumnRef) :
    List JoinedRow → Except ExecutionFault (OrderedMap Value (List JoinedRow))
  | rows => rows.foldlM (fun groups row => do
      return groups.alter (← row.value column) fun members => members.getD [] ++ [row]) .empty

/-- The number of distinct values of a column, missing ones aside. -/
def countDistinct (column : ColumnRef) (rows : List JoinedRow) : Except ExecutionFault Nat := do
  let values ← rows.mapM fun row => row.value column
  return (OrderedSet.ofList (values.filter fun v => !v.isNull)).size

/-! ## Conditions -/

/-- Whether a text matches a pattern; unknown of other values. -/
def likeTruth (pattern : String) : Value → Truth
  | .text s => some (matchesPattern s pattern)
  | _ => none

/-- Whether an array shares an element with some texts; unknown of other values. -/
def overlapTruth (texts : List String) : Value → Truth
  | .textArray items => some (items.any texts.contains)
  | _ => none

/-- Whether an array consists of some texts, in any order and number; unknown of other values. -/
def sameElementsTruth (texts : List String) : Value → Truth
  | .textArray items => some (items.all texts.contains && texts.all items.contains)
  | _ => none

mutual

/-- The truth of a predicate for a joined row. All parts of a conjunction or disjunction are looked
at, also when one of them decides. -/
def truth (db : Database) (row : JoinedRow) : Predicate → Except ExecutionFault Truth
  | .always => .ok (some true)
  | .never => .ok (some false)
  | .equals column value => do return CompareOp.eq.truth (← row.value column) value
  | .oneOf column values => do
    let v ← row.value column
    return Truth.any (values.map fun value => CompareOp.eq.truth v value)
  | .compare column op value => do return op.truth (← row.value column) value
  | .between column low high => do
    let v ← row.value column
    return Truth.all [CompareOp.ge.truth v low, CompareOp.le.truth v high]
  | .like column pattern => do return likeTruth pattern (← row.value column)
  | .overlaps column values => do return overlapTruth values (← row.value column)
  | .sameElements column values => do return sameElementsTruth values (← row.value column)
  | .isNull column => do return some (← row.value column).isNull
  | .all parts => do return Truth.all (← db.truths row parts)
  | .any parts => do return Truth.any (← db.truths row parts)
  | .notTrue part => do return some ((← db.truth row part) ≠ some true)
  | .inSet column subquery => do
    let v ← row.value column
    if v.isNull then return none
    else return some ((← db.keys subquery).contains v)

/-- The truth of each of some predicates for a joined row. -/
def truths (db : Database) (row : JoinedRow) : List Predicate → Except ExecutionFault (List Truth)
  | [] => .ok []
  | part :: parts => do
    let here ← db.truth row part
    return here :: (← db.truths row parts)

/-- The keys that a subquery finds, in order. -/
def keys (db : Database) : Subquery → Except ExecutionFault (List Value)
  | ⟨table, aliasName, key, joins, filter, having⟩ => do
    let rows ← db.joined table aliasName joins
    let kept ← rows.filterM fun row => do return (← db.truth row filter) = some true
    let groups ← groupBy ⟨aliasName, key⟩ kept
    let found ← groups.entries.filterM fun group => db.holds group.2 having
    return (found.map Prod.fst).filter fun k => !k.isNull

/-- Whether the rows of one key meet a condition. Rows are looked at until one decides. -/
def holds (db : Database) (rows : List JoinedRow) : Having → Except ExecutionFault Bool
  | .absent => .ok true
  | .noneMatch predicate => do
    return !(← rows.anyM fun row => do return (← db.truth row predicate) = some true)
  | .count column op value => do
    return op.holds (Ordered.cmp (Int.ofNat (← countDistinct column rows)) value.toInt)

end

/-! ## Selection -/

/-- The id of the root row of a joined row. -/
def rowId (root : String) (row : JoinedRow) : Except ExecutionFault Int64 := do
  match ← row.value ⟨root, "id"⟩ with
  | .int id => return id
  | other => .error (.idNotInteger root other)

/-- The ids of the root rows of a domain that a scope selects, one for each joined row that meets
its condition. -/
def select (db : Database) (domain : Domain) (scope : Scope) :
    Except ExecutionFault (List Int64) := do
  let root := domain.rootTable
  let rows ← db.joined root root scope.extraJoins
  let ids ← rows.mapM fun row => do
    if (← db.truth row scope.predicate) = some true then
      return some (← rowId root row)
    else return none
  return ids.filterMap id

end Database

end RowScope
