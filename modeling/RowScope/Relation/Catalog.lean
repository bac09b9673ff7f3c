import RowScope.OrderedMap
import RowScope.Sql.Predicate

/-!
# The catalog of tables

A catalog knows tables with their columns, and edges: joins from one table to another along a pair
of columns, each with a name of its own among the edges of its table. Only what the catalog knows is
named in the SQL of a scope. A `RelationPath` follows edges from a root table to a terminal table.
-/

namespace RowScope

/-- How many rows of the target an edge leads to. -/
inductive Cardinality where
  /-- At most one, so a join does not multiply rows. -/
  | manyToOne
  /-- Any number. -/
  | oneToMany
deriving DecidableEq, Repr

/-- The name of a cardinality. -/
def Cardinality.name : Cardinality → String
  | manyToOne => "many_to_one"
  | oneToMany => "one_to_many"

/-- The cardinality of a name. -/
def Cardinality.ofName? (name : String) : Option Cardinality :=
  [manyToOne, oneToMany].find? fun cardinality => cardinality.name == name

/-- A table. -/
structure Table where
  /-- The name. -/
  name : String
  /-- The key column. -/
  key : String
  /-- The columns. -/
  columns : List String
deriving DecidableEq, Repr

/-- A join from one table to another, where `fromColumn` equals `toColumn`. -/
structure Edge where
  /-- The table it begins at. -/
  source : String
  /-- The name. -/
  name : String
  /-- The column of the table it begins at. -/
  fromColumn : String
  /-- The table it leads to. -/
  target : String
  /-- The column of the table it leads to. -/
  toColumn : String
  /-- How many rows it leads to. -/
  cardinality : Cardinality
deriving DecidableEq, Repr

/-- What is wrong with a table, an edge or a path. -/
inductive SchemaFault where
  /-- A table does not list its key. -/
  | keyNotListed (table key : String)
  | tableTwice (table : String)
  | unknownTable (table : String)
  /-- An edge joins on a column that its table does not list. -/
  | unknownColumn (source edge table column : String)
  | edgeTwice (source edge : String)
  /-- A path from a root follows a name that is no edge of the table reached. -/
  | undefinedJoin (root table edge : String)
  | longAlias (aliasName : String)
  /-- A column that is read through a path is not listed by its terminal table. -/
  | undefinedColumn (table column root : String)
deriving DecidableEq, Repr

/-- The greatest number of bytes of an alias. -/
def aliasLimit : Nat := 63

/-- The description of a fault. -/
def SchemaFault.message : SchemaFault → String
  | keyNotListed table key => "table " ++ table ++ " does not list its key column " ++ key
  | tableTwice table => "table " ++ table ++ " registered twice"
  | unknownTable table => "unknown table " ++ table
  | unknownColumn source edge table column =>
    "edge " ++ source ++ "." ++ edge ++ " joins on unknown column " ++ table ++ "." ++ column
  | edgeTwice source edge => "edge " ++ source ++ "." ++ edge ++ " registered twice"
  | undefinedJoin root table edge =>
    "path from " ++ root ++ " references undefined join " ++ table ++ "." ++ edge
  | longAlias aliasName =>
    "alias " ++ aliasName ++ " exceeds " ++ String.ofList (Number.natText aliasLimit) ++ " bytes"
  | undefinedColumn table column root =>
    "column " ++ table ++ "." ++ column ++ " read through a path from " ++ root ++
      " is not defined"

/-- Tables and edges, each by its name. -/
structure Catalog where
  /-- The tables by name. -/
  tables : OrderedMap String Table
  /-- The edges by the table they begin at and by name. -/
  edges : OrderedMap (String × String) Edge
deriving DecidableEq

namespace Catalog

/-- The catalog without tables. -/
def empty : Catalog := ⟨.empty, .empty⟩

/-- The table of a name. -/
def table? (c : Catalog) (name : String) : Option Table := c.tables.get? name

/-- The table of a name that must be known. -/
def requireTable (c : Catalog) (name : String) : Except SchemaFault Table :=
  match c.table? name with
  | some table => .ok table
  | none => .error (.unknownTable name)

/-- The catalog with one more table. -/
def addTable (c : Catalog) (table : Table) : Except SchemaFault Catalog :=
  if !table.columns.contains table.key then .error (.keyNotListed table.name table.key)
  else if c.tables.contains table.name then .error (.tableTwice table.name)
  else .ok { c with tables := c.tables.insert table.name table }

/-- The catalog with one more edge. -/
def addEdge (c : Catalog) (edge : Edge) : Except SchemaFault Catalog := do
  let source ← c.requireTable edge.source
  let target ← c.requireTable edge.target
  if !source.columns.contains edge.fromColumn then
    .error (.unknownColumn edge.source edge.name edge.source edge.fromColumn)
  else if !target.columns.contains edge.toColumn then
    .error (.unknownColumn edge.source edge.name edge.target edge.toColumn)
  else if c.edges.contains (edge.source, edge.name) then
    .error (.edgeTwice edge.source edge.name)
  else .ok { c with edges := c.edges.insert (edge.source, edge.name) edge }

/-- The catalog of some tables and some edges. -/
def build (tables : List Table) (edges : List Edge) : Except SchemaFault Catalog := do
  edges.foldlM addEdge (← tables.foldlM addTable empty)

end Catalog

end RowScope
