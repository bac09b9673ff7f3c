import RowScope.Relation.Catalog

/-!
# Paths

A path follows edges of the catalog from a root table. Each step goes by an alias, the names of the
edges up to it with points between them, so paths that begin alike share the aliases of their common
steps.
-/

namespace RowScope

/-- A step of a path. -/
structure Hop where
  /-- The table it leads to. -/
  table : String
  /-- The key of that table. -/
  key : String
  /-- The alias of that table. -/
  aliasName : String
  /-- The column of that table that is joined. -/
  onColumn : String
  /-- The column of the table before it that is joined. -/
  parentColumn : String
  /-- How many rows it leads to. -/
  cardinality : Cardinality
deriving DecidableEq, Repr

/-- A chain of joins from a root table to a terminal table. -/
structure RelationPath where
  /-- The root table. -/
  root : String
  /-- The key of the root table. -/
  rootKey : String
  /-- The steps. -/
  hops : List Hop
  /-- The columns of the terminal table. -/
  terminalColumns : List String
deriving DecidableEq, Repr

namespace Catalog

/-- The alias of a step, after that of the step before it. -/
def hopAlias : Option String → String → String
  | none, name => name
  | some before, name => before ++ "." ++ name

/-- The steps along some names from a table, after a step of the alias `before`, and the columns of
the table reached. -/
def hopsFrom (c : Catalog) (root : String) :
    Table → Option String → List String → Except SchemaFault (List Hop × List String)
  | current, _, [] => .ok ([], current.columns)
  | current, before, name :: names =>
    match c.edges.get? (current.name, name) with
    | none => .error (.undefinedJoin root current.name name)
    | some edge => do
      let target ← c.requireTable edge.target
      let aliasName := hopAlias before edge.name
      if aliasLimit < aliasName.utf8ByteSize then .error (.longAlias aliasName)
      else
        let (hops, columns) ← c.hopsFrom root target (some aliasName) names
        return (⟨target.name, target.key, aliasName, edge.toColumn, edge.fromColumn,
          edge.cardinality⟩ :: hops, columns)

/-- The path along some names from a root table. -/
def path (c : Catalog) (root : String) (names : List String) : Except SchemaFault RelationPath := do
  let table ← c.requireTable root
  let (hops, columns) ← c.hopsFrom root table none names
  return ⟨table.name, table.key, hops, columns⟩

end Catalog

namespace RelationPath

/-- Whether the path may lead from one row to several. -/
def fansOut (p : RelationPath) : Bool := p.hops.any fun h => h.cardinality = .oneToMany

/-- The terminal table. -/
def terminalTable (p : RelationPath) : String :=
  match p.hops.getLast? with
  | some hop => hop.table
  | none => p.root

/-- The alias of the terminal table; a path without steps ends at its root. -/
def terminalAlias (p : RelationPath) : String :=
  match p.hops.getLast? with
  | some hop => hop.aliasName
  | none => p.root

/-- Whether the terminal table lists a column. -/
def hasTerminalColumn (p : RelationPath) (column : String) : Bool :=
  p.terminalColumns.contains column

/-- The path, if its terminal table lists all of some columns. -/
def require (p : RelationPath) (columns : List String) : Except SchemaFault RelationPath :=
  match columns.find? fun c => !p.hasTerminalColumn c with
  | some missing => .error (.undefinedColumn p.terminalTable missing p.root)
  | none => .ok p

/-- A column of the terminal table. -/
def terminalColumn (p : RelationPath) (column : String) : ColumnRef := ⟨p.terminalAlias, column⟩

/-- The key of the terminal table. -/
def terminalKey (p : RelationPath) : ColumnRef :=
  ⟨p.terminalAlias, match p.hops.getLast? with | some hop => hop.key | none => p.rootKey⟩

/-- The joins of some steps, the first one to the table of the alias `parent`. -/
def joinsFrom (kind : JoinKind) : String → List Hop → List JoinClause
  | _, [] => []
  | parent, hop :: hops =>
    ⟨kind, hop.table, hop.aliasName, hop.onColumn, ⟨parent, hop.parentColumn⟩⟩ ::
      joinsFrom kind hop.aliasName hops

/-- The joins of the path, the first one to the root table under the alias `root`. -/
def joins (p : RelationPath) (root : String) (kind : JoinKind) : List JoinClause :=
  joinsFrom kind root p.hops

end RelationPath

end RowScope
