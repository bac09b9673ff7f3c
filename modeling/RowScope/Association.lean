import RowScope.Relation.Path
import RowScope.Filter.Topic
import RowScope.Sql.Predicate

/-!
# Conditions on related rows

A condition on the rows that a path leads to becomes a condition on the rows of its root table, and
no root row is found twice by it. Along a path of single steps the root row is joined with its one
related row. A path that fans out is followed inside a subquery, which finds each qualifying key
once. A root row qualifies in mode `including` if a related row meets the condition, and in mode
`excluding` if none does; a root row without related rows is therefore excluded by the first and
kept by the second.
-/

namespace RowScope

/-- A condition on the rows of a table, and the joins that it reads through. -/
structure Association where
  /-- The condition. -/
  predicate : Predicate
  /-- The joins. Each of them finds at most one row. -/
  extraJoins : List JoinClause
deriving DecidableEq

/-- Some joins and further ones, of which those are left out whose alias is taken. -/
def mergeJoins (joins : List JoinClause) : List JoinClause → List JoinClause
  | [] => joins
  | join :: rest =>
    if joins.any fun j => j.aliasName = join.aliasName then mergeJoins joins rest
    else mergeJoins (joins ++ [join]) rest

/-- The alias of the root table inside a subquery. -/
def subqueryRoot : String := "root"

namespace RelationPath

/-- The key column of the root table outside of subqueries. -/
def outerKey (p : RelationPath) : ColumnRef := ⟨p.root, p.rootKey⟩

/-- The condition that the key of a row is among those that a subquery along the path finds. -/
def keyAmong (p : RelationPath) (kind : JoinKind) (filter : Predicate) (having : Having) :
    Association :=
  let joins := p.joins subqueryRoot kind
  ⟨.inSet p.outerKey ⟨p.root, subqueryRoot, p.rootKey, joins, filter, having⟩, []⟩

/-- The rows with a related row that meets a condition, or the rows without one. -/
def existsAlong (p : RelationPath) (value : Predicate) (mode : Mode) : Association :=
  if p.fansOut then
    match mode with
    | .including => p.keyAmong .inner value .absent
    | .excluding => p.keyAmong .left .always (.noneMatch value)
  else
    match mode with
    | .including => ⟨value, p.joins p.root .left⟩
    | .excluding => ⟨value.negate, p.joins p.root .left⟩

/-- The rows whose number of distinct related rows compares with a number in a given way. -/
def countAlong (p : RelationPath) (op : CompareOp) (n : Int64) : Association :=
  p.keyAmong .left .always (.count p.terminalKey op n)

end RelationPath

/-- The conditions of some associations in one: one of them for `including`, all of them for
`excluding`. -/
def Mode.combine : Mode → List Predicate → Predicate
  | .including => .disj
  | .excluding => .conj

/-- The rows with a related row along one of some paths that meets the condition of that path, or
the rows without one along any path. -/
def existsAlongAny (targets : List (RelationPath × Predicate)) (mode : Mode) : Association :=
  let associations := targets.map fun target => target.1.existsAlong target.2 mode
  ⟨mode.combine (associations.map Association.predicate),
    mergeJoins [] (associations.flatMap Association.extraJoins)⟩

end RowScope
