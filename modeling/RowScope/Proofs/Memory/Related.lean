import RowScope.Proofs.Relation.Path

/-!
# Related rows

The rows that a path leads to from a row of its root table, stated without joins
(`Database.related`): they are the last rows of the chains in which each row is joined to the one
before it by a value (`mem_related_iff`). The joins of the path find just these: inner joins find
one joined row for each of them (`lookup_inner`), left joins find them and perhaps nothing
(`lookup_left`), and left joins with at most one partner each find the one that there is
(`lookup_single`).
-/

namespace RowScope

/-- The alias of the last of some steps, or that of the table that they begin at. -/
def lastAlias (parent : String) : List Hop → String
  | [] => parent
  | hop :: hops => lastAlias hop.aliasName hops

/-- If there are steps, the alias of the table that they begin at does not count. -/
theorem lastAlias_of_ne_nil {hops : List Hop} (h : hops ≠ []) (parent other : String) :
    lastAlias parent hops = lastAlias other hops := by
  cases hops with
  | nil => exact absurd rfl h
  | cons hop hops => rfl

/-- The terminal alias of a path is that of its last step. -/
theorem RelationPath.terminalAlias_eq (p : RelationPath) :
    p.terminalAlias = lastAlias p.root p.hops := by
  have last : ∀ (hops : List Hop) (parent : String),
      lastAlias parent hops = (hops.getLast?.map Hop.aliasName).getD parent := by
    intro hops
    induction hops with
    | nil => exact fun _ => rfl
    | cons hop hops ih =>
      intro parent
      rw [lastAlias, ih]
      cases hops with
      | nil => rfl
      | cons next hops => simp [List.getLast?_cons]
  rw [last, terminalAlias]
  cases p.hops.getLast? <;> rfl

namespace Database

variable {db : Database} {row : JoinedRow} {hops : List Hop} {parent : String}

/-- The rows that a step leads to from a row. -/
def stepRows (db : Database) (hop : Hop) (r : Row) : List Row :=
  let value := r.value hop.parentColumn
  if value.isNull then []
  else (db.rows hop.table).filter fun row => OrderedMap.get? row hop.onColumn = some value

/-- The rows that some steps lead to from a row. -/
def related (db : Database) : List Hop → Row → List Row
  | [], r => [r]
  | hop :: hops, r => (db.stepRows hop r).flatMap (db.related hops)

/-- Rows that some steps lead to one after the other: each is in the table of its step, and its
joined column has the value, not a missing one, that the row before it has in the other. -/
inductive Chain (db : Database) : Row → List Hop → List Row → Prop where
  | nil (r : Row) : Chain db r [] []
  | cons {r next : Row} {hop : Hop} {hops : List Hop} {rows : List Row} :
    next ∈ db.rows hop.table → r.value hop.parentColumn ≠ .null →
    r.value hop.parentColumn = next.value hop.onColumn → Chain db next hops rows →
    Chain db r (hop :: hops) (next :: rows)

/-- A step leads to the rows of its table that have its value. -/
theorem mem_stepRows {hop : Hop} {r next : Row} :
    next ∈ db.stepRows hop r ↔ next ∈ db.rows hop.table ∧ r.value hop.parentColumn ≠ .null ∧
      r.value hop.parentColumn = next.value hop.onColumn := by
  unfold stepRows
  by_cases hnull : r.value hop.parentColumn = .null
  · simp [hnull, Value.isNull]
  · have hpresent : (r.value hop.parentColumn).isNull = false :=
      Bool.eq_false_iff.2 fun h => hnull (Value.isNull_iff.1 h)
    -- A value that is not missing is read exactly where it stands.
    have hread : OrderedMap.get? next hop.onColumn = some (r.value hop.parentColumn) ↔
        r.value hop.parentColumn = next.value hop.onColumn := by
      rw [Row.value.eq_1 next]
      cases OrderedMap.get? next hop.onColumn with
      | none => simpa using hnull
      | some found => simp [eq_comm]
    simp [hpresent, hnull, hread]

/-- Some steps lead to the last rows of the chains along them, without steps to the row itself. -/
theorem mem_related_iff {r last : Row} :
    last ∈ db.related hops r ↔ ∃ rows, db.Chain r hops rows ∧ rows.getLastD r = last := by
  induction hops generalizing r with
  | nil =>
    rw [related, List.mem_singleton]
    constructor
    · rintro rfl
      exact ⟨[], .nil last, rfl⟩
    · rintro ⟨rows, hchain, rfl⟩
      cases hchain
      rfl
  | cons hop hops ih =>
    rw [related, List.mem_flatMap]
    constructor
    · rintro ⟨next, hnext, hlast⟩
      obtain ⟨hmem, hnull, hvalue⟩ := mem_stepRows.1 hnext
      obtain ⟨rows, hchain, rfl⟩ := ih.1 hlast
      exact ⟨next :: rows, .cons hmem hnull hvalue hchain, List.getLastD_cons ..⟩
    · rintro ⟨rows, hchain, rfl⟩
      cases hchain with
      | @cons _ next _ _ rows hmem hnull hvalue hchain =>
        refine ⟨next, mem_stepRows.2 ⟨hmem, hnull, hvalue⟩, ih.2 ⟨rows, hchain, ?_⟩⟩
        exact (List.getLastD_cons ..).symm

/-- Some steps lead nowhere from a row if there is no chain along them. -/
theorem related_eq_nil_iff {r : Row} : db.related hops r = [] ↔ ¬ ∃ rows, db.Chain r hops rows := by
  rw [List.eq_nil_iff_forall_not_mem]
  constructor
  · rintro h ⟨rows, hchain⟩
    exact h _ (mem_related_iff.2 ⟨rows, hchain, rfl⟩)
  · intro h last hlast
    obtain ⟨rows, hchain, -⟩ := mem_related_iff.1 hlast
    exact h ⟨rows, hchain⟩

/-- The partners of a joined row that a step finds from its part `x` for the alias before. -/
theorem partners_eq {hop : Hop} {kind : JoinKind} {x : Option Row}
    (h : row.lookup parent = some x) :
    db.partners ⟨kind, hop.table, hop.aliasName, hop.onColumn, ⟨parent, hop.parentColumn⟩⟩
      (row.read ⟨parent, hop.parentColumn⟩) = x.toList.flatMap (db.stepRows hop) := by
  rw [JoinedRow.read, h]
  cases x with
  | none => rfl
  | some r => exact (List.flatMap_singleton (db.stepRows hop) r).symm

/-- Inner joins along some steps find one joined row for each related row. -/
theorem lookup_inner (db : Database) (hops : List Hop) {r : Row}
    (h : row.lookup parent = some (some r)) :
    (db.joinedTo (RelationPath.joinsFrom .inner parent hops) [row]).map
      (fun next => next.lookup (lastAlias parent hops)) =
        (db.related hops r).map fun last => some (some last) := by
  induction hops generalizing parent row r with
  | nil => exact congrArg (fun x => [x]) h
  | cons hop hops ih =>
    rw [RelationPath.joinsFrom, joinedTo_cons, extended_inner rfl, partners_eq h, related,
      List.flatMap_map, List.map_flatMap, List.map_flatMap]
    rw [Option.toList, List.flatMap_singleton]
    congr 1
    funext partner
    exact ih List.lookup_cons_self

/-- Left joins along some steps find the related rows. -/
theorem lookup_left (db : Database) (hops : List Hop) {x : Option Row}
    (h : row.lookup parent = some x) (last : Row) :
    (∃ next ∈ db.joinedTo (RelationPath.joinsFrom .left parent hops) [row],
      next.lookup (lastAlias parent hops) = some (some last)) ↔
        ∃ r ∈ x, last ∈ db.related hops r := by
  -- The part for the alias before may be missing, and a missing part leads to no row.
  induction hops generalizing parent row x with
  | nil =>
    rw [RelationPath.joinsFrom, joinedTo]
    simp [lastAlias, h, related, eq_comm]
  | cons hop hops ih =>
    rw [RelationPath.joinsFrom, joinedTo_cons, extended_left rfl, partners_eq h, List.flatMap_map]
    constructor
    · rintro ⟨next, hnext, hlast⟩
      obtain ⟨part, hpart, hnext⟩ := List.mem_flatMap.1 hnext
      obtain ⟨partner, rfl, hrel⟩ := (ih List.lookup_cons_self).1 ⟨next, hnext, hlast⟩
      obtain ⟨r, hr, hstep⟩ := List.mem_flatMap.1 (some_mem_leftParts.1 hpart)
      exact ⟨r, Option.mem_toList.1 hr, List.mem_flatMap.2 ⟨partner, hstep, hrel⟩⟩
    · rintro ⟨r, hr, hrel⟩
      obtain ⟨partner, hstep, hrel⟩ := List.mem_flatMap.1 hrel
      have hself : List.lookup hop.aliasName ((hop.aliasName, some partner) :: row) =
        some (some partner) := List.lookup_cons_self
      obtain ⟨next, hnext, hlast⟩ := (ih hself).2 ⟨partner, rfl, hrel⟩
      refine ⟨next, List.mem_flatMap.2 ⟨some partner, ?_, hnext⟩, hlast⟩
      exact some_mem_leftParts.2 (List.mem_flatMap.2 ⟨r, Option.mem_toList.2 hr, hstep⟩)

/-- Where every step leads to at most one row, a joined row that satisfies the equations of the left
joins has the related row at their end, or none if there is none. -/
theorem lookup_single {x : Option Row} (h : row.lookup parent = some x)
    (hone : ∀ j ∈ RelationPath.joinsFrom .left parent hops, db.AtMostOne j)
    (hrow : ∀ j ∈ RelationPath.joinsFrom .left parent hops,
      row.lookup j.aliasName = some (db.partners j (row.read j.other)).head?) :
    ∃ y, row.lookup (lastAlias parent hops) = some y ∧
      y.toList = x.toList.flatMap (db.related hops) := by
  induction hops generalizing parent x with
  | nil =>
    refine ⟨x, h, ?_⟩
    cases x <;> rfl
  | cons hop hops ih =>
    obtain ⟨hhere, hone⟩ := List.forall_mem_cons.1 hone
    obtain ⟨hstep, hrow⟩ := List.forall_mem_cons.1 hrow
    obtain ⟨y, hy, hlist⟩ := ih hstep hone hrow
    refine ⟨y, hy, hlist.trans ?_⟩
    have hlen := hhere (row.read ⟨parent, hop.parentColumn⟩)
    rw [partners_eq h] at hlen ⊢
    -- At most one partner is all of the partners.
    have all : (x.toList.flatMap (db.stepRows hop)).head?.toList =
        x.toList.flatMap (db.stepRows hop) := by
      match x.toList.flatMap (db.stepRows hop), hlen with
      | [], _ => rfl
      | [partner], _ => rfl
    rw [all, List.flatMap_assoc]
    rfl

end Database

end RowScope
