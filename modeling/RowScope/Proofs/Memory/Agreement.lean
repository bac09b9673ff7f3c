import RowScope.Proofs.Memory.Subquery

/-!
# Databases that agree on some tables

What a query reads of a database are the rows of the tables that it names. Joins to tables with the
same rows give the same joined rows (`joinedTo_congr`), a predicate without subqueries does not read
the database at all (`truth_of_flat`), and the test for the keys of a subquery depends on the keys
that the subquery finds (`truth_inSet_congr`).
-/

namespace RowScope.Database

variable {db other : Database} {row : JoinedRow}

/-- A join to a table with the same rows gives the same joined rows. -/
theorem extended_congr {join : JoinClause} (h : db.rows join.table = other.rows join.table) :
    db.extended join = other.extended join := by
  funext row
  unfold extended partners
  rw [h]

/-- Joins to tables with the same rows give the same joined rows. -/
theorem joinedTo_congr {joins : List JoinClause}
    (h : ∀ j ∈ joins, db.rows j.table = other.rows j.table) (rows : List JoinedRow) :
    db.joinedTo joins rows = other.joinedTo joins rows := by
  induction joins generalizing rows with
  | nil => rfl
  | cons join joins ih =>
    obtain ⟨hfirst, hrest⟩ := List.forall_mem_cons.1 h
    rw [joinedTo, joinedTo, extended_congr hfirst, ih hrest]

/-- The truth of an atom without a subquery does not depend on the database. -/
theorem truth_of_flat_atom {a : Predicate} (ha : a.atoms = [a]) (hs : a.subquery? = none) :
    db.truth row a = other.truth row a := by
  obtain ⟨-, c, hc⟩ := Predicate.atom_of_mem (ha ▸ List.mem_singleton_self a)
  cases a with
  | equals | oneOf | compare | between | like | overlaps | sameElements | isNull => rfl
  | always | never | all | any | notTrue => cases hc
  | inSet => cases hs

/-- The truth of a predicate without subqueries does not depend on the database. -/
theorem truth_of_flat (db other : Database) {p : Predicate} (h : p.subqueries = []) :
    db.truth row p = other.truth row p := by
  apply truth_congr_atoms
  intro a ha
  exact truth_of_flat_atom (Predicate.atom_of_mem ha).1 (Predicate.subquery?_of_flat h ha)

/-- Whether rows meet a predicate without subqueries does not depend on the database. -/
theorem meets_of_flat (db other : Database) {p : Predicate} (h : p.subqueries = []) :
    db.Meets row p ↔ other.Meets row p := by
  unfold Meets
  rw [truth_of_flat db other h]

/-- Whether rows meet a condition without subqueries on groups does not depend on the database. -/
theorem holds_of_flat (db other : Database) {having : Having} {rows : List JoinedRow}
    (h : having.subqueries = []) :
    db.holds rows having = other.holds rows having := by
  cases having with
  | absent => rfl
  | noneMatch p =>
    have htruth : ∀ row, db.truth row p = other.truth row p := fun _ => truth_of_flat db other h
    show (do return !(← rows.anyM fun row => do return (← db.truth row p) = some true)) = _
    simp only [htruth]
    rfl
  | count => rfl

/-- The test for the keys of a subquery has the same truth where the subquery finds the same
keys. -/
theorem truth_inSet_congr {c : ColumnRef} {s : Subquery} {ks others : List Value}
    (hks : db.keys s = .ok ks) (hothers : other.keys s = .ok others)
    (hsame : ∀ k, k ∈ ks ↔ k ∈ others) :
    db.truth row (.inSet c s) = other.truth row (.inSet c s) := by
  have hcontains : ∀ k, ks.contains k = others.contains k := by
    intro k
    rw [Bool.eq_iff_iff, List.contains_iff_mem, List.contains_iff_mem]
    exact hsame k
  rw [truth_inSet, truth_inSet, hks, hothers]
  simp only [bind, Except.bind, hcontains]

/-- The test for the keys of a closed subquery has the same truth in databases with the same rows
in its tables. -/
theorem truth_inSet_of_rows {c : ColumnRef} {s : Subquery} (hs : s.Closed)
    (htable : db.rows s.table = other.rows s.table)
    (hjoins : ∀ j ∈ s.joins, db.rows j.table = other.rows j.table) :
    db.truth row (.inSet c s) = other.truth row (.inSet c s) := by
  obtain ⟨ks, hks, hspec⟩ := keys_eq db hs
  obtain ⟨others, hothers, hspec'⟩ := keys_eq other hs
  have hrows : ∀ k, db.keyRows s k = other.keyRows s k := by
    intro k
    unfold keyRows tableRows
    simp only [htable, joinedTo_congr hjoins, meets_of_flat db other hs.filter_flat]
  refine truth_inSet_congr hks hothers fun k => ?_
  rw [hspec, hspec', hrows, holds_of_flat db other hs.having_flat]

end RowScope.Database
