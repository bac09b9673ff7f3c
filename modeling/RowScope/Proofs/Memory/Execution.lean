import RowScope.Proofs.Memory.Identity

/-!
# Execution row by row

`Database.select` joins the rows of the root table and then looks at each joined row by itself
(`Database.select_of_joined`). Where the condition evaluates, the entry of a row is its id if the
row meets the condition, and nothing otherwise (`Database.entry_eq`).

The rows themselves that a condition with its joins selects are `Database.selectRows`, in every
table and without regard to ids; `Database.select` gives the ids of these (`select_eq_selectRows`).
That a condition selects the rows with a property, each of them once, is `Database.SelectsRows`, and
that its execution gives the ids of these rows is `Database.SelectsIds`. The former comes to the
latter where ids are integers (`SelectsRows.selectsIds`).
-/

namespace RowScope.Database

variable {db : Database} {root : String} {p : Predicate} {row : JoinedRow}

/-- What a joined row adds to a selection: the id of its root row if it meets the condition. -/
def entry (db : Database) (root : String) (p : Predicate) (row : JoinedRow) :
    Except ExecutionFault (Option Int64) := do
  if (← db.truth row p) = some true then
    return some (← rowId root row)
  else return none

/-- A selection consists of the entries of the joined rows. -/
theorem select_of_joined {domain : Domain} {s : Scope} {rows : List JoinedRow}
    (h : db.joined domain.rootTable domain.rootTable s.extraJoins = .ok rows) :
    db.select domain s =
      (rows.mapM (db.entry domain.rootTable s.predicate)).map fun ids => ids.filterMap id := by
  unfold select
  dsimp only
  rw [h]
  show (rows.mapM (db.entry domain.rootTable s.predicate) >>= _) = _
  cases rows.mapM (db.entry domain.rootTable s.predicate) <;> rfl

/-- The entry of a row at which the condition evaluates. -/
theorem entry_eq (h : db.Evaluates row p) :
    db.entry root p row = if db.Meets row p then (rowId root row).map some else .ok none := by
  obtain ⟨t, ht⟩ := h
  have hmeets : db.Meets row p ↔ t = some true := by
    unfold Meets
    rw [ht, Except.ok.injEq]
  unfold entry
  rw [ht]
  simp only [hmeets, bind, Except.bind]
  split
  · cases rowId root row <;> rfl
  · rfl

/-- The id of the root row of a joined row with a root row is missing only by not being an
integer. -/
theorem rowId_ne_unbound (h : root ∈ row.aliases) (aliasName : String) :
    rowId root row ≠ .error (.unboundAlias aliasName) := by
  unfold rowId
  rw [JoinedRow.value_eq_read (c := ⟨root, "id"⟩) h]
  simp only [bind, Except.bind]
  split <;> exact fun he => by cases he

/-! ## The rows that an association selects -/

/-- What a joined row adds to the selected rows: its root row if it meets the condition. -/
def rowEntry (db : Database) (root : String) (p : Predicate) (row : JoinedRow) :
    Except ExecutionFault (Option Row) := do
  if (← db.truth row p) = some true then
    return (row.lookup root).join
  else return none

/-- The rows of a root table that an association selects, one for each joined row that meets its
condition. -/
def selectRows (db : Database) (root : String) (a : Association) :
    Except ExecutionFault (List Row) := do
  let rows ← db.joined root root a.extraJoins
  let found ← rows.mapM (db.rowEntry root a.predicate)
  return found.filterMap id

/-- An association selects the rows of a root table that have a property, each of them once and in
the order of the table. -/
def SelectsRows (db : Database) (root : String) (a : Association) (P : Row → Prop) : Prop :=
  ∃ keep : Row → Bool, db.selectRows root a = .ok ((db.rows root).filter keep) ∧
    ∀ r ∈ db.rows root, keep r = true ↔ P r

/-- Executed as the scope of a domain, an association gives the ids of the root rows that have a
property, in the order of the table. -/
def SelectsIds (db : Database) (domain : Domain) (a : Association) (P : Row → Prop) : Prop :=
  ∃ keep : Row → Bool,
    db.select domain ⟨a.predicate, a.extraJoins⟩ =
      .ok (((db.rows domain.rootTable).filter keep).filterMap Row.id?) ∧
    ∀ r ∈ db.rows domain.rootTable, keep r = true ↔ P r

/-- A row is among those that an association selects. -/
def Selected (db : Database) (root : String) (a : Association) (r : Row) : Prop :=
  ∃ kept, db.selectRows root a = .ok kept ∧ r ∈ kept

variable {a : Association}

/-- The root row of a joined row at which the condition evaluates. -/
theorem rowEntry_eq (h : db.Evaluates row p) :
    db.rowEntry root p row =
      .ok (if db.Meets row p then (row.lookup root).join else none) := by
  obtain ⟨t, ht⟩ := h
  have hmeets : db.Meets row p ↔ t = some true := by
    unfold Meets
    rw [ht, Except.ok.injEq]
  unfold rowEntry
  rw [ht]
  simp only [hmeets, bind, Except.bind, pure, Except.pure]
  split <;> rfl

/-- A row at which the condition fails has no entry. -/
theorem rowEntry_eq_error {e : ExecutionFault} (h : db.truth row p = .error e) :
    db.rowEntry root p row = .error e := by
  unfold rowEntry
  rw [h]
  rfl

/-- The selected rows are the entries of the joined rows. -/
theorem selectRows_of_joined {rows : List JoinedRow}
    (h : db.joined root root a.extraJoins = .ok rows) :
    db.selectRows root a =
      (rows.mapM (db.rowEntry root a.predicate)).map fun found => found.filterMap id := by
  unfold selectRows
  rw [h]
  show (rows.mapM (db.rowEntry root a.predicate) >>= _) = _
  cases rows.mapM (db.rowEntry root a.predicate) <;> rfl

/-- Rows are selected or not if the condition evaluates at all joined rows. -/
theorem exists_selectRows {rows : List JoinedRow}
    (hjoined : db.joined root root a.extraJoins = .ok rows)
    (heval : ∀ row ∈ rows, db.Evaluates row a.predicate) :
    ∃ kept, db.selectRows root a = .ok kept := by
  have hentries : ∀ row ∈ rows, ∃ found, db.rowEntry root a.predicate row = .ok found :=
    fun row hrow => ⟨_, rowEntry_eq (heval row hrow)⟩
  obtain ⟨found, hfound⟩ := Traversal.exists_mapM hentries
  refine ⟨found.filterMap id, ?_⟩
  rw [selectRows_of_joined hjoined, hfound]
  rfl

/-- Where every root row is completed to one joined row, those are selected whose completion meets
the condition. -/
theorem selectsRows_of_map {complete : Row → JoinedRow}
    (hjoined : db.joined root root a.extraJoins = .ok ((db.rows root).map complete))
    (hroot : ∀ r, (complete r).lookup root = some (some r))
    (heval : ∀ r ∈ db.rows root, db.Evaluates (complete r) a.predicate) :
    db.SelectsRows root a fun r => db.Meets (complete r) a.predicate := by
  have hentries : ∀ r ∈ db.rows root, (db.rowEntry root a.predicate ∘ complete) r =
      .ok (if db.Meets (complete r) a.predicate then some r else none) := by
    intro r hr
    rw [Function.comp, rowEntry_eq (heval r hr), hroot]
    rfl
  refine ⟨fun r => db.Meets (complete r) a.predicate, ?_, fun r _ => decide_eq_true_iff⟩
  rw [selectRows_of_joined hjoined, List.mapM_map, Traversal.mapM_eq_ok hentries]
  show Except.ok (((db.rows root).map _).filterMap id) = _
  rw [List.filterMap_map, ← List.filterMap_eq_filter]
  congr 2
  funext r
  simp [Option.guard]

/-- An association without joins selects the root rows that meet its condition. -/
theorem selectsRows_of_no_joins (hjoins : a.extraJoins = [])
    (heval : ∀ r ∈ db.rows root, db.Evaluates [(root, some r)] a.predicate) :
    db.SelectsRows root a fun r => db.Meets [(root, some r)] a.predicate := by
  refine selectsRows_of_map ?_ (fun r => List.lookup_cons_self) heval
  rw [hjoins]
  rfl

/-- An association without joins fails if its condition fails at some root row, and does so in one
way only. -/
theorem selectRows_eq_error (hjoins : a.extraJoins = []) {e : ExecutionFault}
    (h : ∀ r ∈ db.rows root, db.Evaluates [(root, some r)] a.predicate ∨
      db.truth [(root, some r)] a.predicate = .error e)
    (hfails : ∃ r ∈ db.rows root, db.truth [(root, some r)] a.predicate = .error e) :
    db.selectRows root a = .error e := by
  have hjoined : db.joined root root a.extraJoins =
      .ok ((db.rows root).map fun r => [(root, some r)]) := by
    rw [hjoins]
    rfl
  have hentries : ∀ row ∈ (db.rows root).map fun r => [(root, some r)],
      (∃ found, db.rowEntry root a.predicate row = .ok found) ∨
        db.rowEntry root a.predicate row = .error e := by
    intro row hrow
    obtain ⟨r, hr, rfl⟩ := List.mem_map.1 hrow
    exact (h r hr).imp (fun heval => ⟨_, rowEntry_eq heval⟩) rowEntry_eq_error
  obtain ⟨r, hr, hfails⟩ := hfails
  rw [selectRows_of_joined hjoined, Traversal.mapM_eq_error hentries
    ⟨_, List.mem_map_of_mem hr, rowEntry_eq_error hfails⟩]
  rfl

/-- An association that selects the rows with a property selects those with an equivalent one. -/
theorem SelectsRows.congr {P Q : Row → Prop} (h : db.SelectsRows root a P)
    (hpq : ∀ r ∈ db.rows root, P r ↔ Q r) : db.SelectsRows root a Q := by
  obtain ⟨keep, hselect, hkeep⟩ := h
  exact ⟨keep, hselect, fun r hr => (hkeep r hr).trans (hpq r hr)⟩

/-- An association that selects the rows with a property selects rows. -/
theorem SelectsRows.exists_selectRows {P : Row → Prop} (h : db.SelectsRows root a P) :
    ∃ kept, db.selectRows root a = .ok kept := by
  obtain ⟨keep, hselect, -⟩ := h
  exact ⟨_, hselect⟩

/-- A row of the table is selected exactly if it has the property. -/
theorem SelectsRows.selected_iff {P : Row → Prop} (h : db.SelectsRows root a P) {r : Row}
    (hr : r ∈ db.rows root) : db.Selected root a r ↔ P r := by
  obtain ⟨keep, hselect, hkeep⟩ := h
  have hmem : r ∈ (db.rows root).filter keep ↔ P r := by
    rw [List.mem_filter, hkeep r hr]
    exact and_iff_right hr
  unfold Selected
  rw [hselect]
  constructor
  · rintro ⟨kept, hkept, hmember⟩
    cases hkept
    exact hmem.1 hmember
  · exact fun hp => ⟨_, rfl, hmem.2 hp⟩

/-- Execution gives the ids of the selected rows, where these are integers. -/
theorem select_eq_selectRows {domain : Domain} {s : Scope}
    (hbound : JoinsBound [domain.rootTable] s.extraJoins)
    (hfree : domain.rootTable ∉ s.extraJoins.map JoinClause.aliasName)
    (hid : ∀ r ∈ db.rows domain.rootTable, ∃ id, Row.value r "id" = .int id) :
    db.select domain s =
      (db.selectRows domain.rootTable ⟨s.predicate, s.extraJoins⟩).map fun rows =>
        rows.filterMap Row.id? := by
  have hjoined : db.joined domain.rootTable domain.rootTable s.extraJoins =
      .ok ((db.rows domain.rootTable).flatMap fun r =>
        db.joinedTo s.extraJoins [[(domain.rootTable, some r)]]) := joined_eq hbound
  -- The joins keep the root row of each joined row, whose id is that of the entry.
  have hentries : ∀ row ∈ (db.rows domain.rootTable).flatMap fun r =>
      db.joinedTo s.extraJoins [[(domain.rootTable, some r)]],
      db.entry domain.rootTable s.predicate row =
        (db.rowEntry domain.rootTable s.predicate row).map fun r => r.bind Row.id? := by
    intro row hrow
    obtain ⟨r, hr, hnext⟩ := List.mem_flatMap.1 hrow
    obtain ⟨id, hid⟩ := hid r hr
    have hself : row.lookup domain.rootTable = some (some r) := by
      rw [lookup_of_mem_joinedTo hfree hnext, List.lookup_cons_self]
    have hrowId : rowId domain.rootTable row = .ok id := by
      simp only [rowId, JoinedRow.value, hself, hid]
      rfl
    unfold entry rowEntry
    rw [hrowId, hself]
    cases db.truth row s.predicate with
    | error e => rfl
    | ok t =>
      by_cases ht : t = some true
      · simp [ht, bind, Except.bind, pure, Except.pure, Except.map, Row.id?_eq_some.2 hid]
      · simp [ht, bind, Except.bind, pure, Except.pure, Except.map]
  rw [select_of_joined hjoined, selectRows_of_joined hjoined, Traversal.mapM_map hentries]
  cases List.mapM (db.rowEntry domain.rootTable s.predicate) _ with
  | error e => rfl
  | ok found =>
    show Except.ok ((found.map fun r => r.bind Row.id?).filterMap id) =
      Except.ok ((found.filterMap id).filterMap Row.id?)
    rw [List.filterMap_map, List.filterMap_filterMap]
    rfl

/-- If an association selects the rows with a property, its execution gives their ids, where these
are integers. -/
theorem SelectsRows.selectsIds {domain : Domain} {P : Row → Prop}
    (h : db.SelectsRows domain.rootTable a P)
    (hbound : JoinsBound [domain.rootTable] a.extraJoins)
    (hfree : domain.rootTable ∉ a.extraJoins.map JoinClause.aliasName)
    (hid : ∀ r ∈ db.rows domain.rootTable, ∃ id, Row.value r "id" = .int id) :
    db.SelectsIds domain a P := by
  obtain ⟨keep, hselect, hkeep⟩ := h
  refine ⟨keep, ?_, hkeep⟩
  rw [select_eq_selectRows hbound hfree hid, hselect]
  rfl

end RowScope.Database
