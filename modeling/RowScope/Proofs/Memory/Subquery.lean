import RowScope.Proofs.Memory.Join
import RowScope.Proofs.OrderedMap

/-!
# The keys of a subquery

A subquery that names only aliases of its own tables (`Subquery.Closed`) finds its keys in every
database, and `keys_eq` says which: the values of its key column at the joined rows that meet its
filter, if those rows together meet its condition on groups. A predicate with bound aliases and
closed subqueries (`Predicate.Closed`) therefore evaluates in every database. The joined rows of a
key are those of the rows of the table that have it (`mem_keyRows`), and where the key column
identifies the rows of its table, that is one row (`Keyed.eq_of_value_eq`).
-/

namespace RowScope

/-- The columns that a condition on the rows of a key looks at. -/
def Having.columns : Having → List ColumnRef
  | absent => []
  | noneMatch p => p.columns
  | count column _ _ => [column]

/-- The subqueries of a condition on the rows of a key. -/
def Having.subqueries : Having → List Subquery
  | noneMatch p => p.subqueries
  | absent | count _ _ _ => []

/-- The aliases of the tables that a subquery selects from. -/
def Subquery.aliases (s : Subquery) : List String := s.aliasName :: s.joins.map JoinClause.aliasName

/-- A subquery names no alias but those of its tables, and joins each of them to one before it. It
may have subqueries inside. -/
structure Subquery.SelfContained (s : Subquery) : Prop where
  /-- Every join refers to an alias before it. -/
  joins : JoinsBound [s.aliasName] s.joins
  /-- The filter names aliases of the tables. -/
  filter : ∀ c ∈ s.filter.columns, c.aliasName ∈ s.aliases
  /-- The condition on groups names aliases of the tables. -/
  having : ∀ c ∈ s.having.columns, c.aliasName ∈ s.aliases

/-- A subquery names no alias but those of its tables, joins each of them to one before it, and has
no subquery inside. -/
structure Subquery.Closed (s : Subquery) : Prop where
  /-- Every join refers to an alias before it. -/
  joins : JoinsBound [s.aliasName] s.joins
  /-- The filter names aliases of the tables. -/
  filter : ∀ c ∈ s.filter.columns, c.aliasName ∈ s.aliases
  /-- The condition on groups names aliases of the tables. -/
  having : ∀ c ∈ s.having.columns, c.aliasName ∈ s.aliases
  /-- The filter has no subquery. -/
  filter_flat : s.filter.subqueries = []
  /-- The condition on groups has no subquery. -/
  having_flat : s.having.subqueries = []

/-- A closed subquery is self-contained. -/
theorem Subquery.Closed.selfContained {s : Subquery} (h : s.Closed) : s.SelfContained :=
  ⟨h.joins, h.filter, h.having⟩

/-- A predicate names some aliases only, and its subqueries are closed. -/
structure Predicate.Closed (aliases : List String) (p : Predicate) : Prop where
  /-- The aliases that it names are among the given ones. -/
  columns : ∀ c ∈ p.columns, c.aliasName ∈ aliases
  /-- Its subqueries name aliases of their own. -/
  subqueries : ∀ s ∈ p.subqueries, s.Closed

namespace Predicate

variable {aliases : List String} {parts : List Predicate} {p q : Predicate}

/-- A predicate is closed if each of its atoms stands in a closed predicate. -/
theorem closed_of_atoms (h : ∀ a ∈ p.atoms, ∃ q : Predicate, a ∈ q.atoms ∧ q.Closed aliases) :
    p.Closed aliases := by
  constructor
  · intro c hc
    obtain ⟨a, ha, hcol⟩ := mem_columns.1 hc
    obtain ⟨q, hq, hclosed⟩ := h a ha
    exact hclosed.columns c (mem_columns.2 ⟨a, hq, hcol⟩)
  · intro s hs
    obtain ⟨a, ha, hsub⟩ := mem_subqueries.1 hs
    obtain ⟨q, hq, hclosed⟩ := h a ha
    exact hclosed.subqueries s (mem_subqueries.2 ⟨a, hq, hsub⟩)

/-- A conjunction of closed predicates is closed. -/
theorem closed_conj (h : ∀ part ∈ parts, part.Closed aliases) : (conj parts).Closed aliases :=
  closed_of_atoms fun _ ha =>
    let ⟨part, hpart, hatom⟩ := atoms_conj ha
    ⟨part, hatom, h part hpart⟩

/-- A disjunction of closed predicates is closed. -/
theorem closed_disj (h : ∀ part ∈ parts, part.Closed aliases) : (disj parts).Closed aliases :=
  closed_of_atoms fun _ ha =>
    let ⟨part, hpart, hatom⟩ := atoms_disj ha
    ⟨part, hatom, h part hpart⟩

/-- The complement of a closed predicate is closed. -/
theorem closed_negate (h : p.Closed aliases) : p.negate.Closed aliases :=
  closed_of_atoms fun _ ha => ⟨p, atoms_negate p ▸ ha, h⟩

/-- A closed predicate is closed under more aliases. -/
theorem Closed.mono {more : List String} (hsub : aliases ⊆ more) (h : p.Closed aliases) :
    p.Closed more :=
  ⟨fun c hc => hsub (h.columns c hc), h.subqueries⟩

/-- A predicate that names no column is closed. -/
theorem closed_of_atoms_eq_nil (h : p.atoms = []) : p.Closed aliases :=
  closed_of_atoms fun _ ha => absurd (h ▸ ha) List.not_mem_nil

end Predicate

namespace Database

variable {db : Database} {rows : List JoinedRow}

/-! ## Groups -/

/-- Groups are the rows of a list by the value of a column. -/
def Groups (c : ColumnRef) (rows : List JoinedRow) (groups : OrderedMap Value (List JoinedRow)) :
    Prop :=
  ∀ v members, groups.get? v = some members ↔
    members ≠ [] ∧ members = rows.filter fun row => row.read c = v

/-- One more row goes to the group of its value. -/
theorem groups_alter {c : ColumnRef} {groups : OrderedMap Value (List JoinedRow)} {row : JoinedRow}
    (h : Groups c rows groups) :
    Groups c (rows ++ [row])
      (groups.alter (row.read c) fun members => members.getD [] ++ [row]) := by
  intro v members
  unfold OrderedMap.alter
  rw [OrderedMap.get?_insert, List.filter_append]
  by_cases hv : v = row.read c
  · subst hv
    -- The rows that were in the group, none if there was no group.
    have before : (groups.get? (row.read c)).getD [] =
        rows.filter fun other => other.read c = row.read c := by
      cases hg : groups.get? (row.read c) with
      | none =>
        have hnone := h (row.read c) (rows.filter fun other => other.read c = row.read c)
        rw [hg] at hnone
        simpa using hnone
      | some found => exact ((h _ _).1 hg).2
    rw [if_pos rfl]
    simp only [before, List.filter_cons, decide_true, if_true, List.filter_nil, Option.some.injEq]
    constructor
    · rintro rfl
      exact ⟨by simp, rfl⟩
    · exact fun hm => hm.2.symm
  · rw [if_neg hv, h v members]
    simp [Ne.symm hv]

/-- Further rows with a part for the alias of a column go to the groups of their values. -/
theorem groups_foldlM {c : ColumnRef} {seen rest : List JoinedRow}
    {groups : OrderedMap Value (List JoinedRow)}
    (h : ∀ row ∈ rest, c.aliasName ∈ row.aliases) (hgroups : Groups c seen groups) :
    ∃ all, rest.foldlM (fun groups row => do
        return groups.alter (← row.value c) fun members => members.getD [] ++ [row]) groups =
      Except.ok (ε := ExecutionFault) all ∧ Groups c (seen ++ rest) all := by
  induction rest generalizing seen groups with
  | nil => exact ⟨groups, rfl, by simpa using hgroups⟩
  | cons row rest ih =>
    obtain ⟨hrow, hrest⟩ := List.forall_mem_cons.1 h
    obtain ⟨all, hall, hmore⟩ := ih hrest (groups_alter hgroups)
    refine ⟨all, ?_, by simpa using hmore⟩
    rw [List.foldlM_cons, JoinedRow.value_eq_read hrow]
    exact hall

/-- Rows with a part for the alias of a column are grouped by its value. -/
theorem groupBy_eq (c : ColumnRef) (rows : List JoinedRow)
    (h : ∀ row ∈ rows, c.aliasName ∈ row.aliases) :
    ∃ groups, groupBy c rows = .ok groups ∧ Groups c rows groups := by
  have hempty : Groups c [] .empty := by
    intro v members
    rw [OrderedMap.get?_empty]
    simp
  exact groups_foldlM h hempty

/-! ## Conditions on groups -/

/-- Every group meets the condition that asks nothing. -/
theorem holds_absent (rows : List JoinedRow) : db.holds rows .absent = .ok true := rfl

/-- A count on a group compares the number of distinct values of its column. -/
theorem holds_count_eq (column : ColumnRef) (op : CompareOp) (n : Int64) :
    db.holds rows (.count column op n) = (do
      let size ← countDistinct column rows
      return op.holds (Ordered.cmp (Int.ofNat size) n.toInt)) := rfl

/-- Whether some row meets a predicate that evaluates at all of them. -/
theorem anyM_meets {p : Predicate} (h : ∀ row ∈ rows, db.Evaluates row p) :
    rows.anyM (fun row => do return (← db.truth row p) = some true) =
      Except.ok (ε := ExecutionFault) (rows.any fun row => decide (db.Meets row p)) := by
  apply Traversal.anyM_eq_ok
  intro row hrow
  obtain ⟨t, ht⟩ := h row hrow
  rw [ht]
  simp [bind, Except.bind, pure, Except.pure, Meets, ht]

/-- The rows that meet a predicate that evaluates at all of them. -/
theorem filterM_meets {p : Predicate} (h : ∀ row ∈ rows, db.Evaluates row p) :
    rows.filterM (fun row => do return (← db.truth row p) = some true) =
      Except.ok (ε := ExecutionFault) (rows.filter fun row => decide (db.Meets row p)) := by
  apply Traversal.filterM_eq_ok
  intro row hrow
  obtain ⟨t, ht⟩ := h row hrow
  rw [ht]
  simp [bind, Except.bind, pure, Except.pure, Meets, ht]

/-- No row of a group meets a predicate that evaluates at all of them. -/
theorem holds_noneMatch {p : Predicate} (h : ∀ row ∈ rows, db.Evaluates row p) :
    db.holds rows (.noneMatch p) = .ok (decide (∀ row ∈ rows, ¬ db.Meets row p)) := by
  show (do return !(← rows.anyM fun row => do return (← db.truth row p) = some true)) = _
  rw [anyM_meets h]
  simp only [bind, Except.bind, pure, Except.pure, Except.ok.injEq]
  rw [Bool.eq_iff_iff]
  simp

/-- The number of values of a column that has a part in all rows. -/
theorem countDistinct_eq {c : ColumnRef} (h : ∀ row ∈ rows, c.aliasName ∈ row.aliases) :
    countDistinct c rows =
      .ok (OrderedSet.ofList ((rows.map fun row => row.read c).filter
        fun v => !v.isNull)).size := by
  unfold countDistinct
  rw [Traversal.mapM_eq_ok fun row hrow => JoinedRow.value_eq_read (h row hrow)]
  rfl

/-- The subqueries of a predicate find keys. -/
def FindsKeys (db : Database) (subqueries : List Subquery) : Prop :=
  ∀ s ∈ subqueries, ∃ ks, db.keys s = .ok ks

/-- No subqueries find keys. -/
theorem findsKeys_of_eq_nil {subqueries : List Subquery} (h : subqueries = []) :
    db.FindsKeys subqueries := by
  intro s hs
  rw [h] at hs
  exact absurd hs List.not_mem_nil

/-- A condition on groups holds or not of rows with parts for the aliases that it names. -/
theorem holds_eq {having : Having}
    (hc : ∀ c ∈ having.columns, ∀ row ∈ rows, c.aliasName ∈ row.aliases)
    (hs : db.FindsKeys having.subqueries) : ∃ b, db.holds rows having = .ok b := by
  cases having with
  | absent => exact ⟨true, holds_absent rows⟩
  | noneMatch p =>
    exact ⟨_, holds_noneMatch fun row hrow => evaluates_of_columns (fun c h => hc c h row hrow) hs⟩
  | count c op n =>
    have hcount := countDistinct_eq fun row hrow => hc c (List.mem_singleton_self c) row hrow
    rw [holds_count_eq, hcount]
    exact ⟨_, rfl⟩

/-! ## Keys -/

/-- A subquery groups the rows that meet its filter by its key, and finds the keys of the groups
that meet its condition. -/
theorem keys_mk (db : Database) (table aliasName key : String) (joins : List JoinClause)
    (filter : Predicate) (having : Having) :
    db.keys ⟨table, aliasName, key, joins, filter, having⟩ = (do
      let rows ← db.joined table aliasName joins
      let kept ← rows.filterM fun row => do return (← db.truth row filter) = some true
      let groups ← groupBy ⟨aliasName, key⟩ kept
      let found ← groups.entries.filterM fun group => db.holds group.2 having
      return (found.map Prod.fst).filter fun k => !k.isNull) := rfl

/-- The rows that a subquery selects from. -/
def tableRows (db : Database) (s : Subquery) : List JoinedRow :=
  (db.rows s.table).flatMap fun row => db.joinedTo s.joins [[(s.aliasName, some row)]]

/-- The rows that meet the filter of a subquery and have a value in its key column. -/
def keyRows (db : Database) (s : Subquery) (v : Value) : List JoinedRow :=
  (db.tableRows s).filter fun row => row.read s.keyColumn = v ∧ db.Meets row s.filter

/-- The rows that a subquery selects from have parts for the aliases of its tables. -/
theorem aliases_of_tableRows {s : Subquery} {row : JoinedRow} (h : row ∈ db.tableRows s) :
    s.aliases ⊆ row.aliases := aliases_of_joined h

/-- The rows that a subquery selects from have parts for no other aliases. -/
theorem mem_aliases_of_tableRows {s : Subquery} {row : JoinedRow} (h : row ∈ db.tableRows s)
    {a : String} (ha : a ∈ row.aliases) : a ∈ s.aliases := by
  obtain ⟨r, -, hrow⟩ := List.mem_flatMap.1 h
  obtain ⟨parts, rfl, hparts⟩ := mem_joinedTo hrow
  rw [JoinedRow.aliases] at hparts
  rw [JoinedRow.aliases, List.map_append, hparts, List.mem_append, List.mem_reverse] at ha
  rcases ha with ha | ha
  · exact List.mem_cons_of_mem s.aliasName ha
  · exact List.mem_singleton.1 ha ▸ List.mem_cons_self

/-- The filter of a self-contained subquery evaluates at the rows that the subquery selects from. -/
theorem evaluates_filter {s : Subquery} (hs : s.SelfContained)
    (hfilter : db.FindsKeys s.filter.subqueries) :
    ∀ row ∈ db.tableRows s, db.Evaluates row s.filter := by
  intro row hrow
  exact evaluates_of_columns (fun c hc => aliases_of_tableRows hrow (hs.filter c hc)) hfilter

/-- The rows that meet the filter of a subquery are grouped by its key. -/
theorem exists_groups (db : Database) (s : Subquery) :
    ∃ groups, groupBy s.keyColumn
        ((db.tableRows s).filter fun row => decide (db.Meets row s.filter)) = .ok groups ∧
      ∀ v members, (v, members) ∈ groups.entries ↔
        members ≠ [] ∧ members = db.keyRows s v := by
  obtain ⟨groups, hgroups, hspec⟩ := groupBy_eq s.keyColumn
    ((db.tableRows s).filter fun row => decide (db.Meets row s.filter))
    fun row hrow => aliases_of_tableRows (List.mem_filter.1 hrow).1 List.mem_cons_self
  refine ⟨groups, hgroups, fun v members => ?_⟩
  rw [← OrderedMap.get?_eq_some_iff, hspec, keyRows, List.filter_filter]
  simp

/-- A self-contained subquery finds its keys if the subqueries inside find theirs: the values of the
key column that are not missing and whose rows together meet the condition on groups. -/
theorem keys_eq_of_selfContained {s : Subquery} (hs : s.SelfContained)
    (hfilter : db.FindsKeys s.filter.subqueries) (hhaving : db.FindsKeys s.having.subqueries) :
    ∃ ks, db.keys s = .ok ks ∧ ∀ v, v ∈ ks ↔
      v ≠ .null ∧ db.keyRows s v ≠ [] ∧ db.holds (db.keyRows s v) s.having = .ok true := by
  have hrows : db.joined s.table s.aliasName s.joins = .ok (db.tableRows s) := joined_eq hs.joins
  have hkept := filterM_meets (evaluates_filter hs hfilter)
  obtain ⟨groups, hgroups, hgroup⟩ := db.exists_groups s
  -- A group is the rows of its key, so the condition on groups has a result for it.
  have hfound : groups.entries.filterM (fun group => db.holds group.2 s.having) =
      .ok (groups.entries.filter fun group =>
        (db.holds group.2 s.having).toOption == some true) := by
    apply Traversal.filterM_eq_ok
    rintro ⟨v, members⟩ hm
    obtain ⟨-, rfl⟩ := (hgroup v members).1 hm
    have hholds : ∃ b, db.holds (db.keyRows s v) s.having = .ok b := holds_eq
      (fun c hc row hrow => aliases_of_tableRows (List.mem_filter.1 hrow).1 (hs.having c hc))
      hhaving
    obtain ⟨b, hb⟩ := hholds
    rw [hb]
    cases b <;> rfl
  refine ⟨((groups.entries.filter fun group =>
    (db.holds group.2 s.having).toOption == some true).map Prod.fst).filter fun k => !k.isNull,
    ?_, fun v => ?_⟩
  · obtain ⟨table, aliasName, key, joins, filter, having⟩ := s
    rw [keys_mk, hrows]
    simp only [bind, Except.bind]
    simp only [bind, Except.bind] at hkept
    rw [hkept]
    simp only
    rw [show groupBy ⟨aliasName, key⟩ _ = _ from hgroups]
    simp only
    rw [hfound]
    rfl
  · simp only [List.mem_filter, List.mem_map]
    constructor
    · rintro ⟨⟨⟨w, members⟩, ⟨hmem, hholds⟩, rfl⟩, hnull⟩
      obtain ⟨hne, rfl⟩ := (hgroup w members).1 hmem
      refine ⟨fun e => ?_, hne, ?_⟩
      · rw [Value.isNull_iff.2 e] at hnull
        cases hnull
      · cases hb : db.holds (db.keyRows s w) s.having with
        | error e => simp [hb, Except.toOption] at hholds
        | ok b => simpa [hb, Except.toOption] using hholds
    · rintro ⟨hnull, hne, hholds⟩
      refine ⟨⟨(v, db.keyRows s v), ⟨(hgroup v _).2 ⟨hne, rfl⟩, ?_⟩, rfl⟩, ?_⟩
      · simp [hholds, Except.toOption]
      · rw [Bool.not_eq_true', Bool.eq_false_iff]
        exact fun e => hnull (Value.isNull_iff.1 e)

/-- A subquery that counts a column of an alias which is not among those of its tables fails where
it has a row to count. -/
theorem keys_eq_error {s : Subquery} {column : ColumnRef} {op : CompareOp} {n : Int64}
    (hjoins : JoinsBound [s.aliasName] s.joins)
    (hfilter : ∀ row ∈ db.tableRows s, db.Evaluates row s.filter)
    (hhaving : s.having = .count column op n) (hunbound : column.aliasName ∉ s.aliases)
    {row : JoinedRow} (hrow : row ∈ db.tableRows s) (hmeets : db.Meets row s.filter) :
    db.keys s = .error (.unboundAlias column.aliasName) := by
  have hrows : db.joined s.table s.aliasName s.joins = .ok (db.tableRows s) := joined_eq hjoins
  have hkept := filterM_meets hfilter
  obtain ⟨groups, hgroups, hgroup⟩ := db.exists_groups s
  -- No row has the column, so every group fails, and the row given is in one.
  have hfails : ∀ group ∈ groups.entries,
      db.holds group.2 s.having = .error (.unboundAlias column.aliasName) := by
    rintro ⟨v, members⟩ hm
    obtain ⟨hne, rfl⟩ := (hgroup v members).1 hm
    have hvalue : ∀ row ∈ db.keyRows s v,
        row.value column = .error (.unboundAlias column.aliasName) := by
      intro row hrow
      exact JoinedRow.value_eq_error fun ha =>
        hunbound (mem_aliases_of_tableRows (List.mem_filter.1 hrow).1 ha)
    obtain ⟨first, hfirst⟩ := List.exists_mem_of_ne_nil _ hne
    have hcount : countDistinct column (db.keyRows s v) =
        .error (.unboundAlias column.aliasName) := by
      unfold countDistinct
      rw [Traversal.mapM_eq_error (fun row hrow => .inr (hvalue row hrow))
        ⟨first, hfirst, hvalue first hfirst⟩]
      rfl
    rw [hhaving, holds_count_eq, hcount]
    rfl
  have hentries : groups.entries ≠ [] := by
    have hmem : row ∈ db.keyRows s (row.read s.keyColumn) := by
      rw [keyRows, List.mem_filter]
      exact ⟨hrow, decide_eq_true ⟨rfl, hmeets⟩⟩
    exact List.ne_nil_of_mem ((hgroup _ _).2 ⟨List.ne_nil_of_mem hmem, rfl⟩)
  obtain ⟨first, rest, hfirst⟩ := List.exists_cons_of_ne_nil hentries
  have hfound : groups.entries.filterM (fun group => db.holds group.2 s.having) =
      .error (.unboundAlias column.aliasName) := by
    rw [hfirst] at hfails ⊢
    exact Traversal.filterM_cons_eq_error (hfails first List.mem_cons_self)
  obtain ⟨table, aliasName, key, joins, filter, having⟩ := s
  rw [keys_mk, hrows]
  simp only [bind, Except.bind] at hkept ⊢
  rw [hkept]
  simp only
  rw [show groupBy ⟨aliasName, key⟩ _ = _ from hgroups]
  simp only
  rw [hfound]

/-- A closed subquery finds its keys. -/
theorem keys_eq (db : Database) {s : Subquery} (hs : s.Closed) :
    ∃ ks, db.keys s = .ok ks ∧ ∀ v, v ∈ ks ↔
      v ≠ .null ∧ db.keyRows s v ≠ [] ∧ db.holds (db.keyRows s v) s.having = .ok true :=
  keys_eq_of_selfContained hs.selfContained (findsKeys_of_eq_nil hs.filter_flat)
    (findsKeys_of_eq_nil hs.having_flat)

/-- A closed predicate evaluates at rows with parts for its aliases. -/
theorem evaluates_of_closed {row : JoinedRow} {p : Predicate} (h : p.Closed row.aliases) :
    db.Evaluates row p := by
  refine evaluates_of_columns h.columns fun s hs => ?_
  obtain ⟨ks, hks, -⟩ := keys_eq db (h.subqueries s hs)
  exact ⟨ks, hks⟩

/-- A row meets the test for the keys of a subquery if its value is one of them. -/
theorem meets_inSet {row : JoinedRow} {c : ColumnRef} {s : Subquery} {ks : List Value}
    (hks : db.keys s = .ok ks) (hnull : .null ∉ ks) (hc : c.aliasName ∈ row.aliases) :
    db.Meets row (.inSet c s) ↔ row.read c ∈ ks := by
  rw [Meets, truth_inSet, JoinedRow.value_eq_read hc, hks]
  simp only [bind, Except.bind, pure, Except.pure]
  split
  · next hmissing =>
    -- A missing value is no key.
    have absent : row.read c ∉ ks := Value.isNull_iff.1 hmissing ▸ hnull
    simp [absent]
  · simp

/-! ## Keys that identify rows -/

/-- A row of a table whose key is there and is not that of another row. -/
structure Keyed (db : Database) (table key : String) (r : Row) : Prop where
  /-- The row is in the table. -/
  mem : r ∈ db.rows table
  /-- No two rows have the same key. -/
  unique : db.UniqueIn table key
  /-- The row has a key. -/
  not_null : r.value key ≠ .null

/-- The row of a key is the only one with its value. -/
theorem Keyed.eq_of_value_eq {table key : String} {r other : Row} (h : db.Keyed table key r)
    (hmem : other ∈ db.rows table) (he : other.value key = r.value key) : other = r := by
  have hr := h.mem
  have hu := h.unique
  unfold UniqueIn at hu
  generalize db.rows table = rows at hmem hr hu
  -- The two rows stand at one place, for at different places their equal values would be missing.
  induction rows with
  | nil => exact absurd hr List.not_mem_nil
  | cons first rest ih =>
    obtain ⟨hfirst, hrest⟩ := List.pairwise_cons.1 hu
    rcases List.mem_cons.1 hmem with ho | ho <;> rcases List.mem_cons.1 hr with hr | hr
    · exact ho.trans hr.symm
    · exact absurd (he ▸ ho ▸ hfirst r hr (ho ▸ he)) h.not_null
    · exact absurd (hr ▸ hfirst other ho (hr ▸ he.symm)) h.not_null
    · exact ih ho hr hrest

/-- A row that joins put parts in front of keeps its part for an alias that they do not take. -/
theorem lookup_of_mem_joinedTo {joins : List JoinClause} {row next : JoinedRow} {a : String}
    (hfree : a ∉ joins.map JoinClause.aliasName) (h : next ∈ db.joinedTo joins [row]) :
    next.lookup a = row.lookup a := by
  obtain ⟨parts, rfl, hparts⟩ := mem_joinedTo h
  have hnone : parts.lookup a = none := by
    rw [Option.eq_none_iff_forall_ne_some]
    intro part hp
    have hmem := JoinedRow.lookup_isSome.1 (Option.isSome_iff_exists.2 ⟨part, hp⟩)
    rw [hparts, List.mem_reverse] at hmem
    exact hfree hmem
  rw [List.lookup_append, hnone, Option.none_or]

/-- A row that joins put parts in front of keeps its value for an alias that they do not take. -/
theorem read_of_mem_joinedTo {joins : List JoinClause} {row next : JoinedRow} {c : ColumnRef}
    (hfree : c.aliasName ∉ joins.map JoinClause.aliasName) (h : next ∈ db.joinedTo joins [row]) :
    next.read c = row.read c :=
  JoinedRow.read_congr (lookup_of_mem_joinedTo hfree h)

/-- The joined rows of a key are those of the rows of the table that have the key. -/
theorem mem_keyRows (db : Database) (s : Subquery)
    (hfree : s.aliasName ∉ s.joins.map JoinClause.aliasName) (k : Value) (row : JoinedRow) :
    row ∈ db.keyRows s k ↔ ∃ r ∈ db.rows s.table, r.value s.key = k ∧
      row ∈ db.joinedTo s.joins [[(s.aliasName, some r)]] ∧ db.Meets row s.filter := by
  -- The key of a joined row is that of the row of the table that it is made of.
  have key_eq : ∀ (r : Row), row ∈ db.joinedTo s.joins [[(s.aliasName, some r)]] →
      row.read s.keyColumn = r.value s.key := by
    intro r h
    rw [read_of_mem_joinedTo (c := s.keyColumn) hfree h, JoinedRow.read, Subquery.keyColumn,
      List.lookup_cons_self]
    rfl
  simp only [keyRows, tableRows, List.mem_filter, List.mem_flatMap, decide_eq_true_eq]
  constructor
  · rintro ⟨⟨r, hr, hrow⟩, hkey, hfilter⟩
    exact ⟨r, hr, key_eq r hrow ▸ hkey, hrow, hfilter⟩
  · rintro ⟨r, hr, hkey, hrow, hfilter⟩
    exact ⟨⟨r, hr, hrow⟩, hkey ▸ key_eq r hrow, hfilter⟩

/-- The joined rows of the key of a row are those of this row alone, where the key identifies it. -/
theorem Keyed.mem_keyRows {s : Subquery} {r : Row} (h : db.Keyed s.table s.key r)
    (hfree : s.aliasName ∉ s.joins.map JoinClause.aliasName) (row : JoinedRow) :
    row ∈ db.keyRows s (r.value s.key) ↔
      row ∈ db.joinedTo s.joins [[(s.aliasName, some r)]] ∧ db.Meets row s.filter := by
  rw [Database.mem_keyRows db s hfree]
  constructor
  · rintro ⟨other, hother, hkey, hrow⟩
    exact h.eq_of_value_eq hother hkey ▸ hrow
  · exact fun hrow => ⟨r, h.mem, rfl, hrow⟩

end Database

end RowScope
