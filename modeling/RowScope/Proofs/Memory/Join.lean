import RowScope.Association
import RowScope.Proofs.Memory.Evaluation
import RowScope.Proofs.Traversal

/-!
# Joined rows

`Database.joined` works on the rows of a table breadth first and may fail on an alias that is not
bound. Where every join refers to an alias before it (`JoinsBound`) it does not fail, and works on
each row apart (`joinAll_eq`, `joinedTo_eq_flatMap`). A left join that finds at most one partner
keeps the rows one to one (`joinedTo_single`), and the row that comes out is determined by the
equations of its joins, whatever else has been joined to it (`Completes`).
-/

namespace RowScope

/-- Every join refers to an alias that is bound at first or by a join before it. -/
def JoinsBound : List String → List JoinClause → Prop
  | _, [] => True
  | bound, join :: joins =>
    join.other.aliasName ∈ bound ∧ JoinsBound (join.aliasName :: bound) joins

/-- Further bound aliases do no harm. -/
theorem JoinsBound.mono {bound more : List String} {joins : List JoinClause} (hsub : bound ⊆ more)
    (h : JoinsBound bound joins) : JoinsBound more joins := by
  induction joins generalizing bound more with
  | nil => exact True.intro
  | cons join joins ih => exact ⟨hsub h.1, ih (List.cons_subset_cons _ hsub) h.2⟩

/-- Joins after others may refer to the aliases of those. -/
theorem joinsBound_append {bound : List String} {joins others : List JoinClause} :
    JoinsBound bound (joins ++ others) ↔
      JoinsBound bound joins ∧
        JoinsBound ((joins.map JoinClause.aliasName).reverse ++ bound) others := by
  induction joins generalizing bound with
  | nil => simp [JoinsBound]
  | cons join joins ih => simp [JoinsBound, ih, and_assoc]

namespace Database

variable {db : Database} {row other : JoinedRow} {join : JoinClause}

/-! ## Joins as functions of the row -/

/-- A joined row with each of its partners. An alias that is not bound has no partners. -/
def extended (db : Database) (join : JoinClause) (row : JoinedRow) : List JoinedRow :=
  match db.partners join (row.read join.other), join.kind with
  | [], .inner => []
  | [], .left => [(join.aliasName, none) :: row]
  | found, _ => found.map fun partner => (join.aliasName, some partner) :: row

/-- Some joined rows with the partners that some joins find, one join after the other. -/
def joinedTo (db : Database) : List JoinClause → List JoinedRow → List JoinedRow
  | [], rows => rows
  | join :: joins, rows => db.joinedTo joins (rows.flatMap (db.extended join))

/-- A join to a bound alias succeeds. -/
theorem extend_eq (h : join.other.aliasName ∈ row.aliases) :
    db.extend join row = .ok (db.extended join row) := by
  unfold extend extended
  rw [JoinedRow.value_eq_read h]
  simp only [bind, Except.bind, pure, Except.pure]
  split <;> simp_all

/-- An inner join puts each partner in front. -/
theorem extended_inner (hk : join.kind = .inner) :
    db.extended join row = (db.partners join (row.read join.other)).map fun partner =>
      (join.aliasName, some partner) :: row := by
  unfold extended
  cases db.partners join (row.read join.other) <;> rw [hk]
  rfl

/-- The parts that a left join adds for some partners. -/
def leftParts : List Row → List (Option Row)
  | [] => [none]
  | found => found.map some

/-- There is always a part that a left join adds. -/
theorem leftParts_ne_nil (found : List Row) : leftParts found ≠ [] := by
  cases found <;> simp [leftParts]

/-- The rows among the parts that a left join adds are the partners. -/
theorem some_mem_leftParts {found : List Row} {r : Row} : some r ∈ leftParts found ↔ r ∈ found := by
  cases found <;> simp [leftParts]

/-- A left join puts each partner in front, or nothing if there is none. -/
theorem extended_left (hk : join.kind = .left) :
    db.extended join row = (leftParts (db.partners join (row.read join.other))).map fun part =>
      (join.aliasName, part) :: row := by
  unfold extended
  cases db.partners join (row.read join.other) <;> simp [hk, leftParts]

/-- A joined row with a partner is the row with one more part in front. -/
theorem mem_extended (h : other ∈ db.extended join row) :
    ∃ part, other = (join.aliasName, part) :: row := by
  unfold extended at h
  split at h
  · exact absurd h List.not_mem_nil
  · exact ⟨none, List.mem_singleton.1 h⟩
  · obtain ⟨partner, -, rfl⟩ := List.mem_map.1 h
    exact ⟨some partner, rfl⟩

/-- Joins that refer to bound aliases succeed. -/
theorem joinAll_eq {bound : List String} {joins : List JoinClause} {rows : List JoinedRow}
    (hj : JoinsBound bound joins) (hr : ∀ row ∈ rows, bound ⊆ row.aliases) :
    db.joinAll joins rows = .ok (db.joinedTo joins rows) := by
  induction joins generalizing bound rows with
  | nil => rfl
  | cons join joins ih =>
    have step : rows.mapM (db.extend join) = .ok (rows.map (db.extended join)) :=
      Traversal.mapM_eq_ok fun row hrow => extend_eq (hr row hrow hj.1)
    rw [joinAll, step]
    show db.joinAll joins (rows.map (db.extended join)).flatten = _
    rw [joinedTo, ← List.flatMap_def]
    apply ih hj.2
    -- The rows of the first join have its alias bound as well.
    intro other hother
    obtain ⟨row, hrow, hext⟩ := List.mem_flatMap.1 hother
    obtain ⟨part, rfl⟩ := mem_extended hext
    exact List.cons_subset_cons _ (hr row hrow)

/-- Joins work on two lists of rows apart. -/
theorem joinedTo_append (joins : List JoinClause) (rows others : List JoinedRow) :
    db.joinedTo joins (rows ++ others) = db.joinedTo joins rows ++ db.joinedTo joins others := by
  induction joins generalizing rows others with
  | nil => rfl
  | cons join joins ih => rw [joinedTo, joinedTo, joinedTo, List.flatMap_append, ih]

/-- Joins find nothing for no rows. -/
theorem joinedTo_nil (joins : List JoinClause) : db.joinedTo joins [] = [] := by
  induction joins with
  | nil => rfl
  | cons join joins ih => rw [joinedTo, List.flatMap_nil, ih]

/-- Joins work on each row apart. -/
theorem joinedTo_eq_flatMap (joins : List JoinClause) (rows : List JoinedRow) :
    db.joinedTo joins rows = rows.flatMap fun row => db.joinedTo joins [row] := by
  induction rows with
  | nil => exact joinedTo_nil joins
  | cons row rows ih => rw [← List.singleton_append, joinedTo_append, ih, List.flatMap_append,
      List.flatMap_singleton]

/-- The first join works on a row, and the others on each row that it gives. -/
theorem joinedTo_cons (joins : List JoinClause) :
    db.joinedTo (join :: joins) [row] =
      (db.extended join row).flatMap fun next => db.joinedTo joins [next] := by
  rw [joinedTo, List.flatMap_singleton, joinedTo_eq_flatMap]

/-- Joins put parts for their aliases in front of a row. -/
theorem mem_joinedTo {joins : List JoinClause}
    (h : other ∈ db.joinedTo joins [row]) :
    ∃ parts : JoinedRow, other = parts ++ row ∧
      parts.aliases = (joins.map JoinClause.aliasName).reverse := by
  induction joins generalizing row with
  | nil => exact ⟨[], List.mem_singleton.1 h, rfl⟩
  | cons join joins ih =>
    rw [joinedTo_cons] at h
    obtain ⟨next, hnext, h⟩ := List.mem_flatMap.1 h
    obtain ⟨part, rfl⟩ := mem_extended hnext
    obtain ⟨parts, rfl, hparts⟩ := ih h
    refine ⟨parts ++ [(join.aliasName, part)], by simp, ?_⟩
    rw [JoinedRow.aliases] at hparts
    simp [JoinedRow.aliases, hparts]

/-- Left joins keep every row. -/
theorem joinedTo_left_ne_nil {joins : List JoinClause} (h : ∀ j ∈ joins, j.kind = .left) :
    db.joinedTo joins [row] ≠ [] := by
  induction joins generalizing row with
  | nil => exact List.cons_ne_nil row []
  | cons join joins ih =>
    obtain ⟨hk, h⟩ := List.forall_mem_cons.1 h
    obtain ⟨part, parts, hparts⟩ :=
      List.exists_cons_of_ne_nil (leftParts_ne_nil (db.partners join (row.read join.other)))
    rw [joinedTo_cons, extended_left hk, hparts, List.map_cons, List.flatMap_cons]
    exact List.append_ne_nil_of_left_ne_nil (ih h) _

/-- The rows of a table joined with others, each apart. -/
theorem joined_eq {table aliasName : String} {joins : List JoinClause}
    (h : JoinsBound [aliasName] joins) :
    db.joined table aliasName joins =
      .ok ((db.rows table).flatMap fun row => db.joinedTo joins [[(aliasName, some row)]]) := by
  unfold joined
  rw [joinAll_eq h, joinedTo_eq_flatMap, List.flatMap_map]
  intro row hrow
  obtain ⟨part, -, rfl⟩ := List.mem_map.1 hrow
  exact List.Subset.refl _

/-- The aliases of a table and of the joins to it are bound in the joined rows. -/
theorem aliases_of_joined {table aliasName : String} {joins : List JoinClause}
    (h : row ∈ (db.rows table).flatMap fun r => db.joinedTo joins [[(aliasName, some r)]]) :
    aliasName :: joins.map JoinClause.aliasName ⊆ row.aliases := by
  obtain ⟨r, -, hr⟩ := List.mem_flatMap.1 h
  obtain ⟨parts, rfl, hparts⟩ := mem_joinedTo hr
  rw [JoinedRow.aliases] at hparts
  intro a ha
  simp only [JoinedRow.aliases, List.map_append, hparts, List.map_cons, List.map_nil]
  rcases List.mem_cons.1 ha with rfl | ha
  · exact List.mem_append_right _ (List.mem_singleton_self _)
  · exact List.mem_append_left _ (List.mem_reverse.2 ha)

/-! ## Left joins with at most one partner -/

/-- A join finds at most one partner for every value. -/
def AtMostOne (db : Database) (join : JoinClause) : Prop :=
  ∀ v, (db.partners join v).length ≤ 1

/-- No two rows of a table have the same value in a column, missing values aside. -/
def UniqueIn (db : Database) (table column : String) : Prop :=
  (db.rows table).Pairwise fun a b => a.value column = b.value column → a.value column = .null

/-- A join on a column without repeated values finds at most one partner. -/
theorem atMostOne_of_uniqueIn (h : db.UniqueIn join.table join.onColumn) : db.AtMostOne join := by
  intro v
  unfold partners
  split
  · exact Nat.zero_le 1
  · next hv =>
    have hv : v ≠ .null := fun e => hv (Value.isNull_iff.2 e)
    have pairs := List.Pairwise.filter
      (fun row : Row => decide (OrderedMap.get? row join.onColumn = some v)) h
    match hp : (db.rows join.table).filter
      fun row => decide (OrderedMap.get? row join.onColumn = some v) with
    | [] => exact Nat.zero_le 1
    | [partner] => exact Nat.le_refl 1
    | partner :: another :: rest =>
      -- Both partners would have the value `v`.
      have value_eq : ∀ row ∈ partner :: another :: rest, Row.value row join.onColumn = v := by
        intro row hrow
        rw [← hp, List.mem_filter] at hrow
        rw [Row.value, of_decide_eq_true hrow.2]
        rfl
      rw [hp] at pairs
      have two := (List.pairwise_cons.1 pairs).1 another List.mem_cons_self
      rw [value_eq partner List.mem_cons_self,
        value_eq another (List.mem_cons_of_mem partner List.mem_cons_self)] at two
      exact absurd (two rfl) hv

/-- A joined row with its first partner, or with none. -/
def link (db : Database) (row : JoinedRow) (join : JoinClause) : JoinedRow :=
  (join.aliasName, (db.partners join (row.read join.other)).head?) :: row

/-- A left join with at most one partner keeps each row once. -/
theorem extended_single (hk : join.kind = .left) (h : db.AtMostOne join) :
    db.extended join row = [db.link row join] := by
  have hlen := h (row.read join.other)
  rw [extended_left hk, link]
  rcases hp : db.partners join (row.read join.other) with _ | ⟨partner, _ | ⟨another, rest⟩⟩
  · rfl
  · rfl
  · -- There are no two partners.
    rw [hp] at hlen
    simp at hlen

/-- Left joins with at most one partner keep each row once. -/
theorem joinedTo_single {joins : List JoinClause}
    (h : ∀ join ∈ joins, join.kind = .left ∧ db.AtMostOne join) :
    db.joinedTo joins [row] = [joins.foldl db.link row] := by
  induction joins generalizing row with
  | nil => rfl
  | cons join joins ih =>
    obtain ⟨hk, hone⟩ := h join List.mem_cons_self
    rw [joinedTo_cons, extended_single hk hone, List.flatMap_singleton, List.foldl_cons]
    exact ih fun j hj => h j (List.mem_cons_of_mem join hj)

/-- A link does not change the part for another alias. -/
theorem lookup_link {a : String} (h : a ≠ join.aliasName) :
    (db.link row join).lookup a = row.lookup a := by
  have ha : (a == join.aliasName) = false := by simpa using h
  rw [link, List.lookup_cons, ha]

/-- The part that a link adds. -/
theorem lookup_link_self :
    (db.link row join).lookup join.aliasName =
      some (db.partners join (row.read join.other)).head? := by
  rw [link, List.lookup_cons_self]

/-- Links do not change the part for another alias. -/
theorem lookup_foldl_link {joins : List JoinClause} {a : String}
    (h : a ∉ joins.map JoinClause.aliasName) :
    (joins.foldl db.link row).lookup a = row.lookup a := by
  induction joins generalizing row with
  | nil => rfl
  | cons join joins ih =>
    rw [List.map_cons, List.mem_cons, not_or] at h
    rw [List.foldl_cons, ih h.2, lookup_link h.1]

/-! ## Rows that satisfy the equations of joins -/

/-- The part of a joined row for the root is the given row, and its part for the alias of each join
is the partner that the join finds for it. -/
structure Completes (db : Database) (root : String) (r : Row) (joins : List JoinClause)
    (row : JoinedRow) : Prop where
  /-- The part for the root. -/
  root_part : row.lookup root = some (some r)
  /-- The part for the alias of a join. -/
  partner : ∀ join ∈ joins,
    row.lookup join.aliasName = some (db.partners join (row.read join.other)).head?

/-- A row that satisfies the equations of joins satisfies those of fewer joins. -/
theorem Completes.mono {root : String} {r : Row} {joins others : List JoinClause}
    (hsub : others ⊆ joins) (h : db.Completes root r joins row) : db.Completes root r others row :=
  ⟨h.root_part, fun j hj => h.partner j (hsub hj)⟩

/-- Linking the joins one after the other satisfies the equation of each, if no alias is taken
twice. -/
theorem partner_foldl_link {joins : List JoinClause} (hb : JoinsBound row.aliases joins)
    (hn : (joins.map JoinClause.aliasName).Nodup) (hfresh : ∀ j ∈ joins, j.aliasName ∉ row.aliases)
    {j : JoinClause} (hj : j ∈ joins) :
    (joins.foldl db.link row).lookup j.aliasName =
      some (db.partners j ((joins.foldl db.link row).read j.other)).head? := by
  induction joins generalizing row with
  | nil => exact absurd hj List.not_mem_nil
  | cons join joins ih =>
    rw [List.map_cons, List.nodup_cons] at hn
    rw [List.foldl_cons]
    rcases List.mem_cons.1 hj with rfl | hj
    · -- The alias that the join refers to is bound before, so no link changes its part.
      have hother : j.other.aliasName ≠ j.aliasName := fun e =>
        hfresh j List.mem_cons_self (e ▸ hb.1)
      have hlater : j.other.aliasName ∉ joins.map JoinClause.aliasName := by
        intro hmem
        obtain ⟨k, hk, hka⟩ := List.mem_map.1 hmem
        exact hfresh k (List.mem_cons_of_mem j hk) (hka ▸ hb.1)
      have hread : (joins.foldl db.link (db.link row j)).read j.other = row.read j.other :=
        JoinedRow.read_congr ((lookup_foldl_link hlater).trans (lookup_link hother))
      rw [lookup_foldl_link hn.1, lookup_link_self, hread]
    · have hstill : ∀ k ∈ joins, k.aliasName ∉ (db.link row join).aliases := by
        intro k hk
        show k.aliasName ∉ join.aliasName :: row.aliases
        rw [List.mem_cons, not_or]
        exact ⟨fun e => hn.1 (e ▸ List.mem_map_of_mem hk), hfresh k (List.mem_cons_of_mem join hk)⟩
      exact ih hb.2 hn.2 hstill hj

/-- Linking the joins one after the other to a root row satisfies their equations, if no alias is
taken twice. -/
theorem completes_foldl_link {root : String} {r : Row} {joins : List JoinClause}
    (hb : JoinsBound [root] joins) (hn : (root :: joins.map JoinClause.aliasName).Nodup) :
    db.Completes root r joins (joins.foldl db.link [(root, some r)]) := by
  obtain ⟨hroot, hn⟩ := List.nodup_cons.1 hn
  have hfresh : ∀ j ∈ joins, j.aliasName ∉ JoinedRow.aliases [(root, some r)] := by
    intro j hj hmem
    have e : j.aliasName = root := List.mem_singleton.1 hmem
    exact hroot (e ▸ List.mem_map_of_mem hj)
  have hbound : JoinsBound (JoinedRow.aliases [(root, some r)]) joins := hb
  constructor
  · rw [lookup_foldl_link hroot, List.lookup_cons_self]
  · exact fun j hj => partner_foldl_link hbound hn hfresh hj

/-- Two rows that agree on the bound aliases and satisfy the equations of the same joins agree on
the aliases of the joins. -/
theorem lookup_eq_of_partners {bound : List String} {joins : List JoinClause}
    (hb : JoinsBound bound joins)
    (h : ∀ j ∈ joins, row.lookup j.aliasName = some (db.partners j (row.read j.other)).head?)
    (h' : ∀ j ∈ joins, other.lookup j.aliasName = some (db.partners j (other.read j.other)).head?)
    (hbound : ∀ a ∈ bound, row.lookup a = other.lookup a) :
    ∀ a ∈ joins.map JoinClause.aliasName, row.lookup a = other.lookup a := by
  induction joins generalizing bound with
  | nil => exact fun a ha => absurd ha List.not_mem_nil
  | cons join joins ih =>
    obtain ⟨hfirst, hrest⟩ := List.forall_mem_cons.1 h
    obtain ⟨hfirst', hrest'⟩ := List.forall_mem_cons.1 h'
    -- The alias that the join refers to is bound before it, so the rows agree on it by then.
    have here : row.lookup join.aliasName = other.lookup join.aliasName := by
      rw [hfirst, hfirst', JoinedRow.read_congr (hbound _ hb.1)]
    exact List.forall_mem_cons.2
      ⟨here, ih hb.2 hrest hrest' (List.forall_mem_cons.2 ⟨here, hbound⟩)⟩

/-- Two rows that satisfy the equations of the same joins have the same parts for their aliases. -/
theorem Completes.lookup_eq {root : String} {r : Row} {joins : List JoinClause}
    (hb : JoinsBound [root] joins) (h : db.Completes root r joins row)
    (h' : db.Completes root r joins other) :
    ∀ a ∈ root :: joins.map JoinClause.aliasName, row.lookup a = other.lookup a := by
  have hroot : row.lookup root = other.lookup root := h.root_part.trans h'.root_part.symm
  have hbound : ∀ a ∈ [root], row.lookup a = other.lookup a := List.forall_mem_singleton.2 hroot
  exact List.forall_mem_cons.2 ⟨hroot, lookup_eq_of_partners hb h.partner h'.partner hbound⟩

end Database

end RowScope
