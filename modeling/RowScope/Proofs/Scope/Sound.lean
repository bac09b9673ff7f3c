import RowScope.Proofs.Association.Existence
import RowScope.Proofs.Memory.Execution
import RowScope.Scope

/-!
# Sound scopes

A condition with its joins is sound for a root table of a catalog (`Sound`) if the joins are direct
and each refers to an alias before it, no alias is taken twice, and the condition names no alias
besides these. In a database that honours the catalog, the joins of a sound condition then keep the
root rows one to one, and whether a root row is selected depends on it alone
(`Database.Selects`, `select_eq`). Further joins do not change that, so a scope under one more
condition selects the rows that both select (`selects_constrain`). Conditions along paths that the
catalog follows are sound (`Sound.existsAlong`, `Sound.existsAlongAny`).
-/

namespace RowScope

/-- A condition on a root table and joins that may stand in a scope. -/
structure Sound (c : Catalog) (start : Table) (predicate : Predicate) (joins : List JoinClause) :
    Prop where
  /-- Every join refers to an alias before it. -/
  bound : JoinsBound [start.name] joins
  /-- No alias is taken twice. -/
  distinct : (start.name :: joins.map JoinClause.aliasName).Nodup
  /-- Every join is a left join to at most one row. -/
  direct : ∀ j ∈ joins, ∃ steps, DotFree steps ∧ c.DirectJoin start steps j
  /-- The condition names the root table and the joins only. -/
  closed : predicate.Closed (start.name :: joins.map JoinClause.aliasName)

/-- A path of the catalog from a root table, whose aliases are not taken by that table. -/
structure Catalog.Follows (c : Catalog) (start : Table) (p : RelationPath) : Prop where
  /-- The path begins at the root table. -/
  root_eq : p.root = start.name
  /-- The path knows the key of the root table. -/
  key_eq : p.rootKey = start.key
  /-- No step goes by the name of the root table. -/
  root_free : start.name ∉ p.hops.map Hop.aliasName
  /-- No step goes by the alias that the root table has in subqueries. -/
  inner_free : subqueryRoot ∉ p.hops.map Hop.aliasName
  /-- The steps of the path are found in the catalog. -/
  found : ∃ names, DotFree names ∧
    c.hopsFrom start.name start none names = .ok (p.hops, p.terminalColumns)

/-- A path of the catalog from a root table and a condition on the rows at its end, which together
make a sound condition on the root table. -/
structure Catalog.Serves (c : Catalog) (start : Table) (target : RelationPath × Predicate) : Prop
    extends Fits start.name start.key target where
  /-- The steps of the path are found in the catalog. -/
  found : ∃ names, DotFree names ∧
    c.hopsFrom start.name start none names = .ok (target.1.hops, target.1.terminalColumns)

namespace Catalog

variable {c : Catalog} {start : Table} {p : RelationPath} {v : Predicate}

/-- The catalog follows the path of a sound condition. -/
theorem Serves.follows {target : RelationPath × Predicate} (h : c.Serves start target) :
    c.Follows start target.1 :=
  ⟨h.root_eq, h.key_eq, h.root_free, h.inner_free, h.found⟩

/-- A condition on the rows at the end of a path that the catalog follows is a sound condition on
the root table. -/
theorem Follows.serves (h : c.Follows start p) (hv : Reads (p, v)) : c.Serves start (p, v) :=
  ⟨⟨hv, h.root_eq, h.key_eq, h.root_free, h.inner_free⟩, h.found⟩

/-- The catalog follows the paths that it finds along names without points, if their aliases are
free. -/
theorem follows_of_path (hc : c.Coherent) {root : String} {names : List String}
    (hp : c.path root names = .ok p) (hdots : DotFree names)
    (hroot : root ∉ p.hops.map Hop.aliasName) (hinner : subqueryRoot ∉ p.hops.map Hop.aliasName) :
    ∃ start, c.table? root = some start ∧ c.Follows start p := by
  obtain ⟨start, hstart, hhops, hroot', hkey⟩ := path_eq_ok hp
  have hname : start.name = root := hc.table_name hstart
  subst hname
  exact ⟨start, hstart, hroot', hkey, hroot, hinner, names, hdots, hhops⟩

end Catalog

namespace Sound

variable {c : Catalog} {start : Table} {predicate : Predicate} {joins : List JoinClause}

/-- A sound condition without joins. -/
theorem of_closed (h : predicate.Closed [start.name]) : Sound c start predicate [] where
  bound := True.intro
  distinct := List.nodup_cons.2 ⟨List.not_mem_nil, List.nodup_nil⟩
  direct _ hj := absurd hj List.not_mem_nil
  closed := h

/-- The joins of a sound condition find at most one partner each. -/
theorem single (hc : c.Coherent) {db : Database} (hdb : db.Honours c)
    (h : Sound c start predicate joins) : ∀ j ∈ joins, j.kind = .left ∧ db.AtMostOne j := by
  intro j hj
  obtain ⟨steps, -, hdirect⟩ := h.direct j hj
  exact ⟨hdirect.kind_eq, hdirect.atMostOne hc hdb⟩

/-- The scope that leaves a query as it is is sound. -/
theorem identity : Sound c start Scope.identity.predicate Scope.identity.extraJoins :=
  of_closed (Predicate.closed_of_atoms_eq_nil rfl)

/-- A condition that no row meets is sound. -/
theorem never : Sound c start .never [] := of_closed (Predicate.closed_of_atoms_eq_nil rfl)

/-- A sound scope under one more sound condition is sound. -/
theorem constrain {s : Scope} {a : Association} (hs : Sound c start s.predicate s.extraJoins)
    (ha : Sound c start a.predicate a.extraJoins) :
    Sound c start (s.constrain a).predicate (s.constrain a).extraJoins where
  bound := by
    refine joinsBound_mergeJoins hs.bound (ha.bound.mono ?_)
    exact List.subset_append_right _ _
  distinct := by
    -- Merging leaves out joins whose alias is taken, and no join goes by the name of the root.
    obtain ⟨hroot, hdistinct⟩ := List.nodup_cons.1 hs.distinct
    refine List.nodup_cons.2 ⟨fun hmem => ?_, nodup_mergeJoins _ hdistinct⟩
    obtain ⟨j, hj, he⟩ := List.mem_map.1 hmem
    rcases mem_of_mem_mergeJoins hj with hj | hj
    · exact hroot (he ▸ List.mem_map_of_mem hj)
    · exact (List.nodup_cons.1 ha.distinct).1 (he ▸ List.mem_map_of_mem hj)
  direct j hj := (mem_of_mem_mergeJoins hj).elim (hs.direct j) (ha.direct j)
  closed := by
    -- Merging loses no alias of either list.
    have hfirst : s.extraJoins.map JoinClause.aliasName ⊆
        (mergeJoins s.extraJoins a.extraJoins).map JoinClause.aliasName :=
      List.map_subset _ (mergeJoins_extends s.extraJoins a.extraJoins).subset
    have hsecond := aliases_subset_mergeJoins s.extraJoins a.extraJoins
    apply Predicate.closed_conj
    intro part hpart
    rcases List.mem_cons.1 hpart with rfl | hpart
    · exact hs.closed.mono (List.cons_subset_cons start.name hfirst)
    · rw [List.mem_singleton.1 hpart]
      exact ha.closed.mono (List.cons_subset_cons start.name hsecond)

/-- The joins that a path of the catalog has outside of subqueries are direct. -/
theorem direct_existsAlong (hc : c.Coherent) {p : RelationPath} {v : Predicate} {mode : Mode}
    (h : c.Follows start p) {j : JoinClause} (hj : j ∈ (p.existsAlong v mode).extraJoins) :
    ∃ steps, DotFree steps ∧ c.DirectJoin start steps j := by
  rw [RelationPath.extraJoins_existsAlong] at hj
  split at hj
  · exact absurd hj List.not_mem_nil
  · next hf =>
    obtain ⟨names, hdots, hhops⟩ := h.found
    rw [RelationPath.joins, h.root_eq] at hj
    exact Catalog.directJoin_of_mem hc .here hhops
      (RelationPath.fansOut_eq_false.1 (Bool.eq_false_iff.2 hf))
      (fun _ hmem => absurd hmem List.not_mem_nil) hdots hj

/-- A condition on the row that a path of the catalog leads to is sound. -/
theorem existsAlong (hc : c.Coherent) {p : RelationPath} {v : Predicate} (h : c.Follows start p)
    (hcols : ∀ col ∈ v.columns, col.aliasName = p.terminalAlias) (hflat : v.subqueries = [])
    (mode : Mode) :
    Sound c start (p.existsAlong v mode).predicate (p.existsAlong v mode).extraJoins where
  bound := h.root_eq ▸ RelationPath.joinsBound_existsAlong
  distinct := by
    rw [RelationPath.extraJoins_existsAlong]
    split
    · exact List.nodup_cons.2 ⟨List.not_mem_nil, List.nodup_nil⟩
    · obtain ⟨names, -, hhops⟩ := h.found
      have hfree := h.root_free
      rw [RelationPath.joins, RelationPath.aliases_joinsFrom]
      rw [Catalog.aliases_hopsFrom hc hhops] at hfree ⊢
      exact List.nodup_cons.2 ⟨hfree, hopAliases_nodup none names⟩
  direct _ hj := direct_existsAlong hc h hj
  closed := h.root_eq ▸ RelationPath.closed_existsAlong hcols hflat mode

/-- The joins of several paths of the catalog are direct. -/
theorem direct_targetJoins (hc : c.Coherent) {targets : List (RelationPath × Predicate)}
    {mode : Mode} (h : ∀ t ∈ targets, c.Serves start t) {j : JoinClause}
    (hj : j ∈ targetJoins targets mode) : ∃ steps, DotFree steps ∧ c.DirectJoin start steps j := by
  obtain ⟨t, ht, hj⟩ := List.mem_flatMap.1 hj
  exact direct_existsAlong hc (h t ht).follows hj

/-- The joins of several paths refer to the root table or to an alias before them. -/
theorem joinsBound_targetJoins {targets : List (RelationPath × Predicate)} {mode : Mode}
    (h : ∀ t ∈ targets, c.Serves start t) {bound : List String} (hroot : start.name ∈ bound) :
    JoinsBound bound (targetJoins targets mode) := by
  -- The joins of the paths before leave further aliases bound, so the induction is over any such.
  induction targets generalizing bound with
  | nil => exact True.intro
  | cons t targets ih =>
    obtain ⟨hfirst, hrest⟩ := List.forall_mem_cons.1 h
    have hpath : JoinsBound [start.name] (t.1.existsAlong t.2 mode).extraJoins :=
      hfirst.root_eq ▸ RelationPath.joinsBound_existsAlong
    have hsub : [start.name] ⊆ bound := List.cons_subset.2 ⟨hroot, List.nil_subset _⟩
    have hothers := ih hrest (List.mem_append_right
      ((t.1.existsAlong t.2 mode).extraJoins.map JoinClause.aliasName).reverse hroot)
    rw [targetJoins, List.flatMap_cons]
    exact joinsBound_append.2 ⟨hpath.mono hsub, hothers⟩

/-- No join of several paths goes by the name of the root table. -/
theorem root_free_targetJoins {targets : List (RelationPath × Predicate)} {mode : Mode}
    (h : ∀ t ∈ targets, c.Serves start t) :
    start.name ∉ (targetJoins targets mode).map JoinClause.aliasName := by
  intro hroot
  obtain ⟨j, hj, he⟩ := List.mem_map.1 hroot
  obtain ⟨t, ht, hj⟩ := List.mem_flatMap.1 hj
  rw [RelationPath.extraJoins_existsAlong] at hj
  split at hj
  · exact absurd hj List.not_mem_nil
  · have hstep : start.name ∈ t.1.hops.map Hop.aliasName := by
      rw [← he, ← RelationPath.aliases_joinsFrom .left t.1.root]
      exact List.mem_map_of_mem hj
    exact (h t ht).root_free hstep

/-- A condition on the rows that some paths of the catalog lead to is sound. -/
theorem existsAlongAny (hc : c.Coherent) {targets : List (RelationPath × Predicate)}
    (h : ∀ t ∈ targets, c.Serves start t) (mode : Mode) :
    Sound c start (existsAlongAny targets mode).predicate
      (existsAlongAny targets mode).extraJoins := by
  rw [extraJoins_existsAlongAny, predicate_existsAlongAny]
  have hmem : mergeJoins [] (targetJoins targets mode) ⊆ targetJoins targets mode :=
    fun j hj => (mem_of_mem_mergeJoins hj).resolve_left List.not_mem_nil
  have hbound : JoinsBound [start.name] (mergeJoins [] (targetJoins targets mode)) :=
    joinsBound_mergeJoins True.intro (joinsBound_targetJoins h (List.mem_singleton_self _))
  have hfree : start.name ∉
      (mergeJoins [] (targetJoins targets mode)).map JoinClause.aliasName :=
    fun hroot => root_free_targetJoins h (List.map_subset _ hmem hroot)
  have hclosed : ∀ part ∈ targets.map fun t => (t.1.existsAlong t.2 mode).predicate,
      part.Closed (start.name ::
        (mergeJoins [] (targetJoins targets mode)).map JoinClause.aliasName) := by
    -- Each part is closed under the joins of its own path, which are among the merged ones.
    intro part hpart
    obtain ⟨t, ht, rfl⟩ := List.mem_map.1 hpart
    have hone := existsAlong hc (h t ht).follows (h t ht).columns (h t ht).flat mode
    refine hone.closed.mono (List.cons_subset_cons start.name fun a ha => ?_)
    obtain ⟨j, hj, rfl⟩ := List.mem_map.1 ha
    have hjoin : j ∈ targetJoins targets mode := List.mem_flatMap.2 ⟨t, ht, hj⟩
    exact aliases_subset_mergeJoins [] _ (List.mem_map_of_mem hjoin)
  refine ⟨hbound, List.nodup_cons.2 ⟨hfree, nodup_mergeJoins _ List.nodup_nil⟩,
    fun j hj => direct_targetJoins hc h (hmem hj), ?_⟩
  cases mode with
  | including => exact Predicate.closed_disj hclosed
  | excluding => exact Predicate.closed_conj hclosed

end Sound

/-! ## Selection -/

namespace Database

variable {db : Database} {c : Catalog} {start : Table} {predicate : Predicate}
  {joins : List JoinClause} {r : Row}

/-- A root row with its partners meets a condition. -/
def Selects (db : Database) (root : String) (predicate : Predicate) (joins : List JoinClause)
    (r : Row) : Prop :=
  db.Meets (joins.foldl db.link [(root, some r)]) predicate

instance (db : Database) (root : String) (predicate : Predicate) (joins : List JoinClause)
    (r : Row) : Decidable (db.Selects root predicate joins r) :=
  inferInstanceAs (Decidable (db.Meets _ _))

/-- A root row linked with the partners of sound joins satisfies their equations. -/
theorem completes_of_sound (db : Database) (r : Row) (h : Sound c start predicate joins) :
    db.Completes start.name r joins (joins.foldl db.link [(start.name, some r)]) :=
  completes_foldl_link h.bound h.distinct

/-- Whether a root row is selected can be told at any row that satisfies the equations of the joins,
whatever else is joined to it. -/
theorem selects_iff {row : JoinedRow} (h : Sound c start predicate joins)
    (hrow : db.Completes start.name r joins row) :
    db.Selects start.name predicate joins r ↔ db.Meets row predicate := by
  have hlookup := (completes_of_sound db r h).lookup_eq h.bound hrow
  unfold Selects Meets
  rw [truth_congr fun col hcol => hlookup _ (h.closed.columns col hcol)]

/-- The predicate of a sound condition evaluates at every row with the joins. -/
theorem evaluates_of_sound {row : JoinedRow} (h : Sound c start predicate joins)
    (hrow : db.Completes start.name r joins row) : db.Evaluates row predicate :=
  evaluates_of_closed (h.closed.mono hrow.aliases_subset)

/-- Every row is selected by the scope that leaves a query as it is. -/
theorem selects_identity (root : String) (r : Row) :
    db.Selects root Scope.identity.predicate Scope.identity.extraJoins r := truth_always

/-- A scope under one more condition selects the rows that both select. -/
theorem selects_constrain {s : Scope} {a : Association}
    (hs : Sound c start s.predicate s.extraJoins) (ha : Sound c start a.predicate a.extraJoins) :
    db.Selects start.name (s.constrain a).predicate (s.constrain a).extraJoins r ↔
      db.Selects start.name s.predicate s.extraJoins r ∧
        db.Selects start.name a.predicate a.extraJoins r := by
  have hrow := completes_of_sound db r (hs.constrain ha)
  have hdirect : ∀ j ∈ s.extraJoins ++ a.extraJoins,
      ∃ steps, DotFree steps ∧ c.DirectJoin start steps j :=
    fun j hj => (List.mem_append.1 hj).elim (hs.direct j) (ha.direct j)
  have hagree := Catalog.joinsAgree_of_direct hdirect
  -- The merged joins are those of both.
  have hfirst := hrow.mono (mergeJoins_extends s.extraJoins a.extraJoins).subset
  have hsecond := hrow.mono (subset_mergeJoins hagree)
  rw [selects_iff (hs.constrain ha) hrow, selects_iff hs hfirst, selects_iff ha hsecond]
  show db.Meets _ (.conj [s.predicate, a.predicate]) ↔ _
  rw [meets_conj]
  · simp
  · intro part hpart
    rcases List.mem_cons.1 hpart with rfl | hpart
    · exact evaluates_of_sound hs hfirst
    · rw [List.mem_singleton.1 hpart]
      exact evaluates_of_sound ha hsecond

/-- A condition along a path of the catalog selects a root row with a key if a row that is related
along it meets the condition or, in mode `excluding`, if none does. -/
theorem selects_existsAlong (hc : c.Coherent) (hdb : db.Honours c) {p : RelationPath}
    {v : Predicate} (h : c.Serves start (p, v)) (hr : db.Keyed start.name start.key r)
    (mode : Mode) :
    db.Selects start.name (p.existsAlong v mode).predicate (p.existsAlong v mode).extraJoins r ↔
      mode.Keeps (db.Reaches (p, v) r) := by
  have hsound := Sound.existsAlong hc h.follows h.columns h.flat mode
  exact meets_existsAlong h.toFits hr (fun j hj => (hsound.single hc hdb j hj).2)
    (completes_of_sound db r hsound)

/-- A condition along some paths of the catalog selects a root row with a key if a row that is
related along one of them meets its condition or, in mode `excluding`, if none does. -/
theorem selects_existsAlongAny (hc : c.Coherent) (hdb : db.Honours c)
    {targets : List (RelationPath × Predicate)} (h : ∀ t ∈ targets, c.Serves start t)
    (hr : db.Keyed start.name start.key r) (mode : Mode) :
    db.Selects start.name (existsAlongAny targets mode).predicate
        (existsAlongAny targets mode).extraJoins r ↔
      mode.Keeps (∃ t ∈ targets, db.Reaches t r) := by
  have hsound := Sound.existsAlongAny hc h mode
  have hdirect : ∀ j ∈ targetJoins targets mode,
      ∃ steps, DotFree steps ∧ c.DirectJoin start steps j :=
    fun j hj => Sound.direct_targetJoins hc h hj
  refine meets_existsAlongAny (fun t ht => (h t ht).toFits) hr
    (Catalog.joinsAgree_of_direct hdirect) (fun j hj => ?_) (completes_of_sound db r hsound)
  obtain ⟨steps, -, hj⟩ := hdirect j hj
  exact hj.atMostOne hc hdb

/-- The joins of a sound condition keep the root rows one to one. -/
theorem joined_of_sound (hc : c.Coherent) (hdb : db.Honours c) (h : Sound c start predicate joins)
    (table : String) :
    db.joined table start.name joins =
      .ok ((db.rows table).map fun row => joins.foldl db.link [(start.name, some row)]) := by
  rw [joined_eq h.bound, List.flatMap_def, Except.ok.injEq]
  have each : (fun row => db.joinedTo joins [[(start.name, some row)]]) =
      fun row => [joins.foldl db.link [(start.name, some row)]] := by
    funext row
    exact joinedTo_single (h.single hc hdb)
  rw [each, ← List.flatMap_def, List.map_eq_flatMap]

/-- A sound condition selects the root rows that meet it with their partners. -/
theorem selectsRows_of_sound (hc : c.Coherent) (hdb : db.Honours c) {a : Association}
    (h : Sound c start a.predicate a.extraJoins) :
    db.SelectsRows start.name a fun r => db.Selects start.name a.predicate a.extraJoins r :=
  selectsRows_of_map (joined_of_sound hc hdb h start.name)
    (fun r => (completes_of_sound db r h).root_part)
    (fun r _ => evaluates_of_sound h (completes_of_sound db r h))

/-- The id of a joined row is that of its root part. -/
theorem rowId_eq {root : String} {row : JoinedRow} {id : Int64}
    (hrow : row.lookup root = some (some r)) (hid : r.value "id" = .int id) :
    rowId root row = .ok id := by
  simp only [rowId, JoinedRow.value, hrow, hid]
  rfl

/-- The ids of the root rows that a condition selects, in the order of the rows. -/
def selectedIds (db : Database) (root : String) (predicate : Predicate) (joins : List JoinClause) :
    List Int64 :=
  ((db.rows root).filter fun r => db.Selects root predicate joins r).filterMap Row.id?

/-- The id of a row is selected exactly if the row is. -/
theorem Identified.mem_selectedIds (h : db.Identified) {root : String} {id : Int64}
    (hr : r ∈ db.rows root) (hid : r.id? = some id) :
    id ∈ db.selectedIds root predicate joins ↔ db.Selects root predicate joins r := by
  unfold selectedIds
  rw [h.mem_filter_ids hr hid, decide_eq_true_eq]

/-- The selected ids are the ids with a property that belongs to the ids of the selected rows. -/
theorem selectedIds_eq_filter {root : String} {keep : Int64 → Prop} [DecidablePred keep]
    (h : ∀ r ∈ db.rows root, ∀ id, r.id? = some id →
      (keep id ↔ db.Selects root predicate joins r)) :
    db.selectedIds root predicate joins = (db.ids root).filter fun id => keep id := by
  apply filterMap_filter_id
  intro r hr id hid
  rw [decide_eq_decide]
  exact h r hr id hid

/-- Two conditions of which each selects the rows that the other one drops share out the ids. -/
theorem selectedIds_append_perm {root : String} {others : List JoinClause} {other : Predicate}
    (h : ∀ r ∈ db.rows root,
      db.Selects root other others r ↔ ¬ db.Selects root predicate joins r) :
    (db.selectedIds root predicate joins ++ db.selectedIds root other others).Perm
      (db.ids root) := by
  -- The rows of the second condition are those that a filter by the first one drops.
  have hfilter : (db.rows root).filter (fun r => db.Selects root other others r) =
      (db.rows root).filter fun r => !decide (db.Selects root predicate joins r) := by
    apply List.filter_congr
    intro r hr
    rw [← decide_not, decide_eq_decide]
    exact h r hr
  unfold selectedIds ids
  rw [← List.filterMap_append, hfilter]
  exact (List.filter_append_perm _ (db.rows root)).filterMap Row.id?

/-- A sound scope gives the ids of the root rows that it selects. -/
theorem select_eq (hc : c.Coherent) (hdb : db.Honours c) {domain : Domain} {s : Scope}
    (hstart : start.name = domain.rootTable) (hs : Sound c start s.predicate s.extraJoins)
    (hid : ∀ row ∈ db.rows domain.rootTable, ∃ id, Row.value row "id" = .int id) :
    db.select domain s = .ok (db.selectedIds domain.rootTable s.predicate s.extraJoins) := by
  have hjoined := joined_of_sound hc hdb hs domain.rootTable
  have hcompletes := fun row => completes_of_sound db row hs
  have heval := fun row => evaluates_of_sound hs (hcompletes row)
  rw [hstart] at hjoined hcompletes heval
  -- At each row the condition has a truth value, and the id is read off the root part.
  have hstep : ∀ row ∈ db.rows domain.rootTable,
      (do
        if (← db.truth (s.extraJoins.foldl db.link [(domain.rootTable, some row)]) s.predicate) =
            some true then
          return some (← rowId domain.rootTable
            (s.extraJoins.foldl db.link [(domain.rootTable, some row)]))
        else return none : Except ExecutionFault (Option Int64)) =
      .ok (if db.Selects domain.rootTable s.predicate s.extraJoins row then Row.id? row
        else none) := by
    intro row hrow
    obtain ⟨t, ht⟩ := heval row
    obtain ⟨id, hidrow⟩ := hid row hrow
    have hselects : db.Selects domain.rootTable s.predicate s.extraJoins row ↔ t = some true := by
      unfold Selects Meets
      rw [ht, Except.ok.injEq]
    rw [ht, rowId_eq (hcompletes row).root_part hidrow, Row.id?, hidrow]
    simp only [hselects, bind, Except.bind, pure, Except.pure]
    split <;> rfl
  unfold select
  simp only [hjoined, bind, Except.bind]
  simp only [bind, Except.bind] at hstep
  rw [List.mapM_map]
  simp only [Function.comp_def, Traversal.mapM_eq_ok hstep]
  unfold selectedIds
  show Except.ok (((db.rows domain.rootTable).map _).filterMap id) = _
  rw [List.filterMap_map, List.filterMap_filter, Except.ok.injEq]
  simp

end Database

end RowScope
