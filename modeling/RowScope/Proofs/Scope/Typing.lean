import Mathlib.Data.List.Nodup
import RowScope.Proofs.Memory.Execution
import RowScope.Proofs.Relation.Typing
import RowScope.Proofs.Scope.Origin
import RowScope.Proofs.Scope.Selection

/-!
# Compiled scopes are well typed

A scope is well typed in a catalog (`Scope.WellTyped`) if the FROM lists of the query and of every
subquery give each alias once, every join refers to a table before it, and every column that is
named is listed by the table under its alias. A well typed scope never names an alias that no table
goes by, whatever the rows are (`Scope.WellTyped.select_ne_unbound`). Every compiled scope is well
typed, in every catalog that has the paths (`compiled_wellTyped`): what the rules read is what the
paths have been found to list.
-/

namespace RowScope

/-- The tables that a subquery selects from. -/
def Subquery.fromList (s : Subquery) : FromList :=
  (s.aliasName, s.table) :: s.joins.map JoinClause.binding

/-- The tables that the query of a scope selects from. -/
def Scope.fromList (s : Scope) (root : String) : FromList :=
  (root, root) :: s.extraJoins.map JoinClause.binding

/-- A subquery selects from typed joins to its table, which goes by the alias of root tables, names
columns of these tables only, and has no subquery inside. -/
structure Subquery.WellTyped (c : Catalog) (s : Subquery) : Prop where
  /-- The table goes by the alias of root tables in subqueries. -/
  alias_eq : s.aliasName = subqueryRoot
  /-- The joins are typed. -/
  joins : c.TypesJoins [(s.aliasName, s.table)] s.joins
  /-- The key column is listed. -/
  key : c.Lists s.fromList s.keyColumn
  /-- The columns of the filter are listed. -/
  filter : ∀ col ∈ s.filter.columns, c.Lists s.fromList col
  /-- The columns of the condition on groups are listed. -/
  having : ∀ col ∈ s.having.columns, c.Lists s.fromList col
  /-- There is no subquery inside. -/
  flat : s.filter.subqueries = [] ∧ s.having.subqueries = []

/-- A scope of a root table takes up typed joins and names columns of the root table and of the
joined tables only, and its subqueries are well typed. -/
structure Scope.WellTyped (c : Catalog) (root : String) (s : Scope) : Prop where
  /-- The joins are typed. -/
  joins : c.TypesJoins [(root, root)] s.extraJoins
  /-- The columns of the condition are listed. -/
  columns : ∀ col ∈ s.predicate.columns, c.Lists (s.fromList root) col
  /-- The subqueries are well typed. -/
  subqueries : ∀ q ∈ s.predicate.subqueries, q.WellTyped c

/-! ## Execution -/

/-- The aliases of a FROM list of joins. -/
theorem map_fst_binding (joins : List JoinClause) :
    (joins.map JoinClause.binding).map Prod.fst = joins.map JoinClause.aliasName := by
  rw [List.map_map]
  rfl

/-- A well typed subquery names aliases of its own tables only. -/
theorem Subquery.WellTyped.closed {c : Catalog} {s : Subquery} (h : s.WellTyped c) : s.Closed := by
  have aliases_eq : s.fromList.map Prod.fst = s.aliases := by
    rw [fromList, List.map_cons, map_fst_binding, aliases]
  exact {
    joins := h.joins.joinsBound (List.Subset.refl _)
    filter := fun col hcol => aliases_eq ▸ (h.filter col hcol).bound
    having := fun col hcol => aliases_eq ▸ (h.having col hcol).bound
    filter_flat := h.flat.1
    having_flat := h.flat.2 }

/-- A well typed scope is executed without naming an alias that no table goes by. -/
theorem Scope.WellTyped.select_ne_unbound {c : Catalog} {domain : Domain} {s : Scope}
    (h : s.WellTyped c domain.rootTable) (db : Database) (aliasName : String) :
    db.select domain s ≠ .error (.unboundAlias aliasName) := by
  have hbound : JoinsBound [domain.rootTable] s.extraJoins :=
    h.joins.joinsBound (List.Subset.refl _)
  have hclosed : s.predicate.Closed
      (domain.rootTable :: s.extraJoins.map JoinClause.aliasName) := by
    refine ⟨fun col hcol => ?_, fun q hq => (h.subqueries q hq).closed⟩
    have hmem := (h.columns col hcol).bound
    rwa [fromList, List.map_cons, map_fst_binding] at hmem
  rw [Database.select_of_joined (Database.joined_eq hbound), Ne, Traversal.map_eq_error]
  intro herror
  -- Some row would have no entry, but the condition and the id are found at every row.
  obtain ⟨row, hrow, hentry⟩ := Traversal.error_of_mapM herror
  have haliases := Database.aliases_of_joined hrow
  rw [Database.entry_eq (Database.evaluates_of_closed (hclosed.mono haliases))] at hentry
  split at hentry
  · rw [Traversal.map_eq_error] at hentry
    exact Database.rowId_ne_unbound (haliases List.mem_cons_self) aliasName hentry
  · cases hentry

/-! ## Compiled scopes -/

section Compiled

variable {c : Catalog} {paths : ReadPaths} {user : Option Int64} {q : ReadPath} {start : Table}

/-- The bindings of a path in a FROM list give no alias two tables. -/
theorem agree_pathTables {parent table : String} {kind : JoinKind} {hops : List Hop}
    (h : (parent :: hops.map Hop.aliasName).Nodup) :
    ∀ a ∈ Catalog.pathTables parent table kind hops,
      ∀ b ∈ Catalog.pathTables parent table kind hops, a.1 = b.1 → a = b := by
  intro a ha b hb e
  refine List.inj_on_of_nodup_map ?_ ha hb e
  rwa [Catalog.pathTables, List.map_cons, map_fst_binding, RelationPath.aliases_joinsFrom]

/-- The terminal alias of a path with steps does not depend on the alias of its root. -/
theorem terminalColumn_eq {p : RelationPath} (h : p.hops ≠ []) (parent column : String) :
    p.terminalColumn column = ⟨lastAlias parent p.hops, column⟩ := by
  rw [RelationPath.terminalColumn, RelationPath.terminalAlias_eq, lastAlias_of_ne_nil h p.root]

/-- The terminal key of a path with steps is the key of its last step. -/
theorem terminalKey_eq {p : RelationPath} (h : p.hops ≠ []) :
    ∃ hop ∈ p.hops, p.terminalKey = ⟨hop.aliasName, hop.key⟩ := by
  refine ⟨p.hops.getLast h, List.getLast_mem h, ?_⟩
  rw [RelationPath.terminalKey, RelationPath.terminalAlias, List.getLast?_eq_some_getLast h]

/-- A subquery along a path of some steps is well typed. -/
theorem Subquery.Along.wellTyped (hc : c.Coherent) (hpaths : ReadPaths.resolve c = .ok paths)
    (hstart : c.table? q.root = some start) (hhops : (paths.get q).hops ≠ []) {s : Subquery}
    (h : s.Along paths user q) : s.WellTyped c := by
  obtain ⟨hfound, hroot, hkey⟩ := ReadPaths.hopsFrom_eq hpaths hstart
  obtain ⟨-, hdistinct⟩ := ReadPaths.aliases_separate hc hpaths q
  obtain ⟨-, hcolumns⟩ := ReadPaths.get_spec hpaths q
  have hself : c.table? start.name = some start := hc.table_name hstart ▸ hstart
  -- The tables of the subquery are those of the path, whatever the kind of its joins is.
  have joins : ∀ kind, c.TypesJoins [(subqueryRoot, (paths.get q).root)]
      ((paths.get q).joins subqueryRoot kind) := by
    intro kind
    rw [hroot]
    refine Catalog.typesJoins_of_wired (fun a b ha hb => agree_pathTables hdistinct a ha b hb) ?_
      (RelationPath.joinsBound_joinsFrom kind subqueryRoot (paths.get q).hops)
      (List.Subset.refl _) ?_ (Catalog.wired_joinsFrom hc hself hfound kind subqueryRoot)
    · exact fun b hb => List.mem_singleton.1 hb ▸ List.mem_cons_self
    · rwa [RelationPath.joins, RelationPath.aliases_joinsFrom]
  have key : ∀ kind, c.Lists (Catalog.pathTables subqueryRoot (paths.get q).root kind
      (paths.get q).hops) ⟨subqueryRoot, (paths.get q).rootKey⟩ := by
    intro kind
    rw [hroot, hkey]
    exact ⟨start.name, start, List.mem_cons_self, hself, hc.key_listed hstart⟩
  have asked : ∀ kind v, Asks paths user q v → ∀ col ∈ v.columns,
      c.Lists (Catalog.pathTables subqueryRoot (paths.get q).root kind (paths.get q).hops) col := by
    intro kind v hv col hcol
    obtain ⟨column, hread, rfl⟩ := hv.inspects.columns col hcol
    rw [hroot, terminalColumn_eq hhops subqueryRoot]
    exact Catalog.lists_terminal hc hself hfound kind subqueryRoot (hcolumns column hread)
  have counted : ∀ kind, c.Lists (Catalog.pathTables subqueryRoot (paths.get q).root kind
      (paths.get q).hops) (paths.get q).terminalKey := by
    intro kind
    obtain ⟨hop, hhop, he⟩ := terminalKey_eq hhops
    rw [hroot, he]
    exact Catalog.lists_key hc hfound kind subqueryRoot hhop
  cases h with
  | anyRow hv =>
    exact ⟨rfl, joins .inner, key .inner, asked .inner _ hv,
      fun _ hcol => absurd hcol List.not_mem_nil, hv.inspects.reads.flat, rfl⟩
  | noRow hv =>
    exact ⟨rfl, joins .left, key .left, fun _ hcol => absurd hcol List.not_mem_nil,
      asked .left _ hv, rfl, hv.inspects.reads.flat⟩
  | counted =>
    refine ⟨rfl, joins .left, key .left, fun _ hcol => absurd hcol List.not_mem_nil,
      fun col hcol => ?_, rfl, rfl⟩
    exact List.mem_singleton.1 hcol ▸ counted .left

/-- A binding that the paths of single steps from a root table give. -/
def KnownBinding (paths : ReadPaths) (root : String) (b : String × String) : Prop :=
  b = (root, root) ∨ ∃ q : ReadPath, q.root = root ∧ (paths.get q).fansOut = false ∧
    ∃ j ∈ (paths.get q).outerJoins, b = j.binding

/-- The bindings of a path of single steps are known. -/
theorem knownBinding_of_pathTables {root : String} (hroot : q.root = root)
    (hbegin : (paths.get q).root = root) (hone : (paths.get q).fansOut = false) :
    ∀ b ∈ Catalog.pathTables root root .left (paths.get q).hops, KnownBinding paths root b := by
  intro b hb
  rcases List.mem_cons.1 hb with rfl | hb
  · exact .inl rfl
  · obtain ⟨j, hj, rfl⟩ := List.mem_map.1 hb
    refine .inr ⟨q, hroot, hone, j, ?_, rfl⟩
    rw [RelationPath.outerJoins, RelationPath.joins, hbegin]
    exact hj

/-- The paths of single steps from a root table give no alias two tables. -/
theorem agree_knownBinding (hc : c.Coherent) (hpaths : ReadPaths.resolve c = .ok paths)
    {root : String} (hstart : c.table? root = some start) (a b : String × String)
    (ha : KnownBinding paths root a) (hb : KnownBinding paths root b) (he : a.1 = b.1) : a = b := by
  -- No join goes by the name of the root table.
  have free : ∀ q : ReadPath, q.root = root → ∀ j ∈ (paths.get q).outerJoins,
      j.binding.1 ≠ root := by
    intro q hroot j hj e
    obtain ⟨hfresh, -⟩ := List.nodup_cons.1 (ReadPaths.aliases_separate hc hpaths q).1
    rw [hroot, ← e, ← RelationPath.aliases_joinsFrom .left (paths.get q).root] at hfresh
    exact hfresh (List.mem_map_of_mem hj)
  rcases ha with rfl | ⟨q, hq, hqone, j, hj, rfl⟩ <;>
    rcases hb with rfl | ⟨r, hr, hrone, k, hk, rfl⟩
  · rfl
  · exact absurd he.symm (free r hr k hk)
  · exact absurd he (free q hq j hj)
  · have hagree : JoinsAgree [j, k] := by
      apply Catalog.joinsAgree_of_direct
      intro i hi
      rcases List.mem_cons.1 hi with rfl | hi
      · exact ReadPaths.direct_joins hc hpaths (hq ▸ hstart) hqone hj
      · exact List.mem_singleton.1 hi ▸
          ReadPaths.direct_joins hc hpaths (hr ▸ hstart) hrone hk
    rw [hagree j List.mem_cons_self k (List.mem_cons_of_mem j (List.mem_singleton_self k)) he]

/-- A sound scope that comes from paths is well typed. -/
theorem Traced.wellTyped (hc : c.Coherent) (hpaths : ReadPaths.resolve c = .ok paths)
    {root : String} (hstart : c.table? root = some start) {s : Scope}
    (hs : Sound c start s.predicate s.extraJoins)
    (h : Traced paths user root s.predicate s.extraJoins) : s.WellTyped c root := by
  have hname : start.name = root := hc.table_name hstart
  have hself : c.table? start.name = some start := hname.symm ▸ hstart
  have hroots : ∀ q : ReadPath, q.root = root → (paths.get q).root = root :=
    fun q hroot => (ReadPaths.root_eq hc hpaths q).trans hroot
  -- What a path of the scope lists is listed by the FROM list that has its joins.
  have hsub : ∀ q : ReadPath, q.root = root → (paths.get q).outerJoins ⊆ s.extraJoins →
      Catalog.pathTables root root .left (paths.get q).hops ⊆ s.fromList root := by
    intro q hroot hjoins
    rw [RelationPath.outerJoins, RelationPath.joins, hroots q hroot] at hjoins
    exact List.cons_subset_cons _ (List.map_subset _ hjoins)
  refine ⟨?_, fun col hcol => ?_, fun sub hsub' => ?_⟩
  · refine Catalog.typesJoins_of_wired (agree_knownBinding hc hpaths hstart)
      (fun b hb => .inl (List.mem_singleton.1 hb)) hs.bound ?_ ?_ fun j hj => ?_
    · rw [hname]
      exact List.Subset.refl _
    · rw [← hname]
      exact hs.distinct
    · obtain ⟨q, hroot, hone, hj⟩ := h.steps j hj
      obtain ⟨hfound, -, -⟩ := ReadPaths.hopsFrom_eq hpaths (hroot ▸ hstart)
      rw [RelationPath.outerJoins, RelationPath.joins, hroots q hroot] at hj
      have hwired := Catalog.wired_joinsFrom hc hself hfound .left root j hj
      rw [hname] at hwired
      exact hwired.mono (knownBinding_of_pathTables hroot (hroots q hroot) hone)
  · obtain ⟨a, ha, hcol⟩ := Predicate.mem_columns.1 hcol
    cases h.atoms a ha with
    | @row q v _ hroot hone hjoins hv hatom =>
      obtain ⟨column, hread, rfl⟩ :=
        hv.inspects.columns col (Predicate.mem_columns.2 ⟨a, hatom, hcol⟩)
      obtain ⟨hfound, hbegin, -⟩ := ReadPaths.hopsFrom_eq hpaths (hroot ▸ hstart)
      have hlists := Catalog.lists_terminal hc hself hfound .left root
        ((ReadPaths.get_spec hpaths q).2 column hread)
      rw [RelationPath.terminalColumn, RelationPath.terminalAlias_eq, hroots q hroot]
      exact hname ▸ hlists |>.mono (hsub q hroot hjoins)
    | @keys q _ hroot hhops hs' =>
      cases hcol
      obtain ⟨-, hbegin, hkey⟩ := ReadPaths.hopsFrom_eq hpaths (hroot ▸ hstart)
      refine ⟨root, start, ?_, hstart, ?_⟩
      · rw [RelationPath.outerKey, hroots q hroot]
        exact List.mem_cons_self
      · rw [RelationPath.outerKey, hkey]
        exact hc.key_listed hstart
  · obtain ⟨a, ha, hsubquery⟩ := Predicate.mem_subqueries.1 hsub'
    cases h.atoms a ha with
    | @row q v _ hroot hone hjoins hv hatom =>
      -- The conditions on terminal rows have no subqueries.
      have hmem : sub ∈ v.subqueries := Predicate.mem_subqueries.2 ⟨a, hatom, hsubquery⟩
      rw [show v.subqueries = [] from hv.inspects.reads.flat] at hmem
      exact absurd hmem List.not_mem_nil
    | @keys q _ hroot hhops hs' =>
      cases hsubquery
      exact hs'.wellTyped hc hpaths (hroot ▸ hstart) hhops

end Compiled

/-- Every compiled scope is well typed in its catalog, and no database executes it with the fault of
an alias that no table goes by. -/
theorem compiled_wellTyped {config : Config} {catalog : Catalog} {table : RuleTable} {c : Compiler}
    (hcatalog : catalog.Built) (htable : RuleTable.standard = .ok table)
    (hc : Compiler.ofParts config catalog table = .ok c) {domain : Domain} {filters : FilterSet}
    {user : Option Int64} {s : Scope} (hs : c.compileDomain domain filters user = .ok s) :
    s.WellTyped catalog domain.rootTable ∧
      ∀ (db : Database) (aliasName : String),
        db.select domain s ≠ .error (.unboundAlias aliasName) := by
  have hlawful := Compiler.lawful_ofParts hcatalog htable hc
  obtain ⟨-, -, -, -, rfl, -⟩ := Compiler.ofParts_eq_ok.1 hc
  obtain ⟨start, hstart⟩ := hlawful.exists_root domain
  have hwell := (hlawful.traced_compiled hs).wellTyped hlawful.coherent hlawful.paths hstart
    (hlawful.sound_compiled hstart hs)
  exact ⟨hwell, hwell.select_ne_unbound⟩

/-- The reports with a recipient like a text and outside of two regions, through a subquery and a
column of the root table, are sought by a well typed scope. -/
theorem wellTyped_recipientAndRegion :
    ∃ catalog table c s, Catalog.standard = .ok catalog ∧ RuleTable.standard = .ok table ∧
      Compiler.ofParts Config.common catalog table = .ok c ∧
      c.compileDomain .activityReport .recipientAndRegion none = .ok s ∧
      s.WellTyped catalog "ActivityReports" ∧
      ∀ aliasName, Database.threeGrants.select .activityReport s ≠
        .error (.unboundAlias aliasName) := by
  obtain ⟨c, hc, hcompiles⟩ := Compiler.exists_common
  obtain ⟨catalog, table, hcatalog, htable, hparts⟩ := Compiler.ofConfig_eq_ok.1 hc
  obtain ⟨s, hs⟩ := hcompiles .activityReport .recipientAndRegion none
  obtain ⟨hwell, hselect⟩ :=
    compiled_wellTyped (Catalog.built_of_build hcatalog) htable hparts hs
  exact ⟨catalog, table, c, s, hcatalog, htable, hparts, hs, hwell, hselect .threeGrants⟩

end RowScope
