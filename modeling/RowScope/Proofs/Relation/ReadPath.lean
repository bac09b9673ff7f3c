import RowScope.Proofs.Scope.Sound
import RowScope.Relation.ReadPath

/-!
# Resolved paths

Where all paths that filters read through have been found in a catalog, each of them is there under
its name (`ReadPaths.get_eq`). Their steps have names without points and never go by the name of
their root table (`ReadPath.separate`), so a condition on the rows at the end of one is a sound
condition on its root table (`ReadPaths.serves`).
-/

namespace RowScope

/-- Every path is in the list of all paths. -/
theorem ReadPath.mem_all (p : ReadPath) : p ∈ ReadPath.all := by
  cases p <;> decide

/-- The steps of the paths have no points in their names, and their aliases are neither the name of
the root table nor its alias in subqueries. -/
theorem ReadPath.separate (p : ReadPath) :
    DotFree p.hops ∧ p.root ∉ hopAliases none p.hops ∧
      subqueryRoot ∉ hopAliases none p.hops := by
  cases p <;> decide

/-- A path may be read through if its terminal table lists the columns. -/
theorem RelationPath.require_eq_ok {p q : RelationPath} {columns : List String} :
    p.require columns = .ok q ↔ (∀ column ∈ columns, column ∈ p.terminalColumns) ∧ q = p := by
  have listed : columns.find? (fun column => !p.hasTerminalColumn column) = none ↔
      ∀ column ∈ columns, column ∈ p.terminalColumns := by
    simp [hasTerminalColumn]
  unfold require
  rw [← listed]
  split
  · next missing hmissing => simp [hmissing]
  · next hnone => simp [hnone, eq_comm]

namespace ReadPaths

variable {c : Catalog} {paths : ReadPaths}

/-- All paths are found in a catalog if each of them is. -/
theorem exists_of_resolve (h : ∀ p : ReadPath, ∃ path, p.resolve c = .ok path) :
    ∃ paths, ReadPaths.resolve c = .ok paths := by
  have entries : ∀ p ∈ ReadPath.all,
      ∃ e, (do return (p, ← p.resolve c) : Except SchemaFault (ReadPath × RelationPath)) =
        .ok e := by
    intro p _
    obtain ⟨path, hpath⟩ := h p
    exact ⟨(p, path), Traversal.bind_eq_ok.2 ⟨path, hpath, rfl⟩⟩
  obtain ⟨found, hfound⟩ := Traversal.exists_mapM entries
  exact ⟨⟨ReadPaths.lookUp found⟩, Traversal.bind_eq_ok.2 ⟨found, hfound, rfl⟩⟩

/-- Each path is there as it is found in the catalog. -/
theorem resolve_eq (h : ReadPaths.resolve c = .ok paths) (p : ReadPath) :
    p.resolve c = .ok (paths.get p) := by
  unfold resolve at h
  obtain ⟨found, hfound, h⟩ := Traversal.bind_eq_ok.1 h
  cases h
  -- Every entry of the list is a path under its name.
  have entry : ∀ e ∈ found, e.1.resolve c = .ok e.2 := by
    intro e he
    obtain ⟨q, -, hq⟩ := Traversal.mem_of_ok hfound he
    obtain ⟨path, hpath, hq⟩ := Traversal.bind_eq_ok.1 hq
    cases hq
    exact hpath
  obtain ⟨e, he, hp⟩ := Traversal.ok_of_mem hfound p.mem_all
  obtain ⟨path, -, hp⟩ := Traversal.bind_eq_ok.1 hp
  cases hp
  show p.resolve c = .ok (lookUp found p)
  unfold lookUp
  cases hfind : found.find? fun entry => decide (entry.1 = p) with
  | none => simpa using List.find?_eq_none.1 hfind (p, path) he
  | some first =>
    have hname := List.find?_some hfind
    rw [← of_decide_eq_true hname]
    exact entry first (List.mem_of_find?_eq_some hfind)

/-- Each path follows its steps in the catalog, to a table that lists the columns that are read. -/
theorem get_spec (h : ReadPaths.resolve c = .ok paths) (p : ReadPath) :
    c.path p.root p.hops = .ok (paths.get p) ∧
      ∀ column ∈ p.columns, column ∈ (paths.get p).terminalColumns := by
  obtain ⟨path, hpath, hrequire⟩ := Traversal.bind_eq_ok.1 (resolve_eq h p)
  obtain ⟨hlisted, he⟩ := RelationPath.require_eq_ok.1 hrequire
  rw [he]
  exact ⟨hpath, hlisted⟩

/-- Each path follows its steps in the catalog. -/
theorem get_eq (h : ReadPaths.resolve c = .ok paths) (p : ReadPath) :
    c.path p.root p.hops = .ok (paths.get p) := (get_spec h p).1

/-- The root table of each path is in the catalog. -/
theorem table_eq (h : ReadPaths.resolve c = .ok paths) (p : ReadPath) :
    ∃ start, c.table? p.root = some start := by
  obtain ⟨start, hstart, -⟩ := Catalog.path_eq_ok (get_eq h p)
  exact ⟨start, hstart⟩

/-- Each path begins at its root table. -/
theorem root_eq (hc : c.Coherent) (h : ReadPaths.resolve c = .ok paths) (p : ReadPath) :
    (paths.get p).root = p.root := by
  obtain ⟨table, htable, -, hroot, -⟩ := Catalog.path_eq_ok (get_eq h p)
  rw [hroot, hc.table_name htable]

/-- A path without steps ends at its root table. -/
theorem hops_eq_nil (h : ReadPaths.resolve c = .ok paths) {p : ReadPath} (hp : p.hops = []) :
    (paths.get p).hops = [] := by
  obtain ⟨start, -, hhops, -⟩ := Catalog.path_eq_ok (get_eq h p)
  rw [hp] at hhops
  exact (Prod.mk.inj (Except.ok.inj hhops)).1.symm

/-- A path with steps has them in the catalog. -/
theorem hops_ne_nil (hc : c.Coherent) (h : ReadPaths.resolve c = .ok paths) {p : ReadPath}
    (hp : p.hops ≠ []) : (paths.get p).hops ≠ [] := by
  obtain ⟨start, -, hhops, -⟩ := Catalog.path_eq_ok (get_eq h p)
  have haliases := Catalog.aliases_hopsFrom hc hhops
  intro e
  rw [e] at haliases
  cases hnames : p.hops with
  | nil => exact hp hnames
  | cons name names =>
    rw [hnames] at haliases
    cases haliases

/-- The steps of a path are found from its root table, which is the table that the path knows. -/
theorem hopsFrom_eq (h : ReadPaths.resolve c = .ok paths) {p : ReadPath} {start : Table}
    (hstart : c.table? p.root = some start) :
    c.hopsFrom p.root start none p.hops =
        .ok ((paths.get p).hops, (paths.get p).terminalColumns) ∧
      (paths.get p).root = start.name ∧ (paths.get p).rootKey = start.key := by
  obtain ⟨table, htable, hhops, hroot, hkey⟩ := Catalog.path_eq_ok (get_eq h p)
  cases Option.some.inj (hstart.symm.trans htable)
  exact ⟨hhops, hroot, hkey⟩

/-- The steps of a path go by different aliases, none of which is the name of its root table or the
alias of that table in subqueries. -/
theorem aliases_separate (hc : c.Coherent) (h : ReadPaths.resolve c = .ok paths) (p : ReadPath) :
    (p.root :: (paths.get p).hops.map Hop.aliasName).Nodup ∧
      (subqueryRoot :: (paths.get p).hops.map Hop.aliasName).Nodup := by
  obtain ⟨start, -, hhops, -⟩ := Catalog.path_eq_ok (get_eq h p)
  obtain ⟨-, hroot, hinner⟩ := p.separate
  rw [Catalog.aliases_hopsFrom hc hhops]
  exact ⟨List.nodup_cons.2 ⟨hroot, hopAliases_nodup none p.hops⟩,
    List.nodup_cons.2 ⟨hinner, hopAliases_nodup none p.hops⟩⟩

/-- The joins of a path of single steps are direct. -/
theorem direct_joins (hc : c.Coherent) (h : ReadPaths.resolve c = .ok paths) {p : ReadPath}
    {start : Table} (hstart : c.table? p.root = some start) (hone : (paths.get p).fansOut = false)
    {j : JoinClause} (hj : j ∈ (paths.get p).joins (paths.get p).root .left) :
    ∃ steps, DotFree steps ∧ c.DirectJoin start steps j := by
  obtain ⟨hhops, hroot, -⟩ := hopsFrom_eq h hstart
  rw [RelationPath.joins, hroot] at hj
  exact Catalog.directJoin_of_mem hc .here hhops (RelationPath.fansOut_eq_false.1 hone)
    (fun _ hmem => absurd hmem List.not_mem_nil) p.separate.1 hj

/-- A condition on the rows at the end of a path is a sound condition on its root table. -/
theorem serves (hc : c.Coherent) (h : ReadPaths.resolve c = .ok paths) {p : ReadPath}
    {start : Table} (hstart : c.table? p.root = some start) {v : Predicate}
    (hv : Reads (paths.get p, v)) : c.Serves start (paths.get p, v) := by
  obtain ⟨hhops, hroot, hkey⟩ := hopsFrom_eq h hstart
  obtain ⟨houter, hinner⟩ := aliases_separate hc h p
  have hname : start.name = p.root := hc.table_name hstart
  rw [← hname] at houter hhops
  exact ⟨⟨hv, hroot, hkey, (List.nodup_cons.1 houter).1, (List.nodup_cons.1 hinner).1⟩, p.hops,
    p.separate.1, hhops⟩

end ReadPaths

end RowScope
