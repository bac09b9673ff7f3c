import RowScope.Proofs.Relation.ReadPath
import RowScope.Proofs.Relation.Standard

/-!
# What a catalog accepts

Lists of tables and edges make a catalog if no name comes twice and each edge joins listed columns
of listed tables, and the catalog finds all of them (`Catalog.exists_build`). A path is found in
such a catalog if its names can be followed through the lists (`Catalog.follow?`), which takes no
more than comparisons of names. So the standard catalog is accepted, and with it all paths that
filters read through (`ReadPaths.exists_resolve`).
-/

namespace RowScope

namespace Catalog

variable {c : Catalog}

/-- New tables that list their keys are accepted, and found beside those that were there. -/
theorem exists_addTables {tables : List Table} (hkeys : ∀ t ∈ tables, t.key ∈ t.columns)
    (hnames : (tables.map Table.name).Nodup) (hnew : ∀ t ∈ tables, c.table? t.name = none) :
    ∃ d, tables.foldlM addTable c = .ok d ∧ d.edges = c.edges ∧
      (∀ name t, c.table? name = some t → d.table? name = some t) ∧
      ∀ t ∈ tables, d.table? t.name = some t := by
  induction tables generalizing c with
  | nil => exact ⟨c, rfl, rfl, fun _ _ h => h, by simp⟩
  | cons first tables ih =>
    obtain ⟨hkey, hkeys⟩ := List.forall_mem_cons.1 hkeys
    obtain ⟨hfirst, hnew⟩ := List.forall_mem_cons.1 hnew
    obtain ⟨hdistinct, hnames⟩ := List.nodup_cons.1 hnames
    -- The names of the other tables are still new after the first.
    have hstill : ∀ t ∈ tables,
        (c.tables.insert first.name first).get? t.name = none := by
      intro t ht
      rw [OrderedMap.get?_insert, if_neg]
      · exact hnew t ht
      · exact fun e => hdistinct (e ▸ List.mem_map_of_mem ht)
    obtain ⟨d, hd, hedges, hkept, hfound⟩ :=
      @ih { c with tables := c.tables.insert first.name first } hkeys hnames hstill
    refine ⟨d, ?_, hedges, fun name t ht => hkept name t ?_,
      List.forall_mem_cons.2 ⟨hkept _ _ ?_, hfound⟩⟩
    · rw [List.foldlM_cons, addTable_eq_ok.2 ⟨hkey, hfirst, rfl⟩]
      exact hd
    · exact OrderedMap.get?_insert_of_free hfirst ht
    · rw [table?, OrderedMap.get?_insert, if_pos rfl]

/-- New edges that join listed columns of known tables are accepted, and found beside those that
were there. -/
theorem exists_addEdges {edges : List Edge}
    (hends : ∀ e ∈ edges, (∃ t, c.table? e.source = some t ∧ e.fromColumn ∈ t.columns) ∧
      ∃ t, c.table? e.target = some t ∧ e.toColumn ∈ t.columns)
    (hnames : (edges.map fun e => (e.source, e.name)).Nodup)
    (hnew : ∀ e ∈ edges, c.edges.get? (e.source, e.name) = none) :
    ∃ d, edges.foldlM addEdge c = .ok d ∧ d.tables = c.tables ∧
      (∀ key e, c.edges.get? key = some e → d.edges.get? key = some e) ∧
      ∀ e ∈ edges, d.edges.get? (e.source, e.name) = some e := by
  induction edges generalizing c with
  | nil => exact ⟨c, rfl, rfl, fun _ _ h => h, by simp⟩
  | cons first edges ih =>
    obtain ⟨⟨hsource, htarget⟩, hends⟩ := List.forall_mem_cons.1 hends
    obtain ⟨hfirst, hnew⟩ := List.forall_mem_cons.1 hnew
    obtain ⟨hdistinct, hnames⟩ := List.nodup_cons.1 hnames
    -- The places of the other edges are still free after the first.
    have hstill : ∀ e ∈ edges,
        (c.edges.insert (first.source, first.name) first).get? (e.source, e.name) = none := by
      intro e he
      rw [OrderedMap.get?_insert, if_neg]
      · exact hnew e he
      · exact fun same => hdistinct (List.mem_map.2 ⟨e, he, same⟩)
    obtain ⟨d, hd, htables, hkept, hfound⟩ :=
      @ih { c with edges := c.edges.insert (first.source, first.name) first } hends hnames hstill
    refine ⟨d, ?_, htables, fun key e he => hkept key e ?_,
      List.forall_mem_cons.2 ⟨hkept _ _ ?_, hfound⟩⟩
    · rw [List.foldlM_cons, addEdge_eq_ok.2 ⟨hsource, htarget, hfirst, rfl⟩]
      exact hd
    · exact OrderedMap.get?_insert_of_free hfirst he
    · rw [OrderedMap.get?_insert, if_pos rfl]

/-- Lists of tables and edges that fit together make a catalog, in which all of them are found. -/
theorem exists_build {tables : List Table} {edges : List Edge}
    (hkeys : ∀ t ∈ tables, t.key ∈ t.columns) (htables : (tables.map Table.name).Nodup)
    (hends : ∀ e ∈ edges, (∃ t ∈ tables, t.name = e.source ∧ e.fromColumn ∈ t.columns) ∧
      ∃ t ∈ tables, t.name = e.target ∧ e.toColumn ∈ t.columns)
    (hedges : (edges.map fun e => (e.source, e.name)).Nodup) :
    ∃ c, build tables edges = .ok c ∧ (∀ t ∈ tables, c.table? t.name = some t) ∧
      ∀ e ∈ edges, c.edges.get? (e.source, e.name) = some e := by
  obtain ⟨c, hc, hnone, -, hfound⟩ := @exists_addTables .empty tables hkeys htables fun _ _ => rfl
  -- The edges are added when all tables are there.
  have hknown : ∀ e ∈ edges, (∃ t, c.table? e.source = some t ∧ e.fromColumn ∈ t.columns) ∧
      ∃ t, c.table? e.target = some t ∧ e.toColumn ∈ t.columns := by
    intro e he
    obtain ⟨⟨source, hs, hsource, hfrom⟩, target, ht, htarget, hto⟩ := hends e he
    exact ⟨⟨source, hsource ▸ hfound source hs, hfrom⟩, target, htarget ▸ hfound target ht, hto⟩
  have hnew : ∀ e ∈ edges, c.edges.get? (e.source, e.name) = none := by
    intro e _
    rw [hnone]
    rfl
  obtain ⟨d, hd, hsame, -, hall⟩ := exists_addEdges hknown hedges hnew
  refine ⟨d, ?_, fun t ht => ?_, hall⟩
  · unfold build
    rw [hc]
    exact hd
  · rw [table?, hsame]
    exact hfound t ht

/-- The table that some names lead to from another, by lists of tables and edges. -/
def follow? (tables : List Table) (edges : List Edge) : Table → List String → Option Table
  | current, [] => some current
  | current, name :: names =>
    (edges.find? fun e => e.source = current.name ∧ e.name = name).bind fun edge =>
      (tables.find? fun t => t.name = edge.target).bind fun target =>
        follow? tables edges target names

/-- A path along names that can be followed through the tables and edges of a catalog is found if no
alias on it is too long. -/
theorem exists_hopsFrom {tables : List Table} {edges : List Edge}
    (htables : ∀ t ∈ tables, c.table? t.name = some t)
    (hedges : ∀ e ∈ edges, c.edges.get? (e.source, e.name) = some e) {current table : Table}
    {names : List String} (h : follow? tables edges current names = some table) (root : String)
    {before : Option String}
    (hshort : ∀ a ∈ hopAliases before names, a.utf8ByteSize ≤ aliasLimit) :
    ∃ hops, c.hopsFrom root current before names = .ok (hops, table.columns) := by
  induction names generalizing current before with
  | nil =>
    cases h
    exact ⟨[], rfl⟩
  | cons name names ih =>
    obtain ⟨edge, hedge, hrest⟩ := Option.bind_eq_some_iff.1 h
    obtain ⟨target, htarget, hfollow⟩ := Option.bind_eq_some_iff.1 hrest
    obtain ⟨hsource, hname⟩ : edge.source = current.name ∧ edge.name = name := by
      simpa using List.find?_some hedge
    have hto : target.name = edge.target := by simpa using List.find?_some htarget
    -- The edge and the table of the lists are those that the catalog finds.
    subst hname
    obtain ⟨hsize, hshort⟩ := List.forall_mem_cons.1 hshort
    obtain ⟨rest, hhops⟩ := ih hfollow hshort
    refine ⟨_, hopsFrom_cons.2 ⟨edge, target, rest, ?_, ?_, hsize, hhops, rfl⟩⟩
    · rw [← hsource]
      exact hedges edge (List.mem_of_find?_eq_some hedge)
    · rw [← hto]
      exact htables target (List.mem_of_find?_eq_some htarget)

end Catalog

namespace ReadPath

/-- The terminal table of a path, by the lists of the standard tables and edges. -/
def standardTable? (p : ReadPath) : Option Table :=
  (standardTables.find? fun t => t.name = p.root).bind fun start =>
    Catalog.follow? standardTables standardEdges start p.hops

/-- Every path ends at a standard table that lists the columns read through the path, and its
aliases are not too long. -/
theorem standardTable?_spec (p : ReadPath) :
    (∃ table ∈ p.standardTable?, ∀ column ∈ p.columns, column ∈ table.columns) ∧
      ∀ a ∈ hopAliases none p.hops, a.utf8ByteSize ≤ aliasLimit := by
  have all : ∀ p ∈ ReadPath.all,
      (∃ table ∈ p.standardTable?.toList, ∀ column ∈ p.columns, column ∈ table.columns) ∧
        ∀ a ∈ hopAliases none p.hops, a.utf8ByteSize ≤ aliasLimit := by decide +kernel
  obtain ⟨⟨table, htable, hcolumns⟩, hshort⟩ := all p p.mem_all
  exact ⟨⟨table, Option.mem_toList.1 htable, hcolumns⟩, hshort⟩

/-- Every path is found in a catalog that has the standard tables and edges. -/
theorem exists_resolve {c : Catalog} (htables : ∀ t ∈ standardTables, c.table? t.name = some t)
    (hedges : ∀ e ∈ standardEdges, c.edges.get? (e.source, e.name) = some e) (p : ReadPath) :
    ∃ path, p.resolve c = .ok path := by
  obtain ⟨⟨table, htable, hcolumns⟩, hshort⟩ := p.standardTable?_spec
  obtain ⟨start, hstart, hfollow⟩ := Option.bind_eq_some_iff.1 htable
  have hroot : c.table? p.root = some start := by
    have hname : start.name = p.root := by simpa using List.find?_some hstart
    exact hname ▸ htables start (List.mem_of_find?_eq_some hstart)
  obtain ⟨hops, hhops⟩ := Catalog.exists_hopsFrom htables hedges hfollow p.root hshort
  have hlisted := RelationPath.require_eq_ok (p := ⟨start.name, start.key, hops, table.columns⟩).2
    ⟨hcolumns, rfl⟩
  exact ⟨_, Traversal.bind_eq_ok.2 ⟨_, Catalog.path_of_hopsFrom hroot hhops, hlisted⟩⟩

end ReadPath

/-- The standard catalog is accepted, and has the standard tables and edges. -/
theorem Catalog.exists_standard :
    ∃ c, Catalog.standard = .ok c ∧ (∀ t ∈ standardTables, c.table? t.name = some t) ∧
      ∀ e ∈ standardEdges, c.edges.get? (e.source, e.name) = some e :=
  Catalog.exists_build (by decide +kernel) (by decide +kernel) (by decide +kernel)
    (by decide +kernel)

/-- The standard catalog is accepted, and all paths that filters read through are found in it. -/
theorem ReadPaths.exists_resolve :
    ∃ c paths, Catalog.standard = .ok c ∧ ReadPaths.resolve c = .ok paths := by
  obtain ⟨c, hc, htables, hedges⟩ := Catalog.exists_standard
  obtain ⟨paths, hpaths⟩ :=
    ReadPaths.exists_of_resolve fun p => p.exists_resolve htables hedges
  exact ⟨c, paths, hc, hpaths⟩

end RowScope
