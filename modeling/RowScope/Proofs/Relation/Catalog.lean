import RowScope.Relation.Standard
import RowScope.Proofs.OrderedMap
import RowScope.Proofs.Traversal

/-!
# Built catalogs

A catalog is built by additions of tables and edges. Every catalog so built is coherent
(`Catalog.Built.coherent`): tables and edges stand under their own names, and every edge joins two
known tables on columns that they list.
-/

namespace RowScope

/-- The catalogs that additions of tables and edges make of the empty one. A refused addition leaves
a catalog as it is. -/
inductive Catalog.Built : Catalog → Prop where
  | empty : Built .empty
  | table {c d : Catalog} {table : Table} : Built c → c.addTable table = .ok d → Built d
  | edge {c d : Catalog} {edge : Edge} : Built c → c.addEdge edge = .ok d → Built d

/-- Tables and edges of a catalog stand under their names, and edges fit the tables that they
join. -/
structure Catalog.Coherent (c : Catalog) : Prop where
  /-- A table stands under its name. -/
  table_name : ∀ {name table}, c.table? name = some table → table.name = name
  /-- A table lists its key. -/
  key_listed : ∀ {name table}, c.table? name = some table → table.key ∈ table.columns
  /-- An edge stands under the table that it begins at and under its name. -/
  edge_key : ∀ {key edge}, c.edges.get? key = some edge → key = (edge.source, edge.name)
  /-- An edge begins at a table that lists its column. -/
  edge_source : ∀ {key edge}, c.edges.get? key = some edge →
    ∃ table, c.table? edge.source = some table ∧ edge.fromColumn ∈ table.columns
  /-- An edge leads to a table that lists its column. -/
  edge_target : ∀ {key edge}, c.edges.get? key = some edge →
    ∃ table, c.table? edge.target = some table ∧ edge.toColumn ∈ table.columns

namespace Catalog

variable {c d : Catalog}

/-- A table that is required and found is in the catalog. -/
theorem requireTable_eq_ok {name : String} {table : Table} :
    c.requireTable name = .ok table ↔ c.table? name = some table := by
  unfold requireTable
  cases c.table? name <;> simp

/-- A table is accepted if it lists its key and its name is new. -/
theorem addTable_eq_ok {table : Table} :
    c.addTable table = .ok d ↔ table.key ∈ table.columns ∧ c.table? table.name = none ∧
      d = { c with tables := c.tables.insert table.name table } := by
  unfold addTable
  split
  · next hkey => simp_all
  · next hkey =>
    split
    · next htwice =>
      obtain ⟨other, hother⟩ := Option.isSome_iff_exists.1 htwice
      simp [table?, hother]
    · next hnew =>
      have hkey : table.key ∈ table.columns := by simpa using hkey
      have hnew : c.table? table.name = none := by simpa [OrderedMap.contains, table?] using hnew
      simp [hkey, hnew, eq_comm]

/-- An edge is accepted if it joins two tables on columns that they list and its name is new. -/
theorem addEdge_eq_ok {edge : Edge} :
    c.addEdge edge = .ok d ↔
      (∃ table, c.table? edge.source = some table ∧ edge.fromColumn ∈ table.columns) ∧
      (∃ table, c.table? edge.target = some table ∧ edge.toColumn ∈ table.columns) ∧
      c.edges.get? (edge.source, edge.name) = none ∧
      d = { c with edges := c.edges.insert (edge.source, edge.name) edge } := by
  simp only [addEdge, Traversal.bind_eq_ok, requireTable_eq_ok]
  constructor
  · -- The columns are checked before the name.
    rintro ⟨source, hsource, target, htarget, h⟩
    split at h
    · cases h
    · next hfrom =>
      split at h
      · cases h
      · next hto =>
        split at h
        · cases h
        · next hnew =>
          refine ⟨⟨source, hsource, by simpa using hfrom⟩, ⟨target, htarget, by simpa using hto⟩,
            ?_, (Except.ok.inj h).symm⟩
          simpa [OrderedMap.contains] using hnew
  · rintro ⟨⟨source, hsource, hfrom⟩, ⟨target, htarget, hto⟩, hnew, rfl⟩
    refine ⟨source, hsource, target, htarget, ?_⟩
    simp [hfrom, hto, OrderedMap.contains, hnew]

/-- Every catalog that is built is coherent. -/
theorem Built.coherent (h : Built c) : c.Coherent := by
  induction h with
  | empty => constructor <;> intro _ _ h <;> cases h
  | @table c d table _ hadd ih =>
    obtain ⟨hkey, hnew, rfl⟩ := addTable_eq_ok.1 hadd
    refine ⟨fun ht => ?_, fun ht => ?_, ih.edge_key, fun he => ?_, fun he => ?_⟩
    · rcases OrderedMap.of_get?_insert ht with ⟨rfl, rfl⟩ | ht
      · rfl
      · exact ih.table_name ht
    · rcases OrderedMap.of_get?_insert ht with ⟨rfl, rfl⟩ | ht
      · exact hkey
      · exact ih.key_listed ht
    · -- The tables that were there stay.
      obtain ⟨t, ht, hcol⟩ := ih.edge_source he
      exact ⟨t, OrderedMap.get?_insert_of_free hnew ht, hcol⟩
    · obtain ⟨t, ht, hcol⟩ := ih.edge_target he
      exact ⟨t, OrderedMap.get?_insert_of_free hnew ht, hcol⟩
  | @edge c d edge _ hadd ih =>
    obtain ⟨hsource, htarget, -, rfl⟩ := addEdge_eq_ok.1 hadd
    refine ⟨ih.table_name, ih.key_listed, fun he => ?_, fun he => ?_, fun he => ?_⟩
    · rcases OrderedMap.of_get?_insert he with ⟨rfl, rfl⟩ | he
      · rfl
      · exact ih.edge_key he
    · rcases OrderedMap.of_get?_insert he with ⟨-, rfl⟩ | he
      · exact hsource
      · exact ih.edge_source he
    · rcases OrderedMap.of_get?_insert he with ⟨-, rfl⟩ | he
      · exact htarget
      · exact ih.edge_target he

/-- What accepted tables and edges of some lists preserve holds of the catalog made from the lists,
if it holds of the empty one. -/
theorem build_preserves {P : Catalog → Prop} {tables : List Table} {edges : List Edge}
    (hempty : P empty) (htable : ∀ t ∈ tables, ∀ c d, P c → c.addTable t = .ok d → P d)
    (hedge : ∀ e ∈ edges, ∀ c d, P c → c.addEdge e = .ok d → P d)
    (h : build tables edges = .ok c) : P c := by
  unfold build at h
  obtain ⟨d, hd, h⟩ := Traversal.bind_eq_ok.1 h
  exact Traversal.foldlM_preserves hedge (Traversal.foldlM_preserves htable hempty hd) h

/-- A catalog made from lists of tables and edges is built. -/
theorem built_of_build {tables : List Table} {edges : List Edge} (h : build tables edges = .ok c) :
    Built c :=
  build_preserves .empty (fun _ _ _ _ hc hd => hc.table hd) (fun _ _ _ _ hc hd => hc.edge hd) h

end Catalog

end RowScope
