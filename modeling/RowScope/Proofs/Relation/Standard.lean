import RowScope.Proofs.Memory.Identity
import RowScope.Proofs.Relation.Path

/-!
# The standard catalog

Every table of the standard catalog has the key `id`, and every edge to at most one row leads to
such a key. A database whose ids identify its rows therefore honours the catalog.
-/

namespace RowScope

/-- The tables and the edges of a catalog are members of two lists. -/
structure Catalog.Within (c : Catalog) (tables : List Table) (edges : List Edge) : Prop where
  /-- Every table is in the list of tables. -/
  table_mem : ∀ {name table}, c.table? name = some table → table ∈ tables
  /-- Every edge is in the list of edges. -/
  edge_mem : ∀ {key edge}, c.edges.get? key = some edge → edge ∈ edges

namespace Catalog

variable {c : Catalog}

/-- A catalog made from lists has no other tables and edges. -/
theorem within_of_build {tables : List Table} {edges : List Edge} (h : build tables edges = .ok c) :
    c.Within tables edges := by
  refine build_preserves (P := fun c => c.Within tables edges) ?_ (fun first hfirst c d hc hd => ?_)
    (fun first hfirst c d hc hd => ?_) h
  · constructor <;> intro _ _ h <;> cases h
  · -- An accepted table is the only new one, and leaves the edges.
    obtain ⟨-, -, rfl⟩ := addTable_eq_ok.1 hd
    refine ⟨fun ht => ?_, hc.edge_mem⟩
    rcases OrderedMap.of_get?_insert ht with ⟨-, rfl⟩ | ht
    · exact hfirst
    · exact hc.table_mem ht
  · -- An accepted edge is the only new one, and leaves the tables.
    obtain ⟨-, -, -, rfl⟩ := addEdge_eq_ok.1 hd
    refine ⟨hc.table_mem, fun he => ?_⟩
    rcases OrderedMap.of_get?_insert he with ⟨-, rfl⟩ | he
    · exact hfirst
    · exact hc.edge_mem he

/-- Every table of the standard catalog has the key `id`. -/
theorem standard_key (h : Catalog.standard = .ok c) {name : String} {table : Table}
    (ht : c.table? name = some table) : table.key = "id" := by
  have keys : ∀ table ∈ standardTables, table.key = "id" := by decide
  exact keys table ((within_of_build h).table_mem ht)

/-- The names of the standard edges have no points, and the names of the standard tables and the
alias of root tables in subqueries have none either and are not among them. -/
theorem standard_names (h : Catalog.standard = .ok c) {root : String} {current : Table}
    {before : Option String} {names : List String} {hops : List Hop} {columns : List String}
    (hc : c.Coherent) (hhops : c.hopsFrom root current before names = .ok (hops, columns)) :
    DotFree names ∧ ∀ a, a = subqueryRoot ∨ (∃ table, c.table? a = some table) →
      '.' ∉ a.toList ∧ a ∉ names := by
  have edges : ∀ edge ∈ standardEdges, '.' ∉ edge.name.toList := by decide +kernel
  have free : ∀ a ∈ subqueryRoot :: standardTables.map Table.name,
      '.' ∉ a.toList ∧ ∀ edge ∈ standardEdges, edge.name ≠ a := by decide +kernel
  -- Each name is that of an edge.
  have hedges : ∀ name ∈ names, ∃ edge ∈ standardEdges, edge.name = name := by
    intro name hname
    obtain ⟨-, -, key, edge, hedge, he, -⟩ := (edges_of_hopsFrom hc hhops).2 name hname
    exact ⟨edge, (within_of_build h).edge_mem hedge, he⟩
  constructor
  · intro name hname
    obtain ⟨edge, hedge, rfl⟩ := hedges name hname
    exact edges edge hedge
  · intro a ha
    have hmem : a ∈ subqueryRoot :: standardTables.map Table.name := by
      rcases ha with rfl | ⟨table, htable⟩
      · exact List.mem_cons_self
      · rw [← hc.table_name htable]
        exact List.mem_cons_of_mem _ (List.mem_map_of_mem ((within_of_build h).table_mem htable))
    refine ⟨(free a hmem).1, fun hname => ?_⟩
    obtain ⟨edge, hedge, he⟩ := hedges a hname
    exact (free a hmem).2 edge hedge he

/-- No edge of the standard catalog leads back to the table that it begins at. -/
theorem standard_no_loop (h : Catalog.standard = .ok c) {key : String × String} {edge : Edge}
    (hedge : c.edges.get? key = some edge) : edge.source ≠ edge.target := by
  have all : ∀ edge ∈ standardEdges, edge.source ≠ edge.target := by decide +kernel
  exact all edge ((within_of_build h).edge_mem hedge)

/-- A database whose ids identify its rows honours the standard catalog. -/
theorem honours_standard (h : Catalog.standard = .ok c) {db : Database} (hdb : db.Identified) :
    db.Honours c := by
  have columns : ∀ edge ∈ standardEdges, edge.cardinality = .manyToOne → edge.toColumn = "id" := by
    decide
  intro key edge hedge hcard
  rw [columns edge ((within_of_build h).edge_mem hedge) hcard]
  exact hdb.uniqueIn

end Catalog

/-- Three grants: one of a recipient, one that names a missing recipient, and one that names
none. -/
def Database.threeGrants : Database where
  tables := OrderedMap.ofList
    [("Grants",
      [OrderedMap.ofList [("id", .int 1), ("recipientId", .int 7)],
        OrderedMap.ofList [("id", .int 2), ("recipientId", .int 8)],
        OrderedMap.ofList [("id", .int 3)]]),
      ("Recipients", [OrderedMap.ofList [("id", .int 7), ("name", .text "Alpha")]])]

/-- The rows of the three grants have ids of their own. -/
theorem Database.identified_threeGrants : Database.threeGrants.Identified :=
  identified_of_entries (by decide +kernel)

/-- The ids of the three grants. -/
theorem Database.ids_threeGrants : Database.threeGrants.ids Domain.grant.rootTable = [1, 2, 3] := by
  decide +kernel

end RowScope
