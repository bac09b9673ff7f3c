import RowScope.Proofs.Relation.ReadPath

/-!
# Catalogs up to cardinality

Two catalogs may know the same tables and the same edges, and yet declare of an edge that it leads
to one row or to several (`Catalog.SameRelations`). The paths that they find are then the same up to
the cardinalities of their steps (`SameRelations.exists_resolve`), and what a path says of related
rows has nothing to do with cardinalities (`Database.related_bare`). Every catalog has such a
counterpart in which all edges fan out (`Catalog.Built.exists_fanning`).
-/

namespace RowScope

/-! ## Steps without cardinalities -/

/-- An edge without its cardinality. -/
def Edge.bare (edge : Edge) : Edge := { edge with cardinality := .manyToOne }

/-- A step without its cardinality. -/
def Hop.bare (hop : Hop) : Hop := { hop with cardinality := .manyToOne }

/-- A path without the cardinalities of its steps. -/
def RelationPath.bare (p : RelationPath) : RelationPath := { p with hops := p.hops.map Hop.bare }

/-- The last step of a bare path is that of the path. -/
theorem RelationPath.getLast?_bare (p : RelationPath) :
    p.bare.hops.getLast? = p.hops.getLast?.map Hop.bare :=
  List.getLast?_map

/-- A path ends at the same alias without cardinalities. -/
theorem RelationPath.terminalAlias_bare (p : RelationPath) :
    p.bare.terminalAlias = p.terminalAlias := by
  unfold terminalAlias
  rw [getLast?_bare]
  cases p.hops.getLast? <;> rfl

/-- A path has the same terminal columns without cardinalities. -/
theorem RelationPath.terminalColumn_bare (p : RelationPath) (column : String) :
    p.bare.terminalColumn column = p.terminalColumn column := by
  unfold terminalColumn
  rw [terminalAlias_bare]

/-- A path ends at the same key without cardinalities. -/
theorem RelationPath.terminalKey_bare (p : RelationPath) : p.bare.terminalKey = p.terminalKey := by
  unfold terminalKey
  rw [terminalAlias_bare, getLast?_bare]
  cases p.hops.getLast? <;> rfl

/-- A path has the same joins without cardinalities. -/
theorem RelationPath.joins_bare (p : RelationPath) (root : String) (kind : JoinKind) :
    p.bare.joins root kind = p.joins root kind := by
  have steps : ∀ (hops : List Hop) (parent : String),
      joinsFrom kind parent (hops.map Hop.bare) = joinsFrom kind parent hops := by
    intro hops
    induction hops with
    | nil => exact fun _ => rfl
    | cons hop hops ih => exact fun parent => congrArg (List.cons _) (ih hop.aliasName)
  exact steps p.hops root

/-- A path counts the same rows without cardinalities. -/
theorem RelationPath.countAlong_bare (p : RelationPath) (op : CompareOp) (n : Int64) :
    p.bare.countAlong op n = p.countAlong op n := by
  unfold countAlong keyAmong
  rw [joins_bare, terminalKey_bare]
  rfl

/-- The steps lead to the same rows without cardinalities. -/
theorem Database.related_bare (db : Database) (hops : List Hop) (r : Row) :
    db.related (hops.map Hop.bare) r = db.related hops r := by
  induction hops generalizing r with
  | nil => rfl
  | cons hop hops ih =>
    show (db.stepRows hop r).flatMap (db.related (hops.map Hop.bare)) = _
    rw [related, funext ih]

/-! ## Catalogs that differ in cardinalities -/

/-- Two catalogs have the same tables and, up to their cardinalities, the same edges. -/
structure Catalog.SameRelations (c d : Catalog) : Prop where
  /-- The tables are the same. -/
  tables : c.tables = d.tables
  /-- The edges are the same but for their cardinalities. -/
  edges : ∀ key, (c.edges.get? key).map Edge.bare = (d.edges.get? key).map Edge.bare

namespace Catalog

variable {c d : Catalog}

/-- Having the same relations goes both ways. -/
theorem SameRelations.symm (h : c.SameRelations d) : d.SameRelations c :=
  ⟨h.tables.symm, fun key => (h.edges key).symm⟩

/-- A table of one catalog is one of the other. -/
theorem SameRelations.table? (h : c.SameRelations d) (name : String) :
    c.table? name = d.table? name :=
  congrArg (fun tables => OrderedMap.get? tables name) h.tables

/-- An edge of one catalog is one of the other, up to its cardinality. -/
theorem SameRelations.exists_edge (h : c.SameRelations d) {key : String × String} {edge : Edge}
    (hedge : c.edges.get? key = some edge) :
    ∃ other, d.edges.get? key = some other ∧ other.bare = edge.bare := by
  have hboth := h.edges key
  rw [hedge] at hboth
  exact Option.map_eq_some_iff.1 hboth.symm

/-- Steps that one catalog finds are found by the other, up to their cardinalities. -/
theorem SameRelations.exists_hopsFrom (h : c.SameRelations d) {root : String} {current : Table}
    {before : Option String} {names : List String} {hops : List Hop} {columns : List String}
    (hhops : c.hopsFrom root current before names = .ok (hops, columns)) :
    ∃ others, d.hopsFrom root current before names = .ok (others, columns) ∧
      others.map Hop.bare = hops.map Hop.bare := by
  induction names generalizing current before hops with
  | nil =>
    cases hhops
    exact ⟨[], rfl, rfl⟩
  | cons name names ih =>
    obtain ⟨edge, target, rest, hedge, htarget, hsize, hrest, rfl⟩ := hopsFrom_cons.1 hhops
    obtain ⟨⟨source, edgeName, fromColumn, targetName, toColumn, cardinality⟩, hother, hbare⟩ :=
      h.exists_edge hedge
    -- Two edges that are the same up to their cardinality have the same names and columns.
    obtain ⟨edgeSource, _, edgeFrom, edgeTarget, edgeTo, _⟩ := edge
    cases hbare
    rw [h.table?] at htarget
    obtain ⟨others, hothers, hsame⟩ := ih hrest
    refine ⟨_, hopsFrom_cons.2 ⟨_, target, others, hother, htarget, hsize, hothers, rfl⟩, ?_⟩
    exact congrArg (List.cons _) hsame

/-- A path that filters read through and that one catalog has is one of the other, up to the
cardinalities of its steps. -/
theorem SameRelations.exists_path (h : c.SameRelations d) {p : ReadPath} {path : RelationPath}
    (hpath : p.resolve c = .ok path) :
    ∃ other, p.resolve d = .ok other ∧ other.bare = path.bare := by
  obtain ⟨found, hfound, hrequire⟩ := Traversal.bind_eq_ok.1 hpath
  obtain ⟨hlisted, rfl⟩ := RelationPath.require_eq_ok.1 hrequire
  obtain ⟨start, hstart, hhops, hroot, hkey⟩ := path_eq_ok hfound
  obtain ⟨others, hothers, hsame⟩ := h.exists_hopsFrom hhops
  rw [h.table?] at hstart
  -- Both end at a table of the same columns, so the other has the columns that are read as well.
  have hother := RelationPath.require_eq_ok (p := ⟨start.name, start.key, others, _⟩).2
    ⟨hlisted, rfl⟩
  refine ⟨_, Traversal.bind_eq_ok.2 ⟨_, path_of_hopsFrom hstart hothers, hother⟩, ?_⟩
  unfold RelationPath.bare
  rw [hsame, hroot, hkey]

end Catalog

/-! ## Resolved paths -/

/-- Two catalogs with the same relations have the same paths, up to the cardinalities of their
steps. -/
theorem ReadPaths.get_bare {c d : Catalog} (h : c.SameRelations d) {paths others : ReadPaths}
    (hpaths : ReadPaths.resolve c = .ok paths) (hothers : ReadPaths.resolve d = .ok others)
    (p : ReadPath) : (others.get p).bare = (paths.get p).bare := by
  obtain ⟨other, hother, hbare⟩ := h.exists_path (ReadPaths.resolve_eq hpaths p)
  rw [ReadPaths.resolve_eq hothers p] at hother
  cases hother
  exact hbare

/-- All paths are found in a catalog that has the relations of one in which they are found. -/
theorem ReadPaths.exists_resolve_of_same {c d : Catalog} (h : c.SameRelations d) {paths : ReadPaths}
    (hpaths : ReadPaths.resolve c = .ok paths) : ∃ others, ReadPaths.resolve d = .ok others := by
  refine ReadPaths.exists_of_resolve fun p => ?_
  obtain ⟨other, hother, -⟩ := h.exists_path (ReadPaths.resolve_eq hpaths p)
  exact ⟨other, hother⟩

/-! ## Counterparts -/

/-- Every catalog has a counterpart with the same relations in which all edges fan out. -/
theorem Catalog.Built.exists_fanning {c : Catalog} (h : c.Built) :
    ∃ d : Catalog, d.Built ∧ c.SameRelations d ∧
      ∀ key edge, d.edges.get? key = some edge → edge.cardinality = .oneToMany := by
  induction h with
  | empty => exact ⟨.empty, .empty, ⟨rfl, fun _ => rfl⟩, fun _ _ h => nomatch h⟩
  | @table c c' table _ hadd ih =>
    obtain ⟨d, hd, hsame, hfan⟩ := ih
    obtain ⟨hkey, hnew, rfl⟩ := addTable_eq_ok.1 hadd
    rw [hsame.table?] at hnew
    refine ⟨_, hd.table (addTable_eq_ok.2 ⟨hkey, hnew, rfl⟩), ⟨?_, hsame.edges⟩, hfan⟩
    exact congrArg (fun tables => tables.insert table.name table) hsame.tables
  | @edge c c' edge _ hadd ih =>
    obtain ⟨d, hd, hsame, hfan⟩ := ih
    obtain ⟨hsource, htarget, hnew, rfl⟩ := addEdge_eq_ok.1 hadd
    simp only [hsame.table?] at hsource htarget
    -- The counterpart takes the edge with the other cardinality.
    have hnone : d.edges.get? (edge.source, edge.name) = none := by
      have hboth := hsame.edges (edge.source, edge.name)
      rw [hnew] at hboth
      exact Option.map_eq_none_iff.1 hboth.symm
    let fanning : Edge := { edge with cardinality := .oneToMany }
    have hadded : d.addEdge fanning =
        .ok { d with edges := d.edges.insert (edge.source, edge.name) fanning } :=
      addEdge_eq_ok.2 ⟨hsource, htarget, hnone, rfl⟩
    refine ⟨_, hd.edge hadded, ⟨hsame.tables, fun key => ?_⟩, fun key e he => ?_⟩
    · show ((OrderedMap.insert _ _ _).get? key).map _ = ((OrderedMap.insert _ _ _).get? key).map _
      rw [OrderedMap.get?_insert, OrderedMap.get?_insert]
      split
      · rfl
      · exact hsame.edges key
    · rw [OrderedMap.get?_insert] at he
      split at he
      · cases he
        rfl
      · exact hfan key e he

end RowScope
