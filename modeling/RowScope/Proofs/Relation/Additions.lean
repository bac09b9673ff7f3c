import RowScope.Proofs.Relation.Catalog

/-!
# Runs of additions

Tables and edges are added to a catalog one after the other, and a refused addition leaves the
catalog as it is (`Catalog.attempt`). The catalogs that runs of additions make of the empty one are
those that are built (`Catalog.built_iff`). A run keeps the tables and edges that are there
(`Catalog.extends_attemptAll`), since an addition under a name that is taken is refused.
-/

namespace RowScope

/-- What is to be added to a catalog. -/
inductive Addition where
  | table (table : Table)
  | edge (edge : Edge)
deriving DecidableEq, Repr

/-- The tables and edges of one catalog are in another one, under the same names. -/
structure Catalog.Extends (c d : Catalog) : Prop where
  /-- A table of the first is in the second. -/
  table : ∀ {name table}, c.table? name = some table → d.table? name = some table
  /-- An edge of the first is in the second. -/
  edge : ∀ {key edge}, c.edges.get? key = some edge → d.edges.get? key = some edge

namespace Catalog

/-- The catalog with one more table or edge. -/
def add (c : Catalog) : Addition → Except SchemaFault Catalog
  | .table table => c.addTable table
  | .edge edge => c.addEdge edge

/-- The catalog after an addition, the one before if the addition is refused. -/
def attempt (c : Catalog) (addition : Addition) : Catalog :=
  match c.add addition with
  | .ok d => d
  | .error _ => c

/-- The catalog after some additions, one after the other. -/
def attemptAll (c : Catalog) (additions : List Addition) : Catalog := additions.foldl attempt c

/-- The catalog that some additions make of the empty one. -/
def ofAdditions (additions : List Addition) : Catalog := empty.attemptAll additions

variable {c d e : Catalog} {addition : Addition} {additions : List Addition}

/-- An addition is accepted or leaves the catalog as it is. -/
theorem attempt_cases (c : Catalog) (addition : Addition) :
    c.add addition = .ok (c.attempt addition) ∨ c.attempt addition = c := by
  unfold attempt
  cases c.add addition with
  | ok d => exact .inl rfl
  | error fault => exact .inr rfl

/-- An accepted addition is what an attempt makes. -/
theorem attempt_of_add (h : c.add addition = .ok d) : c.attempt addition = d := by
  unfold attempt
  rw [h]

/-- A last addition after others. -/
theorem ofAdditions_concat (additions : List Addition) (addition : Addition) :
    ofAdditions (additions ++ [addition]) = (ofAdditions additions).attempt addition :=
  List.foldl_concat ..

/-- An accepted addition to a built catalog builds another one. -/
theorem Built.add (hc : c.Built) (h : c.add addition = .ok d) : d.Built := by
  cases addition with
  | table table => exact hc.table h
  | edge edge => exact hc.edge h

/-- A run of additions to a built catalog builds another one. -/
theorem Built.attemptAll (hc : c.Built) (additions : List Addition) :
    (c.attemptAll additions).Built := by
  induction additions generalizing c with
  | nil => exact hc
  | cons addition additions ih =>
    apply ih
    rcases attempt_cases c addition with h | h
    · exact hc.add h
    · rw [h]
      exact hc

/-- The catalogs that are built are those that runs of additions make of the empty one. -/
theorem built_iff : c.Built ↔ ∃ additions, c = ofAdditions additions := by
  constructor
  · intro h
    induction h with
    | empty => exact ⟨[], rfl⟩
    | @table c d table _ hadd ih =>
      obtain ⟨additions, rfl⟩ := ih
      have hattempt : (ofAdditions additions).attempt (.table table) = d := attempt_of_add hadd
      exact ⟨additions ++ [.table table], by rw [ofAdditions_concat, hattempt]⟩
    | @edge c d edge _ hadd ih =>
      obtain ⟨additions, rfl⟩ := ih
      have hattempt : (ofAdditions additions).attempt (.edge edge) = d := attempt_of_add hadd
      exact ⟨additions ++ [.edge edge], by rw [ofAdditions_concat, hattempt]⟩
  · rintro ⟨additions, rfl⟩
    exact Built.empty.attemptAll additions

/-! ## What additions keep -/

/-- A catalog extends itself. -/
theorem Extends.refl (c : Catalog) : c.Extends c := ⟨id, id⟩

/-- Extensions of extensions are extensions. -/
theorem Extends.trans (h : c.Extends d) (h' : d.Extends e) : c.Extends e :=
  ⟨fun ht => h'.table (h.table ht), fun he => h'.edge (h.edge he)⟩

/-- An accepted addition keeps what is there, for its own name is new. -/
theorem extends_add (h : c.add addition = .ok d) : c.Extends d := by
  cases addition with
  | table table =>
    obtain ⟨-, hnew, rfl⟩ := addTable_eq_ok.1 h
    exact ⟨OrderedMap.get?_insert_of_free hnew, id⟩
  | edge edge =>
    obtain ⟨-, -, hnew, rfl⟩ := addEdge_eq_ok.1 h
    exact ⟨id, OrderedMap.get?_insert_of_free hnew⟩

/-- A run of additions keeps what is there. -/
theorem extends_attemptAll (c : Catalog) (additions : List Addition) :
    c.Extends (c.attemptAll additions) := by
  induction additions generalizing c with
  | nil => exact .refl c
  | cons addition additions ih =>
    have hstep : c.Extends (c.attempt addition) := by
      rcases attempt_cases c addition with h | h
      · exact extends_add h
      · rw [h]
        exact .refl c
    exact hstep.trans (ih (c.attempt addition))

/-- A new table that lists its key is there after further additions. -/
theorem table_attemptAll {table : Table} (hkey : table.key ∈ table.columns)
    (hnew : c.table? table.name = none) (more : List Addition) :
    (c.attemptAll (.table table :: more)).table? table.name = some table := by
  have hadd : c.attempt (.table table) = { c with tables := c.tables.insert table.name table } :=
    attempt_of_add (addTable_eq_ok.2 ⟨hkey, hnew, rfl⟩)
  apply (extends_attemptAll (c.attempt (.table table)) more).table
  rw [hadd, table?, OrderedMap.get?_insert, if_pos rfl]

end Catalog

end RowScope
