import RowScope.Proofs.Compiler
import RowScope.Proofs.Relation.Additions

/-!
# Extended catalogs

What is found in a catalog is found in every extension of it, as it is there: the steps of a path
(`Extends.hopsFrom`), paths, and the paths that rules read through (`Extends.readPaths`). A compiler
reads its catalog through these paths only (`Compiler.compile_congr`), so after any further
additions to the catalog of a compiler the same configuration and rules, of whatever type they are,
make one that compiles alike (`Compiler.additions_conservative`).
-/

namespace RowScope

namespace Catalog.Extends

variable {c d : Catalog} {root : String} {names : List String}

/-- Steps of a catalog are found in an extension. -/
theorem hopsFrom (h : c.Extends d) {current : Table} {before : Option String}
    {found : List Hop × List String}
    (hfound : c.hopsFrom root current before names = .ok found) :
    d.hopsFrom root current before names = .ok found := by
  induction names generalizing current before found with
  | nil => exact hfound
  | cons name names ih =>
    obtain ⟨edge, target, rest, hedge, htarget, hsize, hrest, hhops⟩ := hopsFrom_cons.1 hfound
    -- The extension has the same edge, to the same table, and so the same alias.
    exact hopsFrom_cons.2
      ⟨edge, target, rest, h.edge hedge, h.table htarget, hsize, ih hrest, hhops⟩

/-- Paths of a catalog are found in an extension. -/
theorem path (h : c.Extends d) {p : RelationPath} (hp : c.path root names = .ok p) :
    d.path root names = .ok p := by
  obtain ⟨start, hstart, hhops, hroot, hkey⟩ := path_eq_ok hp
  obtain ⟨_, _, hops, columns⟩ := p
  cases hroot
  cases hkey
  exact path_of_hopsFrom (h.table hstart) (h.hopsFrom hhops)

/-- A path that may be read through in a catalog may be in an extension. -/
theorem readPath (h : c.Extends d) {p : ReadPath} {path : RelationPath}
    (hp : p.resolve c = .ok path) : p.resolve d = .ok path := by
  obtain ⟨found, hfound, hrequire⟩ := Traversal.bind_eq_ok.1 hp
  exact Traversal.bind_eq_ok.2 ⟨found, h.path hfound, hrequire⟩

/-- If a catalog has all paths that rules read through, an extension has the same ones. -/
theorem readPaths (h : c.Extends d) {paths : ReadPaths} (hpaths : ReadPaths.resolve c = .ok paths) :
    ReadPaths.resolve d = .ok paths := by
  have each (p : ReadPath) : p.resolve d = .ok (paths.get p) :=
    h.readPath (ReadPaths.resolve_eq hpaths p)
  -- All paths are found, and those that are found are told by what each of them is.
  obtain ⟨found, hfound⟩ := ReadPaths.exists_of_resolve fun p => ⟨_, each p⟩
  have same : found.get = paths.get := funext fun p =>
    Except.ok.inj ((ReadPaths.resolve_eq hfound p).symm.trans (each p))
  rw [hfound]
  exact congrArg (Except.ok ∘ ReadPaths.mk) same

end Catalog.Extends

namespace Compiler

variable {ρ : Type} {c d : Catalog} {paths : ReadPaths} {config : Config} {table : RuleTable ρ}

/-- With the same paths, a configuration and rules make the same compiler of one catalog as of
another one, up to the catalog, or fail in the same way. -/
theorem ofParts_congr (hc : ReadPaths.resolve c = .ok paths) (hd : ReadPaths.resolve d = .ok paths)
    (config : Config) (table : RuleTable ρ) :
    ofParts config d table = (ofParts config c table).map fun k => { k with catalog := d } := by
  unfold ofParts
  rw [hc, hd]
  -- The other two checks, of the configuration and of the mandatory filters, read no catalog.
  cases config.validate with
  | error fault => rfl
  | ok _ =>
    dsimp only [Except.mapError, bind, Except.bind]
    cases config.mandatoryFilters.find? fun text => !isRegistered table text <;> rfl

/-- Compilers of one configuration, of catalogs with the same paths and of the same rules compile
alike: the catalog is read through the paths only. -/
theorem compile_congr [Builder ρ] (hc : ReadPaths.resolve c = .ok paths)
    (hd : ReadPaths.resolve d = .ok paths) {k l : Compiler ρ}
    (hk : ofParts config c table = .ok k) (hl : ofParts config d table = .ok l) :
    l.compileDomain = k.compileDomain ∧ l.compile = k.compile := by
  rw [ofParts_congr hc hd, hk] at hl
  cases hl
  exact ⟨rfl, rfl⟩

/-- Further additions to a catalog, of which some may be refused, leave every path as it is found
before. If all paths that rules read through are found before, then they are found after, and the
same; a configuration and rules, of whatever type, make a compiler after that they make before, up
to the catalog, or fail in the same way; and the compilers give the same scopes, or fail in the same
way. -/
theorem additions_conservative (c : Catalog) (more : List Addition) :
    (∀ root names p, c.path root names = .ok p → (c.attemptAll more).path root names = .ok p) ∧
    ∀ paths, ReadPaths.resolve c = .ok paths →
      ReadPaths.resolve (c.attemptAll more) = .ok paths ∧
      ∀ {ρ : Type} [Builder ρ] (config : Config) (table : RuleTable ρ),
        ofParts config (c.attemptAll more) table =
          (ofParts config c table).map (fun k => { k with catalog := c.attemptAll more }) ∧
        ∀ k l, ofParts config c table = .ok k → ofParts config (c.attemptAll more) table = .ok l →
          (∀ domain filters user,
            l.compileDomain domain filters user = k.compileDomain domain filters user) ∧
          ∀ filters user, l.compile filters user = k.compile filters user := by
  have h : c.Extends (c.attemptAll more) := Catalog.extends_attemptAll c more
  refine ⟨fun root names p => h.path, fun paths hc => ?_⟩
  have hd := h.readPaths hc
  refine ⟨hd, ?_⟩
  intro ρ _ config table
  refine ⟨ofParts_congr hc hd config table, fun k l hk hl => ?_⟩
  obtain ⟨hdomain, hall⟩ := compile_congr hc hd hk hl
  exact ⟨fun domain filters user => by rw [hdomain], fun filters user => by rw [hall]⟩

end Compiler

/-- The table of audits. -/
def auditTable : Table := keyedTable "Audits" ["id", "grantId"]

/-- The table of audits and an edge from it to grants, and the edge from reports to their authors
once more, which leads to another column than the first time. -/
def auditAdditions : List Addition :=
  [.table auditTable, .edge (belongsTo "Audits" "grant" "grantId" "Grants"),
    .edge (hasMany "ActivityReports" "author" "Users" "name")]

/-- The standard catalog has no audits, and a compiler of it with audits compiles as one without. -/
theorem Compiler.audits_conservative :
    ∃ catalog table k l, Catalog.standard = .ok catalog ∧ RuleTable.standard = .ok table ∧
      catalog.table? "Audits" = none ∧
      (catalog.attemptAll auditAdditions).table? "Audits" = some auditTable ∧
      ofParts Config.common catalog table = .ok k ∧
      ofParts Config.common (catalog.attemptAll auditAdditions) table = .ok l ∧
      ∀ filters user, l.compile filters user = k.compile filters user := by
  obtain ⟨k, hk, -⟩ := exists_common
  obtain ⟨catalog, table, hcatalog, htable, hparts⟩ := ofConfig_eq_ok.1 hk
  obtain ⟨-, hpaths, -⟩ := ofParts_eq_ok.1 hparts
  obtain ⟨-, h⟩ := additions_conservative catalog auditAdditions
  obtain ⟨hmade, hcompile⟩ := (h k.paths hpaths).2 Config.common table
  rw [hparts] at hmade
  have hnew : catalog.table? "Audits" = none := by
    have names : ∀ t ∈ standardTables, t.name ≠ "Audits" := by decide
    refine Option.eq_none_iff_forall_ne_some.2 fun t ht => ?_
    exact names t ((Catalog.within_of_build hcatalog).table_mem ht)
      ((Catalog.built_of_build hcatalog).coherent.table_name ht)
  exact ⟨catalog, table, k, _, hcatalog, htable, hnew,
    Catalog.table_attemptAll (by decide) hnew _, hparts, hmade, (hcompile k _ hparts hmade).2⟩

end RowScope
