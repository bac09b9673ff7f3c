import RowScope.Proofs.Relation.Acceptance

/-!
# Conditions on chains of related rows

What an association along a path means is said without joins and subqueries: a root row is chained
to a target if a chain of rows along the path ends in one that meets the condition
(`Database.Chained`). In mode `including` the association selects the root rows that are chained to
its target and in mode `excluding` the others, and an association along several paths goes by
whether a row is chained to one of its targets (`associations_select_chained`). This holds in every
catalog, whichever of the compiled forms a path takes. Executed as the scope of a domain, such an
association gives the ids of the rows (`associations_select_ids`).
-/

namespace RowScope

/-- A path that a catalog finds from a root table along names without points, by aliases other than
those of the root table, and a condition on the row at its end. -/
structure Catalog.Target (c : Catalog) (root : String) (target : RelationPath × Predicate) : Prop
    extends Reads target where
  /-- The path is found. -/
  found : ∃ names, DotFree names ∧ c.path root names = .ok target.1
  /-- No step goes by the name of the root table. -/
  root_free : root ∉ target.1.hops.map Hop.aliasName
  /-- No step goes by the alias that the root table has in subqueries. -/
  inner_free : subqueryRoot ∉ target.1.hops.map Hop.aliasName

/-- A chain of rows along a path ends in a row that meets a condition. -/
def Database.Chained (db : Database) (target : RelationPath × Predicate) (r : Row) : Prop :=
  ∃ rows, db.Chain r target.1.hops rows ∧
    db.Meets [(target.1.terminalAlias, some (rows.getLastD r))] target.2

/-- The rows that a path leads to are the ends of the chains along it. -/
theorem Database.reaches_iff_chained {db : Database} {target : RelationPath × Predicate} {r : Row} :
    db.Reaches target r ↔ db.Chained target r := by
  unfold Reaches Chained
  constructor
  · rintro ⟨last, hlast, hmeets⟩
    obtain ⟨rows, hchain, rfl⟩ := mem_related_iff.1 hlast
    exact ⟨rows, hchain, hmeets⟩
  · rintro ⟨rows, hchain, hmeets⟩
    exact ⟨rows.getLastD r, mem_related_iff.2 ⟨rows, hchain, rfl⟩, hmeets⟩

variable {c : Catalog} {root : String} {start : Table} {db : Database}

/-- A target is served from its root table. -/
theorem Catalog.Target.serves (hc : c.Coherent) (hstart : c.table? root = some start)
    {target : RelationPath × Predicate} (h : c.Target root target) : c.Serves start target := by
  obtain ⟨names, hdots, hpath⟩ := h.found
  obtain ⟨table, htable, hfollows⟩ :=
    Catalog.follows_of_path hc hpath hdots h.root_free h.inner_free
  cases hstart.symm.trans htable
  exact hfollows.serves h.toReads

namespace Database

/-- An association along a path that the catalog serves selects the root rows that are chained to
its target, or those that are not. -/
theorem selectsRows_chained (hc : c.Coherent) (hdb : db.Honours c)
    (hkeyed : ∀ r ∈ db.rows start.name, db.Keyed start.name start.key r)
    {target : RelationPath × Predicate} (h : c.Serves start target) (mode : Mode) :
    db.SelectsRows start.name (target.1.existsAlong target.2 mode) fun r =>
      mode.Keeps (db.Chained target r) := by
  have hsound := Sound.existsAlong hc h.follows h.columns h.flat mode
  refine (selectsRows_of_sound hc hdb hsound).congr fun r hr => ?_
  rw [selects_existsAlong hc hdb h (hkeyed r hr) mode]
  exact Mode.keeps_congr reaches_iff_chained

/-- An association along some paths that the catalog serves selects the root rows that are chained
to one of its targets, or those that are not. -/
theorem selectsRows_chainedAny (hc : c.Coherent) (hdb : db.Honours c)
    (hkeyed : ∀ r ∈ db.rows start.name, db.Keyed start.name start.key r)
    {targets : List (RelationPath × Predicate)} (h : ∀ target ∈ targets, c.Serves start target)
    (mode : Mode) :
    db.SelectsRows start.name (existsAlongAny targets mode) fun r =>
      mode.Keeps (∃ target ∈ targets, db.Chained target r) := by
  have hsound := Sound.existsAlongAny hc h mode
  refine (selectsRows_of_sound hc hdb hsound).congr fun r hr => ?_
  rw [selects_existsAlongAny hc hdb h (hkeyed r hr) mode]
  simp only [reaches_iff_chained]

/-- If a sound association selects the rows with a property, its execution gives their ids. -/
theorem selectsIds_of_sound {domain : Domain} {a : Association}
    (hs : Sound c start a.predicate a.extraJoins) (hstart : start.name = domain.rootTable)
    (hid : ∀ r ∈ db.rows domain.rootTable, ∃ id, Row.value r "id" = .int id) {P : Row → Prop}
    (h : db.SelectsRows start.name a P) : db.SelectsIds domain a P := by
  have hbound := hs.bound
  have hfree := (List.nodup_cons.1 hs.distinct).1
  rw [hstart] at h hbound hfree
  exact h.selectsIds hbound hfree hid

end Database

/-- In a database whose keys identify the root rows and which honours the catalog, an association
selects the root rows that are chained to its target or, in mode `excluding`, those that are not,
and one along several paths goes by whether a row is chained to one of its targets. -/
theorem associations_select_chained (hc : c.Built) (hstart : c.table? root = some start)
    {db : Database} (hdb : db.Honours c) (hunique : db.UniqueIn root start.key)
    (hkey : ∀ r ∈ db.rows root, r.value start.key ≠ .null) (mode : Mode) :
    (∀ target, c.Target root target →
      db.SelectsRows root (target.1.existsAlong target.2 mode) fun r =>
        mode.Keeps (db.Chained target r)) ∧
    ∀ targets : List (RelationPath × Predicate), (∀ target ∈ targets, c.Target root target) →
      db.SelectsRows root (existsAlongAny targets mode) fun r =>
        mode.Keeps (∃ target ∈ targets, db.Chained target r) := by
  have hcoherent := hc.coherent
  have hname : start.name = root := hcoherent.table_name hstart
  have hkeyed : ∀ r ∈ db.rows root, db.Keyed root start.key r :=
    fun r hr => ⟨hr, hunique, hkey r hr⟩
  subst hname
  constructor
  · intro target htarget
    have hserves := htarget.serves hcoherent hstart
    exact Database.selectsRows_chained hcoherent hdb hkeyed hserves mode
  · intro targets htargets
    have hserves : ∀ target ∈ targets, c.Serves start target :=
      fun target ht => (htargets target ht).serves hcoherent hstart
    exact Database.selectsRows_chainedAny hcoherent hdb hkeyed hserves mode

/-- Where ids are integers, the execution of an association as the scope of a domain gives the ids
of the root rows that are chained to its target or, in mode `excluding`, of those that are not, and
for one along several paths it goes by whether a row is chained to one of its targets. -/
theorem associations_select_ids (hc : c.Built) {domain : Domain}
    (hstart : c.table? domain.rootTable = some start) (hdb : db.Honours c)
    (hunique : db.UniqueIn domain.rootTable start.key)
    (hkey : ∀ r ∈ db.rows domain.rootTable, r.value start.key ≠ .null)
    (hid : ∀ r ∈ db.rows domain.rootTable, ∃ id, Row.value r "id" = .int id) (mode : Mode) :
    (∀ target, c.Target domain.rootTable target →
      db.SelectsIds domain (target.1.existsAlong target.2 mode) fun r =>
        mode.Keeps (db.Chained target r)) ∧
    ∀ targets : List (RelationPath × Predicate),
      (∀ target ∈ targets, c.Target domain.rootTable target) →
      db.SelectsIds domain (existsAlongAny targets mode) fun r =>
        mode.Keeps (∃ target ∈ targets, db.Chained target r) := by
  have hcoherent := hc.coherent
  have hname : start.name = domain.rootTable := hcoherent.table_name hstart
  have hkeyed : ∀ r ∈ db.rows start.name, db.Keyed start.name start.key r := by
    rw [hname]
    exact fun r hr => ⟨hr, hunique, hkey r hr⟩
  constructor
  · intro target htarget
    have hserves := htarget.serves hcoherent hstart
    have hsound := Sound.existsAlong hcoherent hserves.follows hserves.columns hserves.flat mode
    exact Database.selectsIds_of_sound hsound hname hid
      (Database.selectsRows_chained hcoherent hdb hkeyed hserves mode)
  · intro targets htargets
    have hserves : ∀ target ∈ targets, c.Serves start target :=
      fun target ht => (htargets target ht).serves hcoherent hstart
    exact Database.selectsIds_of_sound (Sound.existsAlongAny hcoherent hserves mode) hname hid
      (Database.selectsRows_chainedAny hcoherent hdb hkeyed hserves mode)

/-- A path that filters read through makes a target with any condition on the row at its end. -/
theorem ReadPaths.target (hc : c.Coherent) {paths : ReadPaths}
    (h : ReadPaths.resolve c = .ok paths) {p : ReadPath} {v : Predicate}
    (hv : Reads (paths.get p, v)) : c.Target p.root (paths.get p, v) where
  toReads := hv
  found := ⟨p.hops, p.separate.1, ReadPaths.get_eq h p⟩
  root_free := (List.nodup_cons.1 (ReadPaths.aliases_separate hc h p).1).1
  inner_free := (List.nodup_cons.1 (ReadPaths.aliases_separate hc h p).2).1

/-- That the recipient of a grant or a group of it is named `Alpha`. -/
def ReadPaths.namedAlpha (paths : ReadPaths) : List (RelationPath × Predicate) :=
  [ReadPath.grantRecipient, .grantGroups].map fun p =>
    (paths.get p, .equals ((paths.get p).terminalColumn "name") (.text "Alpha"))

/-- Of three grants those are selected from which a chain of rows leads to a recipient or a group
of the name `Alpha`, or else the others. -/
theorem namedAlpha_selects_chained :
    ∃ c paths, Catalog.standard = .ok c ∧ ReadPaths.resolve c = .ok paths ∧ ∀ mode : Mode,
      Database.threeGrants.SelectsRows "Grants" (existsAlongAny paths.namedAlpha mode) fun r =>
        mode.Keeps (∃ target ∈ paths.namedAlpha, Database.threeGrants.Chained target r) := by
  obtain ⟨c, paths, hc, hpaths⟩ := ReadPaths.exists_resolve
  have hbuilt : c.Built := Catalog.built_of_build hc
  obtain ⟨start, hstart⟩ := ReadPaths.table_eq hpaths .grant
  have hkey : start.key = "id" := Catalog.standard_key hc hstart
  have hids := Database.identified_threeGrants
  refine ⟨c, paths, hc, hpaths, fun mode => ?_⟩
  refine (associations_select_chained hbuilt hstart (Catalog.honours_standard hc hids)
    (hkey ▸ hids.uniqueIn) (fun r hr => hkey ▸ (hids.keyed hr).not_null) mode).2 _ ?_
  intro target htarget
  obtain ⟨p, hp, rfl⟩ := List.mem_map.1 htarget
  have hroot : p.root = ReadPath.grant.root := by
    rcases List.mem_cons.1 hp with rfl | hp
    · rfl
    · rw [List.mem_singleton.1 hp]
      rfl
  exact hroot ▸ ReadPaths.target hbuilt.coherent hpaths (reads_comparison rfl)

end RowScope
