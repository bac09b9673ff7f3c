import RowScope.Proofs.Relation.Bare
import RowScope.Proofs.Rule.Entries
import RowScope.Proofs.Scope.Selection

/-!
# Declared cardinalities

A rule asks the same of related rows whatever cardinalities the catalog declares
(`Criterion.targets_bare`): they decide only how the question is put, by joins that take the one
related row along or by a subquery for keys. As both forms select the root rows with a related row
that meets a condition, two catalogs with the same relations compile a set of filters to scopes that
select the same, in every database that honours both (`select_eq_of_sameRelations`).
-/

namespace RowScope

/-! ## What rules ask -/

/-- Paths without the cardinalities of their steps. -/
def ReadPaths.bare (paths : ReadPaths) : ReadPaths := ⟨fun p => (paths.get p).bare⟩

/-- What a rule may read, without the cardinalities of the paths. -/
def RuleContext.bare (ctx : RuleContext) : RuleContext := { ctx with paths := ctx.paths.bare }

/-- A condition on related rows, without the cardinalities of the path to them. -/
def bareTarget (t : RelationPath × Predicate) : RelationPath × Predicate := (t.1.bare, t.2)

/-- A field has the same column without cardinalities. -/
theorem Field.columnRef_bare (f : Field) (paths : ReadPaths) :
    f.columnRef paths.bare = f.columnRef paths :=
  RelationPath.terminalColumn_bare (paths.get f.path) f.column

/-- A field asks the same at its column without cardinalities. -/
theorem Field.target_bare (f : Field) (paths : ReadPaths) (condition : ColumnRef → Predicate) :
    f.target paths.bare condition = bareTarget (f.target paths condition) := by
  unfold target
  rw [columnRef_bare]
  rfl

/-- A field asks for the same texts without cardinalities. -/
theorem Field.hasText_bare (f : Field) (paths : ReadPaths) (texts : List String) :
    f.hasText paths.bare texts = bareTarget (f.hasText paths texts) :=
  f.target_bare paths _

/-- A field asks the same of visible groups without cardinalities. -/
theorem Field.visibleTarget_bare (f : Field) (ctx : RuleContext)
    (condition : ColumnRef → Predicate) :
    f.visibleTarget ctx.bare condition = bareTarget (f.visibleTarget ctx condition) := by
  have visible : ∀ matching, visibleGroup (ctx.paths.get f.path).bare ctx.user matching =
      visibleGroup (ctx.paths.get f.path) ctx.user matching := by
    intro matching
    unfold visibleGroup
    simp only [RelationPath.terminalColumn_bare]
  unfold visibleTarget
  rw [← f.target_bare]
  exact congrArg (f.target ctx.paths.bare) (funext fun column => visible (condition column))

/-- A field asks for the same texts, or for a missing value, without cardinalities. -/
theorem Field.hasTextOrNothing_bare (f : Field) (ctx : RuleContext) (vocabulary : Vocabulary)
    (unset : String) (value : FilterValue) :
    f.hasTextOrNothing ctx.bare vocabulary unset value =
      (f.hasTextOrNothing ctx vocabulary unset value).map bareTarget := by
  unfold hasTextOrNothing
  dsimp only
  split
  · exact congrArg Except.ok (f.target_bare ctx.paths _)
  · -- A value of listed texts only is read before the field is looked at.
    generalize vocabulary.admitted _ = admitted
    cases admitted with
    | error rejection => rfl
    | ok texts => exact congrArg Except.ok (f.target_bare ctx.paths _)

/-- What a value that has been read asks changes as the targets do. -/
theorem targets_of_reading {α : Type} (reading : Except Rejection α)
    {targets others : α → List (RelationPath × Predicate)}
    (h : ∀ a, others a = (targets a).map bareTarget) :
    (do return others (← reading)) =
      ((do return targets (← reading)) : Except Rejection _).map (List.map bareTarget) := by
  cases reading with
  | error rejection => rfl
  | ok a => exact congrArg Except.ok (h a)

/-- A criterion asks the same of related rows without cardinalities, and rejects the same values. -/
theorem Criterion.targets_bare (criterion : Criterion) (ctx : RuleContext) (condition : Condition)
    (value : FilterValue) :
    criterion.targets ctx.bare condition value =
      (criterion.targets ctx condition value).map (List.map bareTarget) := by
  have each : ∀ (fields : List Field) {target other : Field → RelationPath × Predicate},
      (∀ f, other f = bareTarget (target f)) →
        fields.map other = (fields.map target).map bareTarget := by
    intro fields target other h
    rw [List.map_map]
    exact List.map_congr_left fun f _ => h f
  cases criterion with
  | contains fields =>
    exact targets_of_reading _ fun _ => each fields fun f => f.target_bare ctx.paths _
  | integer field | date field | combination field _ | flag field _ =>
    exact targets_of_reading _ fun _ => each [field] fun f => f.target_bare ctx.paths _
  | text field => exact targets_of_reading _ fun _ => each [field] fun f => f.hasText_bare _ _
  | member _ fields =>
    exact targets_of_reading _ fun _ => each fields fun f => f.hasText_bare ctx.paths _
  | memberOrUnset vocabulary unset field =>
    rw [targets, targets]
    show (field.hasTextOrNothing ctx.bare (ctx.config.vocabularies.get vocabulary) unset value >>=
      _) = _
    rw [Field.hasTextOrNothing_bare]
    cases field.hasTextOrNothing ctx (ctx.config.vocabularies.get vocabulary) unset value <;> rfl
  | period first last =>
    refine targets_of_reading _ fun window => ?_
    show [first.target ctx.paths.bare fun start =>
      start.periodMeets (last.columnRef ctx.paths.bare) window] = _
    rw [last.columnRef_bare, first.target_bare]
    rfl
  | groupInteger field | groupText field =>
    exact targets_of_reading _ fun _ => each [field] fun f => f.visibleTarget_bare ctx _
  | user parts =>
    obtain ⟨config, paths, user⟩ := ctx
    rw [targets, targets]
    dsimp only [RuleContext.bare]
    cases user with
    | none => rfl
    | some id =>
      cases parts.filter fun part => value.hasName part.1 with
      | nil => rfl
      | cons first others =>
        refine congrArg Except.ok ?_
        rw [List.map_map]
        exact List.map_congr_left fun part _ => part.2.target_bare paths _

/-- A path leads to the same rows that meet a condition without cardinalities. -/
theorem Database.reaches_bare {db : Database} {t : RelationPath × Predicate} {r : Row} :
    db.Reaches (bareTarget t) r ↔ db.Reaches t r := by
  unfold Reaches bareTarget
  rw [RelationPath.terminalAlias_bare]
  show (∃ last ∈ db.related (t.1.hops.map Hop.bare) r, _) ↔ _
  rw [related_bare]

/-- Targets that differ in cardinalities are reached by the same rows. -/
theorem Database.exists_reaches_congr {db : Database}
    {targets others : List (RelationPath × Predicate)}
    (h : others.map bareTarget = targets.map bareTarget) {r : Row} :
    (∃ t ∈ others, db.Reaches t r) ↔ ∃ t ∈ targets, db.Reaches t r := by
  have bare : ∀ list : List (RelationPath × Predicate),
      (∃ t ∈ list, db.Reaches t r) ↔ ∃ t ∈ list.map bareTarget, db.Reaches t r := by
    intro list
    simp only [exists_mem_map, reaches_bare]
  rw [bare others, h, ← bare targets]

/-- A criterion rejects the same values under any cardinalities. -/
theorem Criterion.targets_eq_error {criterion : Criterion} {ctx other : RuleContext}
    (h : other.bare = ctx.bare) {condition : Condition} {value : FilterValue}
    {rejection : Rejection} (hreject : criterion.targets ctx condition value = .error rejection) :
    criterion.targets other condition value = .error rejection := by
  have hboth := criterion.targets_bare other condition value
  rw [h, criterion.targets_bare, hreject] at hboth
  exact Traversal.map_eq_error.1 hboth.symm

/-- A criterion asks the same under any cardinalities. -/
theorem Criterion.exists_targets {criterion : Criterion} {ctx other : RuleContext}
    (h : other.bare = ctx.bare) {condition : Condition} {value : FilterValue}
    {targets : List (RelationPath × Predicate)}
    (htargets : criterion.targets ctx condition value = .ok targets) :
    ∃ others, criterion.targets other condition value = .ok others ∧
      others.map bareTarget = targets.map bareTarget := by
  have hboth := criterion.targets_bare other condition value
  rw [h, criterion.targets_bare, htargets] at hboth
  exact Traversal.map_eq_ok.1 hboth.symm

/-- A rule rejects the same values under any cardinalities. -/
theorem Rule.apply_eq_error {rule : Rule} {ctx other : RuleContext} (h : other.bare = ctx.bare)
    {condition : Condition} {value : FilterValue} {rejection : Rejection}
    (hreject : rule.apply ctx condition value = .error rejection) :
    rule.apply other condition value = .error rejection := by
  cases rule with
  | related criterion =>
    rcases Traversal.bind_eq_error.1 hreject with hreject | ⟨targets, -, hreject⟩
    · exact Traversal.bind_eq_error.2 (.inl (Criterion.targets_eq_error h hreject))
    · cases hreject
  | count path sizes =>
    rcases Traversal.bind_eq_error.1 hreject with hreject | ⟨found, -, hreject⟩
    · exact Traversal.bind_eq_error.2 (.inl hreject)
    · cases hreject

/-! ## What filters contribute -/

namespace Compiler

/-- Two compilers differ at most in the cardinalities that their catalogs declare. -/
structure Alike (c d : Compiler) : Prop where
  /-- The configurations are the same. -/
  config : c.config = d.config
  /-- The rules are the same. -/
  table : c.table = d.table
  /-- The catalogs have the same relations. -/
  relations : c.catalog.SameRelations d.catalog

variable {c d : Compiler} {user : Option Int64} {domain : Domain} {filters : FilterSet}
  {e : FilterKey × FilterValue}

/-- Compilers are alike both ways. -/
theorem Alike.symm (h : c.Alike d) : d.Alike c :=
  ⟨h.config.symm, h.table.symm, h.relations.symm⟩

/-- A filter has the same rule under alike compilers. -/
theorem Alike.rule? (h : c.Alike d) (domain : Domain) (key : FilterKey) :
    d.rule? domain key = c.rule? domain key := by
  unfold Compiler.rule?
  rw [h.table]

/-- Rules of alike compilers read the same up to cardinalities. -/
theorem Alike.context_bare (h : c.Alike d) (hc : c.Lawful) (hd : d.Lawful)
    (user : Option Int64) :
    (d.context user).bare = (c.context user).bare := by
  have hpaths : d.paths.bare = c.paths.bare :=
    congrArg ReadPaths.mk (funext (ReadPaths.get_bare h.relations hc.paths hd.paths))
  unfold context RuleContext.bare
  dsimp only
  rw [hpaths, h.config]

namespace Lawful

/-- What a rule makes of a value under alike compilers selects the same rows. -/
theorem exists_apply (hc : c.Lawful) (hd : d.Lawful) (h : c.Alike d) {key : RuleKey} {rule : Rule}
    (hrule : c.table.resolve key = some rule) {condition : Condition} {value : FilterValue}
    {a : Association} (ha : rule.apply (c.context user) condition value = .ok a) :
    ∃ b, rule.apply (d.context user) condition value = .ok b ∧
      ∀ (db : Database) (start : Table) (r : Row), db.Honours c.catalog → db.Honours d.catalog →
        c.catalog.table? key.domain.rootTable = some start → db.Keyed start.name start.key r →
          (db.Selects start.name a.predicate a.extraJoins r ↔
            db.Selects start.name b.predicate b.extraJoins r) := by
  have hbare := h.context_bare hc hd user
  have hreads := hc.readsFrom hrule
  cases rule with
  | related criterion =>
    obtain ⟨targets, htargets, rfl⟩ := Rule.apply_related.1 ha
    obtain ⟨others, hothers, hsame⟩ := Criterion.exists_targets hbare htargets
    refine ⟨_, Rule.apply_related.2 ⟨others, hothers, rfl⟩, ?_⟩
    intro db start r hdb hdb' hstart hr
    -- Both forms are about the rows that some target reaches.
    have hserves := Criterion.serves_targets hc.coherent hc.paths hstart hreads htargets
    rw [h.relations.table?] at hstart
    have hserves' := Criterion.serves_targets hd.coherent hd.paths hstart hreads hothers
    rw [Database.selects_existsAlongAny hc.coherent hdb hserves hr,
      Database.selects_existsAlongAny hd.coherent hdb' hserves' hr]
    exact Mode.keeps_congr (Database.exists_reaches_congr hsame).symm
  | count path sizes =>
    obtain ⟨found, hfound, rfl⟩ := Rule.apply_count.1 ha
    refine ⟨_, Rule.apply_count.2 ⟨found, hfound, rfl⟩, fun _ _ _ _ _ _ _ => ?_⟩
    -- A count is put as one subquery in either case.
    have same : ∀ size : CompareOp × Int64,
        (d.paths.get path).countAlong size.1 size.2 =
          (c.paths.get path).countAlong size.1 size.2 := by
      intro size
      rw [← RelationPath.countAlong_bare, ReadPaths.get_bare h.relations hc.paths hd.paths,
        RelationPath.countAlong_bare]
    show _ ↔ Database.Selects _ _ (.disj (found.map fun size =>
      ((d.paths.get path).countAlong size.1 size.2).predicate)) _ _
    simp only [same]
    rfl

/-- What a filter contributes under alike compilers selects the same rows. -/
theorem exists_contribution (hc : c.Lawful) (hd : d.Lawful) (h : c.Alike d) {a : Association}
    (ha : c.contribution user domain e = .ok (some a)) :
    ∃ b, d.contribution user domain e = .ok (some b) ∧
      ∀ (db : Database) (start : Table) (r : Row), db.Honours c.catalog → db.Honours d.catalog →
        c.catalog.table? domain.rootTable = some start → db.Keyed start.name start.key r →
          (db.Selects start.name a.predicate a.extraJoins r ↔
            db.Selects start.name b.predicate b.extraJoins r) := by
  obtain ⟨condition, rule, hrule, ha⟩ := contribution_eq_some.1 ha
  have hrule' := (h.rule? domain e.1).trans hrule
  rcases ha with happly | ⟨rejection, hreject, hmandatory, hpolicy, rfl⟩
  · obtain ⟨topic, -, hresolve⟩ := rule?_eq_some_iff.1 hrule
    obtain ⟨b, hb, hselects⟩ := hc.exists_apply hd h hresolve happly
    exact ⟨b, contribution_eq_some.2 ⟨condition, rule, hrule', .inl hb⟩, hselects⟩
  · have hreject' := Rule.apply_eq_error (h.context_bare hc hd user) hreject
    refine ⟨⟨.never, []⟩, contribution_eq_some.2 ⟨condition, rule, hrule',
      .inr ⟨rejection, hreject', h.config ▸ hmandatory, hpolicy, rfl⟩⟩, ?_⟩
    exact fun _ _ _ _ _ _ _ => Iff.rfl

/-- A filter that admits a row under one of two alike compilers admits it under the other. -/
theorem admits_of_alike (hc : c.Lawful) (hd : d.Lawful) (h : c.Alike d) {db : Database}
    (hdb : db.Honours c.catalog) (hdb' : db.Honours d.catalog) {start : Table}
    (hstart : c.catalog.table? domain.rootTable = some start) {r : Row}
    (hr : db.Keyed start.name start.key r) (hadmits : c.Admits db user domain e r) :
    d.Admits db user domain e r := by
  intro b hb
  have hname := hc.coherent.table_name hstart
  rw [h.relations.table?] at hstart
  obtain ⟨a, ha, hselects⟩ := hd.exists_contribution hc h.symm hb
  rw [← hname]
  refine (hselects db start r hdb' hdb hstart hr).2 ?_
  rw [hname]
  exact hadmits a ha

/-- Two alike compilers give scopes that select the same rows. -/
theorem selects_iff_of_alike (hc : c.Lawful) (hd : d.Lawful) (h : c.Alike d) {s t : Scope}
    (hs : c.compileDomain domain filters user = .ok s)
    (ht : d.compileDomain domain filters user = .ok t) {db : Database}
    (hdb : db.Honours c.catalog) (hdb' : db.Honours d.catalog) {start : Table}
    (hstart : c.catalog.table? domain.rootTable = some start) {r : Row}
    (hr : db.Keyed start.name start.key r) :
    db.Selects domain.rootTable s.predicate s.extraJoins r ↔
      db.Selects domain.rootTable t.predicate t.extraJoins r := by
  rw [hc.selects_compiled hs, hd.selects_compiled ht]
  refine forall₂_congr fun e _ => ⟨hc.admits_of_alike hd h hdb hdb' hstart hr, ?_⟩
  exact hd.admits_of_alike hc h.symm hdb' hdb (h.relations.table? _ ▸ hstart) hr

end Lawful

end Compiler

/-- Two catalogs that differ in the cardinalities of their edges only compile a set of filters to
scopes that select the same ids, in a database that honours both and whose root rows are identified
by their key. -/
theorem select_eq_of_sameRelations {config : Config} {catalog other : Catalog} {table : RuleTable}
    {c d : Compiler} (hcatalog : catalog.Built) (hother : other.Built)
    (hsame : catalog.SameRelations other) (htable : RuleTable.standard = .ok table)
    (hc : Compiler.ofParts config catalog table = .ok c)
    (hd : Compiler.ofParts config other table = .ok d) {domain : Domain} {filters : FilterSet}
    {user : Option Int64} {s t : Scope} (hs : c.compileDomain domain filters user = .ok s)
    (ht : d.compileDomain domain filters user = .ok t) {db : Database}
    (hdb : db.Honours catalog) (hdb' : db.Honours other) {start : Table}
    (hstart : catalog.table? domain.rootTable = some start)
    (hunique : db.UniqueIn domain.rootTable start.key)
    (hkey : ∀ row ∈ db.rows domain.rootTable, Row.value row start.key ≠ .null)
    (hid : ∀ row ∈ db.rows domain.rootTable, ∃ id, Row.value row "id" = .int id) :
    ∃ ids, db.select domain s = .ok ids ∧ db.select domain t = .ok ids := by
  have hlawful := Compiler.lawful_ofParts hcatalog htable hc
  have hlawful' := Compiler.lawful_ofParts hother htable hd
  obtain ⟨-, -, -, hconfig, rfl, hrules⟩ := Compiler.ofParts_eq_ok.1 hc
  obtain ⟨-, -, -, hconfig', rfl, hrules'⟩ := Compiler.ofParts_eq_ok.1 hd
  have halike : c.Alike d := ⟨hconfig.trans hconfig'.symm, hrules.trans hrules'.symm, hsame⟩
  have hname := hlawful.coherent.table_name hstart
  refine ⟨_, hlawful.select_compiled hdb hid hs, ?_⟩
  rw [hlawful'.select_compiled hdb' hid ht, Except.ok.injEq]
  -- The scopes select the same rows, each of which is identified by its key.
  refine congrArg (List.filterMap Row.id?) (List.filter_congr fun r hr => ?_)
  have hkeyed : db.Keyed start.name start.key r := by
    rw [hname]
    exact ⟨hr, hunique, hkey r hr⟩
  rw [decide_eq_decide]
  exact (hlawful.selects_iff_of_alike hlawful' halike hs ht hdb hdb' hstart hkeyed).symm

/-- Under the standard catalog and under its counterpart in which every edge fans out, two filters
select the same of three grants. -/
theorem select_threeGrants_fanning :
    ∃ catalog other, ∃ table : RuleTable, ∃ c d s t ids, Catalog.standard = .ok catalog ∧
      catalog.SameRelations other ∧
      (∀ key edge, other.edges.get? key = some edge → edge.cardinality = .oneToMany) ∧
      Compiler.ofParts Config.common catalog table = .ok c ∧
      Compiler.ofParts Config.common other table = .ok d ∧
      c.compileDomain .grant .recipientAndRegion none = .ok s ∧
      d.compileDomain .grant .recipientAndRegion none = .ok t ∧
      Database.threeGrants.select .grant s = .ok ids ∧
      Database.threeGrants.select .grant t = .ok ids := by
  obtain ⟨c, hc, hconfig⟩ := Compiler.exists_ofConfig Config.fault?_common rfl
  obtain ⟨catalog, table, hcatalog, htable, hparts⟩ := Compiler.ofConfig_eq_ok.1 hc
  have hbuilt := Catalog.built_of_build hcatalog
  obtain ⟨other, hother, hsame, hfan⟩ := hbuilt.exists_fanning
  obtain ⟨hfault, hpaths, hmandatory, -⟩ := Compiler.ofParts_eq_ok.1 hparts
  -- The counterpart has the paths of the standard catalog.
  obtain ⟨others, hothers⟩ := ReadPaths.exists_resolve_of_same hsame hpaths
  have hparts' : Compiler.ofParts Config.common other table =
      .ok ⟨Config.common, other, others, table⟩ :=
    Compiler.ofParts_eq_ok.2 ⟨hfault, hothers, hmandatory, rfl, rfl, rfl⟩
  have compiles : ∀ c : Compiler, c.config = Config.common →
      ∃ s, c.compileDomain .grant .recipientAndRegion none = .ok s := by
    intro c hconfig
    apply Compiler.exists_compileDomain
    rw [hconfig]
    exact fun _ _ => rfl
  obtain ⟨s, hs⟩ := compiles c hconfig
  obtain ⟨t, ht⟩ := compiles ⟨Config.common, other, others, table⟩ rfl
  obtain ⟨start, hstart⟩ := (Compiler.lawful_ofParts hbuilt htable hparts).exists_root .grant
  obtain ⟨-, -, -, -, rfl, -⟩ := Compiler.ofParts_eq_ok.1 hparts
  have hidentified := Database.identified_threeGrants
  have hkey : start.key = "id" := Catalog.standard_key hcatalog hstart
  obtain ⟨ids, hids, hids'⟩ := select_eq_of_sameRelations hbuilt hother hsame htable hparts hparts'
    hs ht (Catalog.honours_standard hcatalog hidentified)
    (fun key edge hedge hcard => by rw [hfan key edge hedge] at hcard; cases hcard) hstart
    (hkey ▸ hidentified.uniqueIn)
    (fun row hrow => hkey ▸ (hidentified.keyed hrow).not_null) (hidentified.integer _)
  exact ⟨c.catalog, other, table, c, _, s, t, ids, hcatalog, hsame, hfan, hparts, hparts', hs, ht,
    hids, hids'⟩

end RowScope
