import RowScope.Compiler
import RowScope.Proofs.Relation.Acceptance
import RowScope.Proofs.Rule.Asks

/-!
# What each filter contributes

`Compiler.compileDomain` works through the filters of a set one after the other and changes a scope
at each. What a filter does to the scope does not depend on the scope: it contributes one condition
or nothing, or stops the compilation (`Compiler.contribution`). This much holds with rules of any
type. A compiler with the standard rules and a built catalog (`Compiler.Lawful`) contributes sound
conditions only, so a compiled scope is sound, and it selects the root rows that all filters admit
(`Lawful.selects_compiled`).
-/

namespace RowScope

/-- The set of one filter. -/
def FilterSet.only (filter : FilterKey × FilterValue) : FilterSet :=
  OrderedMap.empty.insert filter.1 filter.2

/-- The set of one filter has no other. -/
theorem FilterSet.entries_only (filter : FilterKey × FilterValue) :
    (FilterSet.only filter).entries = [filter] :=
  OrderedMap.entries_insert_empty filter.1 filter.2

/-- The key of the filters of a topic under a condition. -/
def FilterKey.named (topic : Topic) (condition : Condition) : FilterKey :=
  ⟨topic.name, condition.name⟩

/-- The name of a topic is read as that topic. -/
theorem Topic.ofName?_name (topic : Topic) : Topic.ofName? topic.name = some topic := by
  have all : ∀ t ∈ Topic.all, Topic.ofName? t.name = some t := by decide
  exact all topic (by cases topic <;> decide)

/-- The name of a condition is read as that condition. -/
theorem Condition.ofName?_name (condition : Condition) :
    Condition.ofName? condition.name = some condition := by
  cases condition <;> rfl

/-- The scope under one more condition or none. -/
def Scope.extend (s : Scope) : Option Association → Scope
  | none => s
  | some a => s.constrain a

/-- The common configuration has no faults. -/
theorem Config.fault?_common : Config.common.fault? = none := by
  have hformat : (Text.trimChars Config.common.dateFormat.toList).isEmpty = false := by decide
  have hhyphen : Config.common.dateFormat.toList.contains '-' = false := by decide
  have hvalues : (VocabularyName.all.find? fun name =>
      (Config.common.vocabularies.get name).values.isEmpty) = none := by
    have each : ∀ name, (Config.common.vocabularies.get name).values.isEmpty = false := by
      intro name
      cases name <;> exact OrderedSet.isEmpty_ofList_cons _ _
    simp [each]
  have hmandatory : (Config.common.mandatoryFilters.find? fun text =>
      (FilterKey.ofText? text).isNone) = none := rfl
  unfold Config.fault?
  rw [hformat, hhyphen, hmandatory, hvalues]
  rfl

namespace Compiler

section AnyRules

variable {ρ : Type} {c : Compiler ρ} {user : Option Int64} {domain : Domain} {filters : FilterSet}
  {s : Scope}

/-! ## Compilers and their rules -/

/-- A compiler is made of a configuration without faults, a catalog with all paths, and a table that
has rules for the mandatory filters. -/
theorem ofParts_eq_ok {config : Config} {catalog : Catalog} {table : RuleTable ρ} :
    ofParts config catalog table = .ok c ↔
      config.fault? = none ∧ ReadPaths.resolve catalog = .ok c.paths ∧
      (∀ text ∈ config.mandatoryFilters, isRegistered table text = true) ∧
      c.config = config ∧ c.catalog = catalog ∧ c.table = table := by
  -- The three checks come one after the other: the configuration, the paths, the mandatory filters.
  have valid : (∃ u, config.validate.mapError ScopeError.config = .ok u) ↔
      config.fault? = none := by
    simp only [Traversal.mapError_eq_ok]
    unfold Config.validate
    cases config.fault? <;> simp
  unfold ofParts
  rw [Traversal.bind_eq_ok]
  constructor
  · rintro ⟨u, hu, h⟩
    obtain ⟨paths, hpaths, h⟩ := Traversal.bind_eq_ok.1 h
    rw [Traversal.mapError_eq_ok] at hpaths
    split at h
    · cases h
    · next hnone =>
      cases h
      exact ⟨valid.1 ⟨u, hu⟩, hpaths, by simpa using hnone, rfl, rfl, rfl⟩
  · rintro ⟨hfault, hpaths, hregistered, rfl, rfl, rfl⟩
    obtain ⟨u, hu⟩ := valid.2 hfault
    refine ⟨u, hu, Traversal.bind_eq_ok.2 ⟨c.paths, Traversal.mapError_eq_ok.2 hpaths, ?_⟩⟩
    have hnone : (c.config.mandatoryFilters.find? fun text => !isRegistered c.table text) =
        none := by simpa using hregistered
    rw [hnone]
    rfl

/-- The rule of a filter is the one that the table has for the topic and the condition that the key
of the filter names. -/
theorem rule?_eq_some_iff {key : FilterKey} {condition : Condition} {rule : ρ} :
    c.rule? domain key = some (condition, rule) ↔
      ∃ topic, RuleTable.parseKey? key.topic key.condition = some (topic, condition) ∧
        c.table.resolve ⟨domain, topic, condition⟩ = some rule := by
  unfold rule?
  constructor
  · intro h
    obtain ⟨⟨topic, _⟩, hparse, h⟩ := Option.bind_eq_some_iff.1 h
    obtain ⟨_, hresolve, h⟩ := Option.bind_eq_some_iff.1 h
    cases h
    exact ⟨topic, hparse, hresolve⟩
  · rintro ⟨topic, hparse, hresolve⟩
    refine Option.bind_eq_some_iff.2 ⟨(topic, condition), hparse, ?_⟩
    exact Option.bind_eq_some_iff.2 ⟨rule, hresolve, rfl⟩

/-- The rule of a named filter is the one that the table has under its key. -/
theorem rule?_named (domain : Domain) (topic : Topic) (condition : Condition) :
    c.rule? domain (FilterKey.named topic condition) =
      (c.table.resolve ⟨domain, topic, condition⟩).map fun rule => (condition, rule) := by
  unfold rule? RuleTable.parseKey? FilterKey.named
  rw [Topic.ofName?_name, Condition.ofName?_name]
  cases h : c.table.resolve ⟨domain, topic, condition⟩ <;> simp [h]

/-! ## Contributions -/

variable [Builder ρ]

/-- The condition that a filter contributes to the scope of a domain, none if it says nothing. -/
def contribution (c : Compiler ρ) (user : Option Int64) (domain : Domain)
    (filter : FilterKey × FilterValue) : Except ScopeError (Option Association) :=
  match c.rule? domain filter.1 with
  | none => .ok none
  | some (condition, rule) =>
    match Builder.build (c.context user) condition filter.2 rule with
    | .ok a => .ok (some a)
    | .error rejection =>
      if c.config.isMandatory filter.1 then .error (.mandatoryRejected filter.1)
      else
        match rejection.policy with
        | .ignore => .ok none
        | .matchNothing => .ok (some ⟨.never, []⟩)

/-- A filter admits a root row if the condition that it contributes, if any, selects the row. -/
def Admits (c : Compiler ρ) (db : Database) (user : Option Int64) (domain : Domain)
    (filter : FilterKey × FilterValue) (r : Row) : Prop :=
  ∀ a, c.contribution user domain filter = .ok (some a) →
    db.Selects domain.rootTable a.predicate a.extraJoins r

/-- The scope of one filter alone selects some ids. -/
def Chooses (c : Compiler ρ) (db : Database) (user : Option Int64) (domain : Domain)
    (filter : FilterKey × FilterValue) (ids : List Int64) : Prop :=
  ∃ s, c.compileDomain domain (FilterSet.only filter) user = .ok s ∧ db.select domain s = .ok ids

/-- The ids that a filter selects alone, none if it does not compile. -/
def idsAlone (c : Compiler ρ) (db : Database) (user : Option Int64) (domain : Domain)
    (filter : FilterKey × FilterValue) : List Int64 :=
  match c.compileDomain domain (FilterSet.only filter) user with
  | .ok s => db.selectedIds domain.rootTable s.predicate s.extraJoins
  | .error _ => []

/-- A filter extends the scope by what it contributes. -/
theorem addFilter_eq (filter : FilterKey × FilterValue) :
    c.addFilter user domain s filter = (c.contribution user domain filter).map s.extend := by
  unfold addFilter contribution
  cases c.rule? domain filter.1 with
  | none => rfl
  | some found =>
    dsimp only
    cases Builder.build (c.context user) found.1 filter.2 found.2 with
    | ok a => rfl
    | error rejection =>
      dsimp only
      split
      · rfl
      · cases rejection.policy <;> rfl

/-- Filters extend a scope by what each of them contributes. -/
theorem foldlM_addFilter_eq_ok {entries : List (FilterKey × FilterValue)} {first : Scope} :
    entries.foldlM (c.addFilter user domain) first = .ok s ↔
      ∃ found, entries.mapM (c.contribution user domain) = .ok found ∧
        s = found.foldl Scope.extend first := by
  -- The first scope is any, since no contribution depends on the scope before it.
  induction entries generalizing first with
  | nil =>
    constructor
    · intro h
      cases h
      exact ⟨[], rfl, rfl⟩
    · rintro ⟨found, hfound, rfl⟩
      cases hfound
      rfl
  | cons e entries ih =>
    rw [List.foldlM_cons, addFilter_eq, Traversal.bind_eq_ok]
    constructor
    · rintro ⟨next, hnext, h⟩
      obtain ⟨here, hhere, rfl⟩ := Traversal.map_eq_ok.1 hnext
      obtain ⟨found, hfound, rfl⟩ := ih.1 h
      have hall : (e :: entries).mapM (c.contribution user domain) = .ok (here :: found) :=
        Traversal.mapM_cons_eq_ok.2 ⟨here, found, hhere, hfound, rfl⟩
      exact ⟨here :: found, hall, rfl⟩
    · rintro ⟨all, hall, rfl⟩
      obtain ⟨here, found, hhere, hfound, rfl⟩ := Traversal.mapM_cons_eq_ok.1 hall
      have hnext : (c.contribution user domain e).map first.extend = .ok (first.extend here) :=
        Traversal.map_eq_ok.2 ⟨here, hhere, rfl⟩
      exact ⟨first.extend here, hnext, ih.2 ⟨found, hfound, rfl⟩⟩

/-- A compiled scope is that of the contributions of all filters. -/
theorem compileDomain_eq_ok :
    c.compileDomain domain filters user = .ok s ↔
      ∃ found, filters.entries.mapM (c.contribution user domain) = .ok found ∧
        s = found.foldl Scope.extend .identity :=
  foldlM_addFilter_eq_ok

/-- A filter contributes what its rule makes of its value, or the condition that no row meets if the
value is rejected with that policy and need not be used. -/
theorem contribution_eq_some {filter : FilterKey × FilterValue} {a : Association} :
    c.contribution user domain filter = .ok (some a) ↔
      ∃ condition rule, c.rule? domain filter.1 = some (condition, rule) ∧
        (Builder.build (c.context user) condition filter.2 rule = .ok a ∨
          ∃ rejection, Builder.build (c.context user) condition filter.2 rule = .error rejection ∧
            c.config.isMandatory filter.1 = false ∧ rejection.policy = .matchNothing ∧
            a = ⟨.never, []⟩) := by
  constructor
  · intro h
    unfold contribution at h
    split at h
    · cases h
    · next condition rule hrule =>
      refine ⟨condition, rule, hrule, ?_⟩
      split at h
      · next b happly =>
        cases h
        exact .inl happly
      · next rejection happly =>
        refine .inr ⟨rejection, happly, ?_⟩
        split at h
        · cases h
        · next hmandatory =>
          split at h
          · cases h
          · next hpolicy =>
            cases h
            exact ⟨Bool.not_eq_true _ ▸ hmandatory, hpolicy, rfl⟩
  · rintro ⟨condition, rule, hrule, happly | ⟨rejection, happly, hmandatory, hpolicy, rfl⟩⟩
    · simp only [contribution, hrule, happly]
    · simp only [contribution, hrule, happly, hmandatory, hpolicy, Bool.false_eq_true, if_false]

/-- A named filter whose value its rule takes contributes what the rule makes of it. -/
theorem contribution_named {topic : Topic} {condition : Condition} {rule : ρ} {a : Association}
    {value : FilterValue} (hr : c.table.resolve ⟨domain, topic, condition⟩ = some rule)
    (ha : Builder.build (c.context user) condition value rule = .ok a) :
    c.contribution user domain (FilterKey.named topic condition, value) = .ok (some a) := by
  unfold contribution
  rw [rule?_named, hr]
  simp only [Option.map_some, ha]

/-- A filter that contributes something compiles alone. -/
theorem compileDomain_contribution {e : FilterKey × FilterValue} {found : Option Association}
    (h : c.contribution user domain e = .ok found) :
    c.compileDomain domain (FilterSet.only e) user = .ok (Scope.identity.extend found) := by
  refine compileDomain_eq_ok.2 ⟨[found], ?_, rfl⟩
  rw [FilterSet.entries_only]
  exact Traversal.mapM_cons_eq_ok.2 ⟨found, [], h, rfl, rfl⟩

/-- A set of filters that compiles has filters that compile alone. -/
theorem compileDomain_only (h : c.compileDomain domain filters user = .ok s)
    {e : FilterKey × FilterValue} (he : e ∈ filters.entries) :
    ∃ one, c.compileDomain domain (FilterSet.only e) user = .ok one := by
  obtain ⟨found, hfound, -⟩ := compileDomain_eq_ok.1 h
  obtain ⟨here, -, hhere⟩ := Traversal.ok_of_mem hfound he
  exact ⟨_, compileDomain_contribution hhere⟩

/-- Filters of which none is mandatory compile. -/
theorem exists_compileDomain (h : ∀ e ∈ filters.entries, c.config.isMandatory e.1 = false) :
    ∃ s, c.compileDomain domain filters user = .ok s := by
  have found : ∀ e ∈ filters.entries, ∃ found, c.contribution user domain e = .ok found := by
    intro e he
    unfold contribution
    split
    · exact ⟨none, rfl⟩
    · split
      · exact ⟨some _, rfl⟩
      · -- A rejected value is left to the policy of its rule.
        rw [if_neg (by simp [h e he])]
        split
        · exact ⟨none, rfl⟩
        · exact ⟨some _, rfl⟩
  obtain ⟨found, hfound⟩ := Traversal.exists_mapM found
  exact ⟨_, compileDomain_eq_ok.2 ⟨found, hfound, rfl⟩⟩

/-- Domains that all compile are compiled one after the other. -/
theorem compile_of_found {found : Domain → Scope}
    (h : ∀ domain, c.compileDomain domain filters user = .ok (found domain)) :
    c.compile filters user =
      .ok (OrderedMap.ofList (Domain.all.map fun domain => (domain, found domain))) := by
  simp only [compile, Domain.all, List.foldlM_cons, List.foldlM_nil, h]
  rfl

/-- Every domain compiles where a compilation succeeds. -/
theorem exists_of_compile {scopes : Scopes} (h : c.compile filters user = .ok scopes)
    (domain : Domain) : ∃ s, c.compileDomain domain filters user = .ok s := by
  simp only [compile, Domain.all, List.foldlM_cons, List.foldlM_nil, bind_assoc, pure_bind,
    Traversal.bind_eq_ok] at h
  obtain ⟨grant, hgrant, report, hreport, goal, hgoal, training, htraining, recipient,
    hrecipient, -⟩ := h
  cases domain
  · exact ⟨grant, hgrant⟩
  · exact ⟨report, hreport⟩
  · exact ⟨goal, hgoal⟩
  · exact ⟨training, htraining⟩
  · exact ⟨recipient, hrecipient⟩

/-- The scopes of a compilation are those of the domains, in canonical order. -/
theorem compile_eq_ok {scopes : Scopes} : c.compile filters user = .ok scopes ↔
    ∃ found : Domain → Scope, (∀ domain, c.compileDomain domain filters user = .ok (found domain)) ∧
      scopes.entries = Domain.all.map fun domain => (domain, found domain) := by
  constructor
  · intro h
    obtain ⟨found, hfound⟩ := Classical.axiomOfChoice (exists_of_compile h)
    rw [compile_of_found hfound] at h
    cases h
    exact ⟨found, hfound, rfl⟩
  · rintro ⟨found, hfound, hentries⟩
    rw [compile_of_found hfound]
    exact congrArg Except.ok (OrderedMap.eq_of_entries hentries.symm)

end AnyRules

/-! ## Compilers with the standard rules -/

variable {c : Compiler} {user : Option Int64} {domain : Domain} {filters : FilterSet} {s : Scope}

/-- The catalog of a compiler is built, its paths are those of the catalog, and its rules are the
standard ones. -/
structure Lawful (c : Compiler) : Prop where
  /-- The catalog is coherent. -/
  coherent : c.catalog.Coherent
  /-- The paths are found in the catalog. -/
  paths : ReadPaths.resolve c.catalog = .ok c.paths
  /-- The rules are the standard ones. -/
  table : RuleTable.standard = .ok c.table

/-- A compiler made from a built catalog and the standard rules is lawful. -/
theorem lawful_ofParts {config : Config} {catalog : Catalog} {table : RuleTable}
    (hcatalog : catalog.Built) (htable : RuleTable.standard = .ok table)
    (h : ofParts config catalog table = .ok c) : c.Lawful := by
  obtain ⟨-, hpaths, -, -, rfl, rfl⟩ := ofParts_eq_ok.1 h
  exact ⟨hcatalog.coherent, hpaths, htable⟩

/-- A compiler of a configuration has the standard catalog and the standard rules. -/
theorem ofConfig_eq_ok {config : Config} :
    ofConfig config = .ok c ↔ ∃ catalog table, Catalog.standard = .ok catalog ∧
      RuleTable.standard = .ok table ∧ ofParts config catalog table = .ok c := by
  simp only [ofConfig, Traversal.bind_eq_ok, Traversal.mapError_eq_ok]
  constructor
  · rintro ⟨catalog, hcatalog, table, htable, h⟩
    exact ⟨catalog, table, hcatalog, htable, h⟩
  · rintro ⟨catalog, table, hcatalog, htable, h⟩
    exact ⟨catalog, hcatalog, table, htable, h⟩

/-- A compiler of a configuration is lawful and has the standard catalog. -/
theorem lawful_ofConfig {config : Config} (h : ofConfig config = .ok c) :
    c.Lawful ∧ Catalog.standard = .ok c.catalog := by
  obtain ⟨catalog, table, hcatalog, htable, h⟩ := ofConfig_eq_ok.1 h
  have hlawful := lawful_ofParts (Catalog.built_of_build hcatalog) htable h
  obtain ⟨-, -, -, -, rfl, -⟩ := ofParts_eq_ok.1 h
  exact ⟨hlawful, hcatalog⟩

/-- A configuration without faults and without mandatory filters is accepted. -/
theorem exists_ofConfig {config : Config} (hfault : config.fault? = none)
    (hnone : config.mandatoryFilters = []) : ∃ c, ofConfig config = .ok c ∧ c.config = config := by
  obtain ⟨catalog, paths, hcatalog, hpaths⟩ := ReadPaths.exists_resolve
  obtain ⟨table, htable⟩ := RuleTable.exists_standard
  refine ⟨⟨config, catalog, paths, table⟩, ofConfig_eq_ok.2 ⟨catalog, table, hcatalog, htable,
    ofParts_eq_ok.2 ⟨hfault, hpaths, ?_, rfl, rfl, rfl⟩⟩, rfl⟩
  simp [hnone]

/-- The common configuration is accepted, and all filters compile under it. -/
theorem exists_common : ∃ c, ofConfig Config.common = .ok c ∧
    ∀ domain filters user, ∃ s, c.compileDomain domain filters user = .ok s := by
  obtain ⟨c, hc, hconfig⟩ := exists_ofConfig Config.fault?_common rfl
  refine ⟨c, hc, fun domain filters user => exists_compileDomain ?_⟩
  rw [hconfig]
  exact fun _ _ => rfl

namespace Lawful

/-- The root table of each domain is in the catalog. -/
theorem exists_root (h : c.Lawful) (domain : Domain) :
    ∃ start, c.catalog.table? domain.rootTable = some start := by
  have path : ∃ p : ReadPath, p.root = domain.rootTable := by
    cases domain
    · exact ⟨.grant, rfl⟩
    · exact ⟨.report, rfl⟩
    · exact ⟨.goal, rfl⟩
    · exact ⟨.trainingReport, rfl⟩
    · exact ⟨.recipient, rfl⟩
  obtain ⟨p, hp⟩ := path
  rw [← hp]
  exact ReadPaths.table_eq h.paths p

variable {start : Table}

/-- A rule of a domain is a standard one. -/
theorem readsFrom (h : c.Lawful) {key : RuleKey} {rule : Rule}
    (hr : c.table.resolve key = some rule) : rule.readsFrom key.domain.rootTable = true := by
  obtain ⟨r, hmem, -, -, rfl⟩ := (RuleTable.standard_resolve h.table).1 hr
  exact key.domain.readsFrom_standardRules r hmem

/-- A rule of a domain asks properly. -/
theorem asksProperly (h : c.Lawful) {key : RuleKey} {rule : Rule}
    (hr : c.table.resolve key = some rule) : rule.asksProperly = true := by
  obtain ⟨r, hmem, -, -, rfl⟩ := (RuleTable.standard_resolve h.table).1 hr
  exact key.domain.asks_standardRules r hmem

/-- What a filter contributes is made by a standard rule, or is the condition that no row meets. -/
theorem contributes (h : c.Lawful) {filter : FilterKey × FilterValue} {a : Association}
    (ha : c.contribution user domain filter = .ok (some a)) :
    Contributes c.paths user domain.rootTable a := by
  obtain ⟨condition, rule, hrule, ha⟩ := contribution_eq_some.1 ha
  -- The rule is one that the table gives for the domain.
  obtain ⟨topic, -, hresolve⟩ := rule?_eq_some_iff.1 hrule
  rcases ha with happly | ⟨rejection, -, -, -, rfl⟩
  · exact Rule.contributes h.paths (h.readsFrom hresolve) (h.asksProperly hresolve) happly
  · exact .never

/-- What a filter contributes is sound. -/
theorem sound_contribution (h : c.Lawful)
    (hstart : c.catalog.table? domain.rootTable = some start) {filter : FilterKey × FilterValue}
    {a : Association} (ha : c.contribution user domain filter = .ok (some a)) :
    Sound c.catalog start a.predicate a.extraJoins :=
  (h.contributes ha).sound h.coherent h.paths hstart

/-- Contributions extend a sound scope to a sound one, which selects the rows that the scope and the
contributions select. -/
theorem foldl_extend (db : Database) (r : Row) (found : List (Option Association))
    (hfound : ∀ a, some a ∈ found → Sound c.catalog start a.predicate a.extraJoins)
    (hs : Sound c.catalog start s.predicate s.extraJoins) :
    Sound c.catalog start (found.foldl Scope.extend s).predicate
        (found.foldl Scope.extend s).extraJoins ∧
      (db.Selects start.name (found.foldl Scope.extend s).predicate
          (found.foldl Scope.extend s).extraJoins r ↔
        db.Selects start.name s.predicate s.extraJoins r ∧
          ∀ a, some a ∈ found → db.Selects start.name a.predicate a.extraJoins r) := by
  -- Soundness goes along, since `selects_constrain` needs it of the scope at each contribution.
  induction found generalizing s with
  | nil => exact ⟨hs, by simp⟩
  | cons first found ih =>
    have hrest : ∀ a, some a ∈ found → Sound c.catalog start a.predicate a.extraJoins :=
      fun a ha => hfound a (List.mem_cons_of_mem first ha)
    cases first with
    | none =>
      obtain ⟨hsound, hselects⟩ := ih hrest hs
      refine ⟨hsound, hselects.trans ?_⟩
      simp
    | some a =>
      have ha := hfound a List.mem_cons_self
      obtain ⟨hsound, hselects⟩ := ih hrest (hs.constrain ha)
      refine ⟨hsound, hselects.trans ?_⟩
      rw [Database.selects_constrain hs ha]
      simp [and_assoc]

/-- What holds of the scope that leaves a query as it is, and is kept when a sound scope is put
under one more condition that the standard rules make, holds of every compiled scope. -/
theorem compiled_induction (h : c.Lawful)
    (hstart : c.catalog.table? domain.rootTable = some start) {P : Scope → Prop}
    (identity : P .identity)
    (constrain : ∀ (s : Scope) (a : Association), Sound c.catalog start s.predicate s.extraJoins →
      Contributes c.paths user domain.rootTable a → P s → P (s.constrain a))
    (hs : c.compileDomain domain filters user = .ok s) : P s := by
  obtain ⟨found, hfound, rfl⟩ := compileDomain_eq_ok.1 hs
  have made : ∀ a, some a ∈ found → Contributes c.paths user domain.rootTable a := by
    intro a ha
    obtain ⟨e, -, he⟩ := Traversal.mem_of_ok hfound ha
    exact h.contributes he
  clear hs hfound
  -- Soundness goes along, and the induction is over any scope to begin with.
  have fold : ∀ first : Scope, Sound c.catalog start first.predicate first.extraJoins → P first →
      P (found.foldl Scope.extend first) := by
    induction found with
    | nil => exact fun _ _ hfirst => hfirst
    | cons next found ih =>
      intro first hsound hfirst
      have ih := ih fun a ha => made a (List.mem_cons_of_mem next ha)
      cases next with
      | none => exact ih first hsound hfirst
      | some a =>
        have ha := made a List.mem_cons_self
        exact ih _ (hsound.constrain (ha.sound h.coherent h.paths hstart))
          (constrain first a hsound ha hfirst)
  exact fold .identity Sound.identity identity

/-- A compiled scope is sound. -/
theorem sound_compiled (h : c.Lawful) (hstart : c.catalog.table? domain.rootTable = some start)
    (hs : c.compileDomain domain filters user = .ok s) :
    Sound c.catalog start s.predicate s.extraJoins :=
  h.compiled_induction hstart (P := fun s => Sound c.catalog start s.predicate s.extraJoins)
    Sound.identity
    (fun _ _ hs ha _ => hs.constrain (ha.sound h.coherent h.paths hstart)) hs

/-- A compiled scope selects the root rows that all filters admit. -/
theorem selects_compiled (h : c.Lawful) (hs : c.compileDomain domain filters user = .ok s)
    (db : Database) (r : Row) :
    db.Selects domain.rootTable s.predicate s.extraJoins r ↔
      ∀ e ∈ filters.entries, c.Admits db user domain e r := by
  obtain ⟨start, hstart⟩ := h.exists_root domain
  have hname : start.name = domain.rootTable := h.coherent.table_name hstart
  obtain ⟨found, hfound, rfl⟩ := compileDomain_eq_ok.1 hs
  have hsound : ∀ a, some a ∈ found → Sound c.catalog start a.predicate a.extraJoins := by
    intro a ha
    obtain ⟨e, -, he⟩ := Traversal.mem_of_ok hfound ha
    exact h.sound_contribution hstart he
  have hselects := (foldl_extend db r found hsound Sound.identity).2
  rw [hname] at hselects
  rw [hselects]
  -- The contributions are those of the entries.
  constructor
  · rintro ⟨-, hall⟩ e he a ha
    obtain ⟨b, hb, heb⟩ := Traversal.ok_of_mem hfound he
    rw [ha] at heb
    exact hall a (Except.ok.inj heb ▸ hb)
  · refine fun hall => ⟨Database.selects_identity domain.rootTable r, fun a ha => ?_⟩
    obtain ⟨e, he, hea⟩ := Traversal.mem_of_ok hfound ha
    exact hall e he a hea

/-- A compiled scope gives the ids of the root rows that it selects. -/
theorem select_compiled (h : c.Lawful) {db : Database} (hdb : db.Honours c.catalog)
    (hid : ∀ row ∈ db.rows domain.rootTable, ∃ id, Row.value row "id" = .int id)
    (hs : c.compileDomain domain filters user = .ok s) :
    db.select domain s = .ok (db.selectedIds domain.rootTable s.predicate s.extraJoins) := by
  obtain ⟨start, hstart⟩ := h.exists_root domain
  exact Database.select_eq h.coherent hdb (h.coherent.table_name hstart)
    (h.sound_compiled hstart hs) hid

variable {e : FilterKey × FilterValue}

/-- A filter that compiles alone selects some ids. -/
theorem chooses_idsAlone (h : c.Lawful) {db : Database} (hdb : db.Honours c.catalog)
    (hid : ∀ row ∈ db.rows domain.rootTable, ∃ id, Row.value row "id" = .int id)
    (hs : c.compileDomain domain (FilterSet.only e) user = .ok s) :
    c.Chooses db user domain e (c.idsAlone db user domain e) := by
  refine ⟨s, hs, ?_⟩
  unfold idsAlone
  rw [hs]
  exact h.select_compiled hdb hid hs

/-- The id of a row is among those that a filter selects alone if the filter admits the row. -/
theorem mem_idsAlone (h : c.Lawful) {db : Database} (hdb : db.Identified)
    (hs : c.compileDomain domain (FilterSet.only e) user = .ok s) {r : Row} {id : Int64}
    (hr : r ∈ db.rows domain.rootTable) (hid : r.id? = some id) :
    id ∈ c.idsAlone db user domain e ↔ c.Admits db user domain e r := by
  unfold idsAlone
  rw [hs]
  dsimp only
  rw [hdb.mem_selectedIds hr hid, h.selects_compiled hs, FilterSet.entries_only,
    List.forall_mem_singleton]

/-- A filter that contributes a condition selects the rows that the condition selects. -/
theorem chooses_contribution (h : c.Lawful) {db : Database} (hdb : db.Honours c.catalog)
    (hid : ∀ row ∈ db.rows domain.rootTable, ∃ id, Row.value row "id" = .int id)
    {a : Association} (ha : c.contribution user domain e = .ok (some a)) :
    c.Chooses db user domain e (db.selectedIds domain.rootTable a.predicate a.extraJoins) := by
  have hs := compileDomain_contribution ha
  refine ⟨_, hs, ?_⟩
  rw [h.select_compiled hdb hid hs]
  have same : ∀ row, db.Selects domain.rootTable (Scope.identity.extend (some a)).predicate
      (Scope.identity.extend (some a)).extraJoins row ↔
        db.Selects domain.rootTable a.predicate a.extraJoins row := by
    intro row
    rw [h.selects_compiled hs, FilterSet.entries_only, List.forall_mem_singleton, Admits]
    simp [ha]
  simp only [Database.selectedIds, same]

end Lawful

end Compiler

end RowScope
