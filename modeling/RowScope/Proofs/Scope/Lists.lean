import RowScope.Proofs.Rule.Entries
import RowScope.Proofs.Scope.Partition

/-!
# Filters with lists

A list of texts selects by what its texts select alone (`list_combines_texts`): under a positive
condition the rows that one of its usable texts selects, under a negative one those that all of them
select. Texts that are rejected alone do not count, and a list is rejected only if all its texts
are. Rules about related rows have this from their criteria (`Criterion.readByText`), counts from
the disjunction of the numbers that they are compared with (`Compiler.Lawful.selects_count`).
-/

namespace RowScope

/-- How a mode brings texts together: one of the usable ones is to do, or all of them. -/
def Mode.Combines (mode : Mode) (usable holds : String → Prop) (entries : List String) : Prop :=
  match mode with
  | .including => ∃ e ∈ entries, usable e ∧ holds e
  | .excluding => ∀ e ∈ entries, usable e → holds e

instance (mode : Mode) (usable holds : String → Prop) [DecidablePred usable] [DecidablePred holds]
    (entries : List String) : Decidable (mode.Combines usable holds entries) :=
  match mode with
  | .including => inferInstanceAs (Decidable (∃ e ∈ entries, usable e ∧ holds e))
  | .excluding => inferInstanceAs (Decidable (∀ e ∈ entries, usable e → holds e))

/-- Lists with the same usable texts are brought together alike. -/
theorem Mode.combines_congr {mode : Mode} {usable holds others : String → Prop}
    {entries more : List String} (hmem : ∀ e, usable e → (e ∈ entries ↔ e ∈ more))
    (hholds : ∀ e, usable e → (holds e ↔ others e)) :
    mode.Combines usable holds entries ↔ mode.Combines usable others more := by
  cases mode with
  | including =>
    constructor
    · rintro ⟨e, he, hu, hh⟩
      exact ⟨e, (hmem e hu).1 he, hu, (hholds e hu).1 hh⟩
    · rintro ⟨e, he, hu, hh⟩
      exact ⟨e, (hmem e hu).2 he, hu, (hholds e hu).2 hh⟩
  | excluding =>
    constructor
    · exact fun h e he hu => (hholds e hu).1 (h e ((hmem e hu).2 he) hu)
    · exact fun h e he hu => (hholds e hu).2 (h e ((hmem e hu).1 he) hu)

/-- A rule takes a value if it takes one of its texts alone. -/
theorem Rule.accepts_entries (rule : Rule) (ctx : RuleContext) {condition : Condition}
    (h : condition.isDated = false) (value : FilterValue) :
    rule.Accepts ctx condition value ↔
      ∃ e ∈ value.entries, rule.Accepts ctx condition (.single e) := by
  cases rule with
  | related criterion =>
    simp only [Rule.accepts_related]
    exact (criterion.readByText ctx h).accepts value
  | count path sizes =>
    simp only [Rule.accepts_count, (readsEach_meanings (meaning? sizes)).accepts]
    simp [FilterValue.entries]

namespace Compiler.Lawful

variable {c : Compiler} {user : Option Int64} {domain : Domain} {condition : Condition}

/-- A count selects a root row if one of the numbers that its texts mean is right for the row. -/
theorem selects_count (h : c.Lawful) {path : ReadPath} {sizes : List (String × CompareOp × Int64)}
    (hrule : (Rule.count path sizes).readsFrom domain.rootTable = true) {value : FilterValue}
    {a : Association}
    (ha : (Rule.count path sizes).apply (c.context user) condition value = .ok a)
    (db : Database) (r : Row) :
    db.Selects domain.rootTable a.predicate a.extraJoins r ↔
      ∃ e ∈ value.entries, ∃ size, meaning? sizes e = some size ∧
        db.Selects domain.rootTable ((c.paths.get path).countAlong size.1 size.2).predicate []
          r := by
  obtain ⟨found, hfound, rfl⟩ := Rule.apply_count.1 ha
  have hmem := (readsEach_meanings (meaning? sizes)).mem hfound
  -- A count has no joins, so its condition is tried at the root row alone.
  unfold Database.Selects
  rw [List.foldl_nil, Database.meets_disj]
  · rw [exists_mem_map]
    constructor
    · rintro ⟨size, hsize, hmeets⟩
      obtain ⟨e, he, hmeaning⟩ := (hmem size).1 hsize
      exact ⟨e, he, size, hmeaning, hmeets⟩
    · rintro ⟨e, he, size, hmeaning, hmeets⟩
      exact ⟨size, (hmem size).2 ⟨e, he, hmeaning⟩, hmeets⟩
  · intro part hpart
    obtain ⟨size, -, rfl⟩ := List.mem_map.1 hpart
    apply Database.evaluates_of_closed
    have hpaths : ReadPaths.resolve c.catalog = .ok (c.context user).paths := h.paths
    exact Rule.closed_count h.coherent hpaths hrule size
      (List.mem_singleton_self domain.rootTable)

/-- A count selects a root row if what it makes of one of the texts does. -/
theorem combines_count (h : c.Lawful) {path : ReadPath} {sizes : List (String × CompareOp × Int64)}
    (hrule : (Rule.count path sizes).readsFrom domain.rootTable = true)
    (hmode : condition.mode = .including) {value : FilterValue} {a : Association}
    (ha : (Rule.count path sizes).apply (c.context user) condition value = .ok a)
    (db : Database) (r : Row) :
    db.Selects domain.rootTable a.predicate a.extraJoins r ↔
      condition.mode.Combines
        (fun e => (Rule.count path sizes).Accepts (c.context user) condition (.single e))
        (fun e => ∀ b, (Rule.count path sizes).apply (c.context user) condition (.single e) =
          .ok b → db.Selects domain.rootTable b.predicate b.extraJoins r) value.entries := by
  -- A single text selects the row if its own number is right.
  have hsingle : ∀ e b, (Rule.count path sizes).apply (c.context user) condition
      (.single e) = .ok b → (db.Selects domain.rootTable b.predicate b.extraJoins r ↔
        ∃ size, meaning? sizes e = some size ∧ db.Selects domain.rootTable
          ((c.paths.get path).countAlong size.1 size.2).predicate [] r) := by
    intro e b hb
    rw [h.selects_count hrule hb]
    simp [FilterValue.entries]
  rw [h.selects_count hrule ha, hmode]
  constructor
  · rintro ⟨e, he, size, hmeaning, hsel⟩
    refine ⟨e, he, ?_, fun b hb => (hsingle e b hb).2 ⟨size, hmeaning, hsel⟩⟩
    refine Rule.accepts_count.2 (((readsEach_meanings (meaning? sizes)).accepts _).2 ?_)
    exact ⟨e, List.mem_singleton_self e, size, hmeaning⟩
  · rintro ⟨e, he, husable, hall⟩
    obtain ⟨b, hb⟩ := Rule.accepts_iff.1 husable
    obtain ⟨size, hmeaning, hsel⟩ := (hsingle e b hb).1 (hall b hb)
    exact ⟨e, he, size, hmeaning, hsel⟩

/-- What a rule about related rows makes of a value selects a root row if what it makes of the
single texts does, as the mode brings them together. -/
theorem combines_related (h : c.Lawful) (hcatalog : Catalog.standard = .ok c.catalog)
    {criterion : Criterion} (hrule : (Rule.related criterion).readsFrom domain.rootTable = true)
    (hundated : condition.isDated = false) {value : FilterValue} {a : Association}
    (ha : (Rule.related criterion).apply (c.context user) condition value = .ok a) {db : Database}
    (hdb : db.Identified) {r : Row} (hrow : r ∈ db.rows domain.rootTable) :
    db.Selects domain.rootTable a.predicate a.extraJoins r ↔
      condition.mode.Combines
        (fun e => (Rule.related criterion).Accepts (c.context user) condition (.single e))
        (fun e => ∀ b, (Rule.related criterion).apply (c.context user) condition (.single e) =
          .ok b → db.Selects domain.rootTable b.predicate b.extraJoins r) value.entries := by
  have hread := criterion.readByText (c.context user) hundated
  have hselects := fun {value ts} (hts : criterion.targets (c.context user) condition value =
    .ok ts) => h.selects_related hcatalog hrule hts hdb hrow condition.mode
  obtain ⟨ts, hts, rfl⟩ := Rule.apply_related.1 ha
  rw [hselects hts, Mode.keeps_congr (hread.reaches hts db r)]
  -- A single text selects the row by the mode and the rows that it reaches.
  have hsingle : ∀ e us, criterion.targets (c.context user) condition (.single e) = .ok us →
      ((∀ b, (Rule.related criterion).apply (c.context user) condition (.single e) = .ok b →
        db.Selects domain.rootTable b.predicate b.extraJoins r) ↔
          condition.mode.Keeps (∃ u ∈ us, db.Reaches u r)) := by
    intro e us hus
    rw [← hselects hus]
    constructor
    · exact fun hall => hall _ (Rule.apply_related.2 ⟨us, hus, rfl⟩)
    · intro hsel b hb
      obtain ⟨vs, hvs, rfl⟩ := Rule.apply_related.1 hb
      cases hus.symm.trans hvs
      exact hsel
  cases hmode : condition.mode with
  | including =>
    simp only [hmode, Mode.Keeps] at hsingle ⊢
    constructor
    · rintro ⟨e, he, us, hus, hreach⟩
      exact ⟨e, he, Rule.accepts_related.2 ⟨us, hus⟩, (hsingle e us hus).2 hreach⟩
    · rintro ⟨e, he, husable, hall⟩
      obtain ⟨us, hus⟩ := Rule.accepts_related.1 husable
      exact ⟨e, he, us, hus, (hsingle e us hus).1 hall⟩
  | excluding =>
    simp only [hmode, Mode.Keeps] at hsingle ⊢
    constructor
    · intro hnone e he husable
      obtain ⟨us, hus⟩ := Rule.accepts_related.1 husable
      exact (hsingle e us hus).2 fun hreach => hnone ⟨e, he, us, hus, hreach⟩
    · rintro hall ⟨e, he, us, hus, hreach⟩
      exact (hsingle e us hus).1 (hall e he (Rule.accepts_related.2 ⟨us, hus⟩)) hreach

/-- What a rule of the standard table makes of a value selects a root row if what it makes of the
single texts does, as the mode brings them together. -/
theorem selects_combines (h : c.Lawful) (hcatalog : Catalog.standard = .ok c.catalog)
    {topic : Topic} {rule : Rule} (hr : c.table.resolve ⟨domain, topic, condition⟩ = some rule)
    (hundated : condition.isDated = false) {value : FilterValue} {a : Association}
    (ha : rule.apply (c.context user) condition value = .ok a) {db : Database}
    (hdb : db.Identified) {r : Row} (hrow : r ∈ db.rows domain.rootTable) :
    db.Selects domain.rootTable a.predicate a.extraJoins r ↔
      condition.mode.Combines
        (fun e => rule.Accepts (c.context user) condition (.single e))
        (fun e => ∀ b, rule.apply (c.context user) condition (.single e) = .ok b →
          db.Selects domain.rootTable b.predicate b.extraJoins r) value.entries := by
  obtain ⟨s, hs, -, hcond, rfl⟩ := (RuleTable.standard_resolve h.table).1 hr
  have hreads := domain.readsFrom_standardRules s hs
  have hrelated := domain.isRelated_standardRules s hs _ hcond
  generalize s.rule = rule at *
  cases rule with
  | related criterion => exact h.combines_related hcatalog hreads hundated ha hdb hrow
  | count path sizes =>
    -- Counts are for positive conditions only.
    cases hmode : condition.mode with
    | excluding => cases hrelated hmode
    | including => exact hmode ▸ h.combines_count hreads hmode ha db r

/-- A list that a rule of the standard table takes selects the ids that its texts select alone, as
the mode brings them together. -/
theorem chooses_many (h : c.Lawful) (hcatalog : Catalog.standard = .ok c.catalog) {topic : Topic}
    {rule : Rule} (hr : c.table.resolve ⟨domain, topic, condition⟩ = some rule)
    (hundated : condition.isDated = false) {db : Database} (hdb : db.Identified)
    {entries : List String}
    (hentries : rule.Accepts (c.context user) condition (.many entries)) :
    c.Chooses db user domain (FilterKey.named topic condition, .many entries)
      ((db.ids domain.rootTable).filter fun id => condition.mode.Combines
        (fun e => rule.Accepts (c.context user) condition (.single e))
        (fun e => id ∈ c.idsAlone db user domain (FilterKey.named topic condition, .single e))
        entries) := by
  have hhonours := Catalog.honours_standard hcatalog hdb
  have hinteger := hdb.integer domain.rootTable
  obtain ⟨a, ha⟩ := Rule.accepts_iff.1 hentries
  rw [← Database.selectedIds_eq_filter]
  · exact h.chooses_contribution hhonours hinteger (contribution_named hr ha)
  · intro r hrow id hid
    rw [h.selects_combines hcatalog hr hundated ha hdb hrow]
    refine Mode.combines_congr (fun e _ => Iff.rfl) fun e he => ?_
    -- The id of the row is selected by a text alone if the condition of the text selects the row.
    obtain ⟨b, hb⟩ := Rule.accepts_iff.1 he
    have hcontribution := contribution_named hr hb
    rw [h.mem_idsAlone hdb (compileDomain_contribution hcontribution) hrow hid, Admits,
      hcontribution, hb]
    simp

end Compiler.Lawful

/-- Under a condition without dates, a list of texts is taken exactly if one of its texts is taken
alone, and it then selects what its usable texts select, as the mode brings them together. Hence
lists with the same usable texts select the same. -/
theorem list_combines_texts {config : Config} {c : Compiler}
    (hc : Compiler.ofConfig config = .ok c) {domain : Domain} {topic : Topic}
    {condition : Condition}
    (hcondition : condition ∈ [Condition.contains, .lacks, .oneOf, .noneOf]) {rule : Rule}
    (hr : c.table.resolve ⟨domain, topic, condition⟩ = some rule) (user : Option Int64) :
    (∀ entries, rule.Accepts (c.context user) condition (.many entries) ↔
      ∃ e ∈ entries, rule.Accepts (c.context user) condition (.single e)) ∧
    ∀ db : Database, db.Identified → ∃ alone : String → List Int64,
      (∀ e, rule.Accepts (c.context user) condition (.single e) →
        c.Chooses db user domain (FilterKey.named topic condition, .single e) (alone e)) ∧
      (∀ entries, rule.Accepts (c.context user) condition (.many entries) →
        c.Chooses db user domain (FilterKey.named topic condition, .many entries)
          ((db.ids domain.rootTable).filter fun id => condition.mode.Combines
            (fun e => rule.Accepts (c.context user) condition (.single e))
            (fun e => id ∈ alone e) entries)) ∧
      ∀ entries others, rule.Accepts (c.context user) condition (.many entries) →
        (∀ e, rule.Accepts (c.context user) condition (.single e) →
          (e ∈ entries ↔ e ∈ others)) →
        ∃ ids, c.Chooses db user domain (FilterKey.named topic condition, .many entries) ids ∧
          c.Chooses db user domain (FilterKey.named topic condition, .many others) ids := by
  obtain ⟨hlawful, hcatalog⟩ := Compiler.lawful_ofConfig hc
  have undated : ∀ condition ∈ [Condition.contains, .lacks, .oneOf, .noneOf],
      condition.isDated = false := by decide
  have hundated := undated condition hcondition
  have haccepts : ∀ entries, rule.Accepts (c.context user) condition (.many entries) ↔
      ∃ e ∈ entries, rule.Accepts (c.context user) condition (.single e) :=
    fun entries => rule.accepts_entries (c.context user) hundated (.many entries)
  refine ⟨haccepts, fun db hdb => ?_⟩
  refine ⟨fun e => c.idsAlone db user domain (FilterKey.named topic condition, .single e),
    fun e he => ?_, fun entries => hlawful.chooses_many hcatalog hr hundated hdb,
    fun entries others hentries hsame => ?_⟩
  · obtain ⟨b, hb⟩ := Rule.accepts_iff.1 he
    have hcontribution := Compiler.contribution_named hr hb
    exact hlawful.chooses_idsAlone (Catalog.honours_standard hcatalog hdb)
      (hdb.integer domain.rootTable) (Compiler.compileDomain_contribution hcontribution)
  · -- A usable text of one list is in the other, which is therefore taken as well.
    obtain ⟨e, he, husable⟩ := (haccepts entries).1 hentries
    have hothers := (haccepts others).2 ⟨e, (hsame e husable).1 he, husable⟩
    have hmany := hlawful.chooses_many hcatalog hr hundated hdb hothers
    refine ⟨_, hlawful.chooses_many hcatalog hr hundated hdb hentries, ?_⟩
    simpa only [Mode.combines_congr hsame fun e _ => Iff.rfl] using hmany

/-- A blank text in a list of names of recipients leaves what the list selects of three grants. -/
theorem recipient_list_threeGrants :
    ∃ c, Compiler.ofConfig Config.common = .ok c ∧ ∃ ids,
      c.Chooses .threeGrants none .grant
        (FilterKey.named .recipient .lacks, .many ["alp", " ", "alp"]) ids ∧
      c.Chooses .threeGrants none .grant
        (FilterKey.named .recipient .lacks, .many ["alp"]) ids := by
  obtain ⟨c, hc, hconfig⟩ := Compiler.exists_ofConfig Config.fault?_common rfl
  have hrule : c.table.resolve ⟨.grant, .recipient, .lacks⟩ =
      some (.containsAt .grantRecipient "name") := by
    rw [RuleTable.standard_resolve (Compiler.lawful_ofConfig hc).1.table]
    exact ⟨_, List.mem_cons_of_mem _ List.mem_cons_self, rfl, by decide, rfl⟩
  obtain ⟨-, hselects⟩ := list_combines_texts hc (by decide) hrule none
  obtain ⟨_, -, -, hsame⟩ := hselects .threeGrants Database.identified_threeGrants
  refine ⟨c, hc, hsame _ _ ?_ fun e he => ?_⟩
  · obtain ⟨config, catalog, paths, table⟩ := c
    cases hconfig
    rfl
  · -- The blank text is no usable one.
    have hblank : ¬(Rule.containsAt .grantRecipient "name").Accepts (c.context none) .lacks
        (.single " ") := by
      obtain ⟨config, catalog, paths, table⟩ := c
      cases hconfig
      exact Bool.noConfusion
    have hne : e ≠ " " := fun blank => hblank (blank ▸ he)
    simp [hne]

end RowScope
