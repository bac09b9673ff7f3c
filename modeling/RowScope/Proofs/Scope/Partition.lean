import RowScope.Proofs.Compiler

/-!
# Opposite filters

Where the rules have a topic under a positive condition and under the negative one to it, the two
filters of one value share the root rows out between them: no row is selected by both, and none is
left over (`opposite_filters_partition`). This rests on the two conditions having one rule, which
states what is asked of related rows without regard to the condition, so that both modes are about
the same related rows.
-/

namespace RowScope

namespace Compiler.Lawful

variable {c : Compiler} {user : Option Int64} {domain : Domain}

/-- A rule on related rows under a condition selects the root rows with a row that some target
reaches or, under a negative condition, the root rows without one. -/
theorem selects_related (h : c.Lawful) (hcatalog : Catalog.standard = .ok c.catalog)
    {criterion : Criterion} (hrule : (Rule.related criterion).readsFrom domain.rootTable = true)
    {condition : Condition} {value : FilterValue} {targets : List (RelationPath × Predicate)}
    (ht : criterion.targets (c.context user) condition value = .ok targets)
    {db : Database} (hdb : db.Identified) {r : Row} (hr : r ∈ db.rows domain.rootTable)
    (mode : Mode) :
    db.Selects domain.rootTable (existsAlongAny targets mode).predicate
        (existsAlongAny targets mode).extraJoins r ↔
      mode.Keeps (∃ t ∈ targets, db.Reaches t r) := by
  obtain ⟨start, hstart⟩ := h.exists_root domain
  have hname : start.name = domain.rootTable := h.coherent.table_name hstart
  have hserves := Criterion.serves_targets h.coherent h.paths hstart hrule ht
  -- The key of every standard table is `id`, which identifies its rows.
  have hkeyed : db.Keyed start.name start.key r := by
    rw [Catalog.standard_key hcatalog hstart, hname]
    exact hdb.keyed hr
  have hhonours := Catalog.honours_standard hcatalog hdb
  rw [← hname]
  exact Database.selects_existsAlongAny h.coherent hhonours hserves hkeyed mode

end Compiler.Lawful

/-- Where a topic has rules for opposite conditions, the filters of one value under both select each
root row once, by one of them. -/
theorem opposite_filters_partition {config : Config} {c : Compiler}
    (hc : Compiler.ofConfig config = .ok c) {domain : Domain} {topic : Topic}
    {positive negative : Condition} (hpair : (positive, negative) ∈ Condition.opposites)
    {rule other : Rule} (hpositive : c.table.resolve ⟨domain, topic, positive⟩ = some rule)
    (hnegative : c.table.resolve ⟨domain, topic, negative⟩ = some other)
    {user : Option Int64} {value : FilterValue}
    (hvalue : rule.Accepts (c.context user) positive value ∨
      other.Accepts (c.context user) negative value)
    {db : Database} (hdb : db.Identified) :
    ∃ kept left,
      c.Chooses db user domain (FilterKey.named topic positive, value) kept ∧
      c.Chooses db user domain (FilterKey.named topic negative, value) left ∧
      (kept ++ left).Perm (db.ids domain.rootTable) ∧ (kept ++ left).Nodup := by
  obtain ⟨hlawful, hcatalog⟩ := Compiler.lawful_ofConfig hc
  obtain ⟨hundated, hundated', hincluding, hexcluding⟩ := Condition.opposites_spec _ hpair
  obtain ⟨criterion, rfl, rfl, hreads⟩ :=
    RuleTable.standard_opposites hlawful.table hpair hpositive hnegative
  -- What is asked of related rows does not depend on which of the conditions asks.
  have hsame : criterion.targets (c.context user) negative value =
      criterion.targets (c.context user) positive value :=
    Criterion.targets_of_undated hundated' hundated criterion
  have htargets : ∃ targets,
      criterion.targets (c.context user) positive value = .ok targets := by
    rcases hvalue with hvalue | hvalue
    · exact Rule.accepts_related.1 hvalue
    · rw [← hsame]
      exact Rule.accepts_related.1 hvalue
  obtain ⟨targets, htargets⟩ := htargets
  have hkept := Compiler.contribution_named hpositive
    (Rule.apply_related.2 ⟨targets, htargets, rfl⟩)
  have hleft := Compiler.contribution_named hnegative
    (Rule.apply_related.2 ⟨targets, hsame.trans htargets, rfl⟩)
  -- So the two filters contribute the same targets in the two modes.
  rw [hincluding] at hkept
  rw [hexcluding] at hleft
  have hhonours := Catalog.honours_standard hcatalog hdb
  have hinteger := hdb.integer domain.rootTable
  have hperm : (db.selectedIds domain.rootTable (existsAlongAny targets .including).predicate
        (existsAlongAny targets .including).extraJoins ++
      db.selectedIds domain.rootTable (existsAlongAny targets .excluding).predicate
        (existsAlongAny targets .excluding).extraJoins).Perm (db.ids domain.rootTable) := by
    apply Database.selectedIds_append_perm
    intro r hr
    have hselects := hlawful.selects_related hcatalog hreads htargets hdb hr
    rw [hselects .excluding, hselects .including]
    exact Iff.rfl
  exact ⟨_, _, hlawful.chooses_contribution hhonours hinteger hkept,
    hlawful.chooses_contribution hhonours hinteger hleft, hperm,
    hperm.nodup_iff.2 (hdb.distinct domain.rootTable)⟩

/-- Grants of the recipients with a name like `alp` and those without share out three grants, of
which one has no recipient and another a missing one. -/
theorem recipient_filters_partition_threeGrants :
    ∃ c, Compiler.ofConfig Config.common = .ok c ∧ ∃ kept left,
      c.Chooses .threeGrants none .grant
        (FilterKey.named .recipient .contains, .single "alp") kept ∧
      c.Chooses .threeGrants none .grant
        (FilterKey.named .recipient .lacks, .single "alp") left ∧
      (kept ++ left).Perm [1, 2, 3] := by
  obtain ⟨c, hc, hconfig⟩ := Compiler.exists_ofConfig Config.fault?_common rfl
  have hrule : ∀ condition ∈ partConditions, c.table.resolve ⟨.grant, .recipient, condition⟩ =
      some (.containsAt .grantRecipient "name") := by
    intro condition hcondition
    rw [RuleTable.standard_resolve (Compiler.lawful_ofConfig hc).1.table]
    exact ⟨_, List.mem_cons_of_mem _ List.mem_cons_self, rfl, hcondition, rfl⟩
  have haccepts : (Rule.containsAt .grantRecipient "name").Accepts (c.context none) .contains
      (.single "alp") := by
    obtain ⟨config, catalog, paths, table⟩ := c
    cases hconfig
    rfl
  obtain ⟨kept, left, hkept, hleft, hperm, -⟩ := opposite_filters_partition hc
    (by decide : (Condition.contains, Condition.lacks) ∈ Condition.opposites)
    (hrule _ (by decide)) (hrule _ (by decide)) (.inl haccepts) Database.identified_threeGrants
  exact ⟨c, hc, kept, left, hkept, hleft, Database.ids_threeGrants ▸ hperm⟩

end RowScope
