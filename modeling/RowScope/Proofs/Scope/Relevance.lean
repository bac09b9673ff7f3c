import RowScope.Proofs.Scope.Selection

/-!
# Which filters count

The scope of a domain depends on the filters that the domain has rules for, and on nothing else in
the set (`compileDomain_eq_of_agree`): filters without a rule may stand anywhere between the others
(`compileDomain_eq_filter`). Who asks matters only to filters on groups and on a user's own reports,
for no other standard rule reads the user (`Domain.topic_of_readsUser`).
-/

namespace RowScope

/-! ## Rules that read the user -/

/-- Whether a criterion reads who asks. -/
def Criterion.readsUser : Criterion → Bool
  | groupInteger _ | groupText _ | user _ => true
  | contains _ | integer _ | text _ | member _ _ | memberOrUnset _ _ _ | date _ | period _ _
  | combination _ _ | flag _ _ => false

/-- Whether a rule reads who asks. -/
def Rule.readsUser : Rule → Bool
  | related criterion => criterion.readsUser
  | count _ _ => false

/-- A criterion that does not read who asks asks the same for every user. -/
theorem Criterion.targets_of_not_readsUser {criterion : Criterion}
    (h : criterion.readsUser = false) (config : Config) (paths : ReadPaths)
    (user other : Option Int64) (condition : Condition) (value : FilterValue) :
    criterion.targets ⟨config, paths, user⟩ condition value =
      criterion.targets ⟨config, paths, other⟩ condition value := by
  cases criterion with
  | groupInteger _ | groupText _ | user _ => cases h
  | contains _ | integer _ | text _ | member _ _ | memberOrUnset _ _ _ | date _ | period _ _
  | combination _ _ | flag _ _ => rfl

/-- A rule that does not read who asks makes the same of a value for every user. -/
theorem Rule.apply_of_not_readsUser {rule : Rule} (h : rule.readsUser = false) (config : Config)
    (paths : ReadPaths) (user other : Option Int64) (condition : Condition) (value : FilterValue) :
    rule.apply ⟨config, paths, user⟩ condition value =
      rule.apply ⟨config, paths, other⟩ condition value := by
  cases rule with
  | related criterion =>
    rw [Rule.apply, Rule.apply, Criterion.targets_of_not_readsUser h config paths user other]
  | count _ _ => rfl

/-- The standard rules that read who asks are those on groups and on a user's own reports. -/
theorem Domain.topic_of_readsUser (d : Domain) :
    ∀ r ∈ d.standardRules, r.rule.readsUser = true → r.topic = .group ∨ r.topic = .myReports := by
  cases d <;> decide

namespace Compiler

variable {c : Compiler} {user other : Option Int64} {domain : Domain} {filters others : FilterSet}
  {s : Scope}

/-- A key is that of a topic and a condition for which the domain has a rule. -/
def Registers (c : Compiler) (domain : Domain) (key : FilterKey) (topic : Topic)
    (condition : Condition) : Prop :=
  RuleTable.parseKey? key.topic key.condition = some (topic, condition) ∧
    (c.table.resolve ⟨domain, topic, condition⟩).isSome = true

/-- A filter has a rule if its key is registered. -/
theorem isSome_rule? {key : FilterKey} :
    (c.rule? domain key).isSome = true ↔
      ∃ topic condition, c.Registers domain key topic condition := by
  rw [Option.isSome_iff_exists]
  constructor
  · rintro ⟨⟨condition, rule⟩, h⟩
    obtain ⟨topic, hparse, hresolve⟩ := rule?_eq_some_iff.1 h
    exact ⟨topic, condition, hparse, Option.isSome_iff_exists.2 ⟨rule, hresolve⟩⟩
  · rintro ⟨topic, condition, hparse, hresolve⟩
    obtain ⟨rule, hresolve⟩ := Option.isSome_iff_exists.1 hresolve
    exact ⟨(condition, rule), rule?_eq_some_iff.2 ⟨topic, hparse, hresolve⟩⟩

/-- A filter without a rule leaves the scope as it is. -/
theorem addFilter_of_not_isSome {e : FilterKey × FilterValue}
    (h : (c.rule? domain e.1).isSome ≠ true) : c.addFilter user domain s e = .ok s := by
  unfold addFilter
  rw [Option.not_isSome_iff_eq_none.1 h]

/-- Only the filters with a rule make the scope of a domain. -/
theorem compileDomain_eq_filter :
    c.compileDomain domain filters user =
      (filters.entries.filter fun e => (c.rule? domain e.1).isSome).foldlM
        (c.addFilter user domain) .identity := by
  rw [List.foldlM_filter]
  apply Traversal.foldlM_congr
  intro e _ s
  split
  · rfl
  · next h => exact addFilter_of_not_isSome h

/-- A filter whose rule does not read who asks does the same for every user. -/
theorem addFilter_of_not_readsUser {e : FilterKey × FilterValue}
    (h : ∀ condition rule, c.rule? domain e.1 = some (condition, rule) → rule.readsUser = false) :
    c.addFilter user domain s e = c.addFilter other domain s e := by
  unfold addFilter
  cases hrule : c.rule? domain e.1 with
  | none => rfl
  | some found =>
    obtain ⟨condition, rule⟩ := found
    simp only [context, Builder.build_rule]
    rw [Rule.apply_of_not_readsUser (h condition rule hrule) c.config c.paths user other]

/-- A standard rule that reads who asks is found under a key on groups or on a user's own
reports. -/
theorem topic_of_rule_readsUser (htable : RuleTable.standard = .ok c.table) {key : FilterKey}
    {condition : Condition} {rule : Rule} (h : c.rule? domain key = some (condition, rule))
    (hreads : rule.readsUser = true) :
    ∃ topic, c.Registers domain key topic condition ∧ (topic = .group ∨ topic = .myReports) := by
  obtain ⟨topic, hparse, hresolve⟩ := rule?_eq_some_iff.1 h
  obtain ⟨r, hr, rfl, -, rfl⟩ := (RuleTable.standard_resolve htable).1 hresolve
  exact ⟨r.topic, ⟨hparse, Option.isSome_iff_exists.2 ⟨_, hresolve⟩⟩,
    domain.topic_of_readsUser r hr hreads⟩

end Compiler

/-- Two sets that hold the same under every key that a domain has a rule for give the domain the
same scope, or fail for the same reason. Without filters on groups and on a user's own reports among
them, that is so for any two users. -/
theorem compileDomain_eq_of_agree {c : Compiler} (htable : RuleTable.standard = .ok c.table)
    {domain : Domain} {filters others : FilterSet}
    (hagree : ∀ key topic condition, c.Registers domain key topic condition →
      filters.get? key = others.get? key) :
    (∀ user, c.compileDomain domain filters user = c.compileDomain domain others user) ∧
      ((∀ key topic condition, c.Registers domain key topic condition →
          topic = .group ∨ topic = .myReports →
            filters.get? key = none ∧ others.get? key = none) →
        ∀ user other,
          c.compileDomain domain filters user = c.compileDomain domain others other) := by
  have same : ∀ user, c.compileDomain domain filters user = c.compileDomain domain others user := by
    intro user
    rw [Compiler.compileDomain_eq_filter, Compiler.compileDomain_eq_filter]
    have hentries : filters.entries.filter (fun e => (c.rule? domain e.1).isSome) =
        others.entries.filter fun e => (c.rule? domain e.1).isSome := by
      apply OrderedMap.filter_entries_eq fun key => (c.rule? domain key).isSome
      intro key hkey
      obtain ⟨topic, condition, hkey⟩ := Compiler.isSome_rule?.1 hkey
      exact hagree key topic condition hkey
    rw [hentries]
  refine ⟨same, fun hnone user other => (same user).trans ?_⟩
  apply Traversal.foldlM_congr
  rintro ⟨key, value⟩ he s
  apply Compiler.addFilter_of_not_readsUser
  intro condition rule hrule
  -- A rule that reads the user would be for a filter that the set does not hold.
  rw [← Bool.not_eq_true]
  intro hreads
  obtain ⟨topic, hkey, htopic⟩ := Compiler.topic_of_rule_readsUser htable hrule hreads
  have hget := OrderedMap.get?_eq_some_iff.2 he
  rw [(hnone key topic condition hkey htopic).2] at hget
  cases hget

/-- The filters on recipients and regions with one that no domain knows and one that grants have no
rule for. -/
def FilterSet.noisyRecipientAndRegion : FilterSet :=
  (FilterSet.recipientAndRegion.insertTriple ⟨"favoriteColor", "in", .single "blue"⟩).insertTriple
    ⟨"status", "in", .single "Draft"⟩

/-- Filters that grants have no rule for do not change the scope of grants, whoever asks. -/
theorem compileDomain_noisyRecipientAndRegion :
    ∃ c, Compiler.ofConfig Config.common = .ok c ∧ ∀ user other,
      c.compileDomain .grant .recipientAndRegion user =
        c.compileDomain .grant .noisyRecipientAndRegion other := by
  obtain ⟨c, hc, -⟩ := Compiler.exists_ofConfig Config.fault?_common rfl
  have htable := (Compiler.lawful_ofConfig hc).1.table
  have hagree : ∀ key topic condition, c.Registers .grant key topic condition →
      OrderedMap.get? FilterSet.recipientAndRegion key =
        OrderedMap.get? FilterSet.noisyRecipientAndRegion key := by
    rintro key topic condition ⟨hparse, hresolve⟩
    have hcolor : key ≠ ⟨"favoriteColor", "in"⟩ := by
      rintro rfl
      cases hparse
    have hstatus : key ≠ ⟨"status", "in"⟩ := by
      rintro rfl
      cases hparse
      obtain ⟨rule, hrule⟩ := Option.isSome_iff_exists.1 hresolve
      obtain ⟨r, hr, htopic, -⟩ := (RuleTable.standard_resolve htable).1 hrule
      have other : ∀ r ∈ Domain.grant.standardRules, r.topic ≠ .status := by decide
      exact other r hr htopic
    simp only [FilterSet.noisyRecipientAndRegion, FilterSet.insertTriple, OrderedMap.get?_insert,
      FilterTriple.key, hstatus, hcolor, if_false]
  refine ⟨c, hc, (compileDomain_eq_of_agree htable hagree).2 ?_⟩
  intro key topic condition hkey htopic
  have hnone : OrderedMap.get? FilterSet.recipientAndRegion key = none := by
    rw [← Option.not_isSome_iff_eq_none, Option.isSome_iff_exists]
    rintro ⟨value, hget⟩
    have hentries : ∀ e ∈ FilterSet.recipientAndRegion.entries,
        e.1 = FilterKey.named .recipient .contains ∨ e.1 = FilterKey.named .region .noneOf := by
      decide +kernel
    have hparse := hkey.1
    rcases hentries _ (OrderedMap.get?_eq_some_iff.1 hget) with h | h <;> cases h <;>
      cases hparse <;> simp at htopic
  exact ⟨hnone, hagree key topic condition hkey ▸ hnone⟩

end RowScope
