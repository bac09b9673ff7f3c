import RowScope.Proofs.Rule.Table
import RowScope.Proofs.Rule.Targets

/-!
# The standard rules

What the standard table finds under a key is a standard rule (`RuleTable.standard_resolve`), so
what holds of all standard rules holds of all rules that the table gives. Each rule of a domain
reads from the root table of the domain, a rule for a negative condition is about related rows, and
the rules of a topic for a positive condition and for the negative one to it are the same.
-/

namespace RowScope

namespace RuleTable

variable {t : RuleTable} {key : RuleKey} {rule : Rule}

/-- The standard table finds a rule under a key exactly if it is a standard rule of the domain for
the topic and the condition. -/
theorem standard_resolve (h : RuleTable.standard = .ok t) :
    t.resolve key = some rule ↔
      ∃ r ∈ key.domain.standardRules,
        r.topic = key.topic ∧ key.condition ∈ r.conditions ∧ r.rule = rule := by
  rw [resolve_ofRules h]
  constructor
  · rintro ⟨e, he, hkey, rfl⟩
    obtain ⟨d, hd, he⟩ := List.mem_flatMap.1 he
    obtain ⟨domain, -, rfl⟩ := List.mem_map.1 hd
    obtain ⟨r, hr, rfl⟩ := List.mem_map.1 he
    obtain ⟨condition, hcondition, rfl⟩ := List.mem_map.1 hkey
    exact ⟨r, hr, rfl, hcondition, rfl⟩
  · rintro ⟨r, hr, htopic, hcondition, rfl⟩
    refine ⟨(key.domain, r), ?_, ?_, rfl⟩
    · refine List.mem_flatMap.2 ⟨_, List.mem_map_of_mem key.domain.mem_all, ?_⟩
      exact List.mem_map_of_mem hr
    · refine List.mem_map.2 ⟨key.condition, hcondition, ?_⟩
      rw [htopic]

/-- The standard rules are accepted. -/
theorem exists_standard : ∃ t, RuleTable.standard = .ok t :=
  exists_ofRules_iff.2 (by decide +kernel)

end RuleTable

/-- Whether a rule is about related rows. -/
def Rule.isRelated : Rule → Bool
  | related _ => true
  | count _ _ => false

/-- A positive condition and the negative one to it. -/
def Condition.opposites : List (Condition × Condition) := [(.contains, .lacks), (.oneOf, .noneOf)]

namespace Domain

/-- The standard rules of a domain read from its root table. -/
theorem readsFrom_standardRules (d : Domain) :
    ∀ r ∈ d.standardRules, r.rule.readsFrom d.rootTable = true := by
  cases d <;> decide

/-- The standard rules for negative conditions are about related rows. -/
theorem isRelated_standardRules (d : Domain) : ∀ r ∈ d.standardRules, ∀ condition ∈ r.conditions,
    condition.mode = .excluding → r.rule.isRelated = true := by
  cases d <;> decide

/-- The standard rules of a topic for opposite conditions are the same. -/
theorem opposite_standardRules (d : Domain) : ∀ r ∈ d.standardRules, ∀ s ∈ d.standardRules,
    r.topic = s.topic → ∀ pair ∈ Condition.opposites, pair.1 ∈ r.conditions →
      pair.2 ∈ s.conditions → r.rule = s.rule := by
  cases d <;> decide

end Domain

/-- Opposite conditions have no dates, and the first is positive and the second negative. -/
theorem Condition.opposites_spec : ∀ pair ∈ Condition.opposites,
    pair.1.isDated = false ∧ pair.2.isDated = false ∧ pair.1.mode = .including ∧
      pair.2.mode = .excluding := by decide

/-- The standard table has one rule for opposite conditions of a topic, and it is about related
rows. -/
theorem RuleTable.standard_opposites {t : RuleTable} (h : RuleTable.standard = .ok t)
    {domain : Domain} {topic : Topic} {positive negative : Condition}
    (hpair : (positive, negative) ∈ Condition.opposites) {rule other : Rule}
    (hpositive : t.resolve ⟨domain, topic, positive⟩ = some rule)
    (hnegative : t.resolve ⟨domain, topic, negative⟩ = some other) :
    ∃ criterion, rule = .related criterion ∧ other = .related criterion ∧
      rule.readsFrom domain.rootTable = true := by
  obtain ⟨r, hr, htopic, hcond, rfl⟩ := (RuleTable.standard_resolve h).1 hpositive
  obtain ⟨s, hs, htopic', hcond', rfl⟩ := (RuleTable.standard_resolve h).1 hnegative
  have hsame : r.rule = s.rule := domain.opposite_standardRules r hr s hs
    (htopic.trans htopic'.symm) _ hpair hcond hcond'
  have hrelated := domain.isRelated_standardRules s hs _ hcond'
    (Condition.opposites_spec _ hpair).2.2.2
  have hreads := domain.readsFrom_standardRules s hs
  rw [hsame]
  -- The rule is no count, for it is for a negative condition as well.
  cases hrule : s.rule with
  | count _ _ =>
    rw [hrule] at hrelated
    cases hrelated
  | related criterion => exact ⟨criterion, rfl, rfl, hrule ▸ hreads⟩

end RowScope
