import Mathlib.Data.List.Nodup
import Mathlib.Data.List.Pairwise
import RowScope.Proofs.Traversal
import RowScope.Rule.Apply
import RowScope.Rule.Standard

/-!
# What a table of rules holds

The rules of some domains are registered one after the other, each under its conditions, and the
first key that comes a second time stops the run (`RuleTable.ofRules_eq_error`). So a table is made
if no key comes twice. It then holds for each key the one rule that has the key, and nothing else
(`RuleTable.ofRules_exact`). What a rule is does not matter to this, so it may be of any type.
-/

namespace RowScope

/-- Every domain is in the list of all domains. -/
theorem Domain.mem_all (d : Domain) : d ∈ Domain.all := by
  cases d <;> decide

/-- The list of all domains is in canonical order. -/
theorem Domain.pairwise_all : Domain.all.Pairwise fun d e => d.place < e.place := by
  decide

variable {ρ : Type}

/-- The keys of a rule in a domain, in the order of its conditions. -/
def TopicRule.keys (r : TopicRule ρ) (domain : Domain) : List RuleKey :=
  r.conditions.map fun condition => ⟨domain, r.topic, condition⟩

namespace RuleTable

/-- The rules of some domains, each with its domain, in the order in which they stand. -/
def rulesOf (domains : List (Domain × List (TopicRule ρ))) : List (Domain × TopicRule ρ) :=
  domains.flatMap fun d => d.2.map fun r => (d.1, r)

/-- The keys of the rules of some domains, in the order in which they stand. -/
def keysOf (domains : List (Domain × List (TopicRule ρ))) : List RuleKey :=
  (rulesOf domains).flatMap fun e => e.2.keys e.1

variable {s t : RuleTable ρ} {key : RuleKey} {rule : ρ}
  {domains : List (Domain × List (TopicRule ρ))}

/-! ## Registrations -/

/-- What a table finds under a key is the entry of that key. -/
theorem resolve_eq_some_iff : t.resolve key = some rule ↔ (key, rule) ∈ t.entries := by
  unfold resolve
  rw [List.lookup_eq_some_iff]
  constructor
  · rintro ⟨before, after, he, -⟩
    rw [he]
    exact List.mem_append_right before List.mem_cons_self
  · intro h
    obtain ⟨before, after, he⟩ := List.append_of_mem h
    refine ⟨before, after, he, fun e hbefore => bne_iff_ne.2 ?_⟩
    -- An entry of the same key before it would be the second one.
    have hnodup := t.nodup
    rw [he, List.map_append, List.nodup_append] at hnodup
    exact (hnodup.2.2 e.1 (List.mem_map_of_mem hbefore) key List.mem_cons_self).symm

/-- A rule is accepted if its key is new. -/
theorem register_eq_ok :
    s.register key rule = .ok t ↔ key ∉ s.entries.map Prod.fst ∧
      t.entries = (key, rule) :: s.entries := by
  unfold register
  split
  · next h => simp [h]
  · next h =>
    simp only [h, not_false_eq_true, true_and, Except.ok.injEq]
    constructor
    · rintro rfl
      rfl
    · intro he
      cases t
      cases he
      rfl

/-- A rule is refused, and its key named, if the key has a rule already. -/
theorem register_eq_error {taken : RuleKey} :
    s.register key rule = .error taken ↔ taken = key ∧ key ∈ s.entries.map Prod.fst := by
  unfold register
  split
  · next h => simp [h, eq_comm]
  · next h => simp [h]

/-- Rules are accepted if they make the entries of a table, with the last one at the front. -/
theorem foldlM_register_eq_ok {more : List (RuleKey × ρ)} :
    more.foldlM (fun t e => t.register e.1 e.2) s = .ok t ↔
      t.entries = more.reverse ++ s.entries := by
  induction more generalizing s with
  | nil =>
    cases s
    cases t
    simp [pure, Except.pure, eq_comm]
  | cons first more ih =>
    rw [List.foldlM_cons, Traversal.bind_eq_ok, List.reverse_cons, List.append_assoc]
    constructor
    · rintro ⟨u, hu, h⟩
      rw [ih.1 h, (register_eq_ok.1 hu).2]
      rfl
    · -- The keys of the table are distinct, so the first one is new.
      intro h
      have hnew : first.1 ∉ s.entries.map Prod.fst := by
        have hnodup := t.nodup
        rw [h, List.map_append, List.nodup_append] at hnodup
        exact (List.nodup_cons.1 hnodup.2.1).1
      exact ⟨⟨_, s.nodup_cons first.1 first.2 hnew⟩, register_eq_ok.2 ⟨hnew, rfl⟩, ih.2 h⟩

/-- Rules under different keys are accepted, and the last one stands at the front. -/
theorem exists_foldlM_register {more : List (RuleKey × ρ)} (h : (more.map Prod.fst).Nodup) :
    ∃ t, more.foldlM (fun t e => t.register e.1 e.2) empty = .ok t ∧ t.entries = more.reverse := by
  have hreverse : (more.reverse.map Prod.fst).Nodup := by
    rw [List.map_reverse]
    exact List.nodup_reverse.2 h
  exact ⟨⟨more.reverse, hreverse⟩, foldlM_register_eq_ok.2 (List.append_nil _).symm, rfl⟩

/-! ## Tables of rules -/

/-- The registrations of the rules of some domains are those of each rule under its keys. -/
theorem registrations_eq (domains : List (Domain × List (TopicRule ρ))) :
    (domains.flatMap fun d => registrations d.1 d.2) =
      (rulesOf domains).flatMap fun e => (e.2.keys e.1).map fun key => (key, e.2.rule) := by
  simp only [rulesOf, registrations, TopicRule.keys, List.flatMap_assoc, List.flatMap_map,
    List.map_map]
  rfl

/-- The keys of the registrations are those of the rules. -/
theorem keys_registrations (domains : List (Domain × List (TopicRule ρ))) :
    (domains.flatMap fun d => registrations d.1 d.2).map Prod.fst = keysOf domains := by
  rw [registrations_eq, List.map_flatMap]
  simp only [List.map_map]
  exact List.flatMap_congr fun e _ => List.map_id (e.2.keys e.1)

/-- The entries of a table made from rules are the registrations of the rules. -/
theorem ofRules_eq_ok : ofRules domains = .ok t ↔
    t.entries = (domains.flatMap fun d => registrations d.1 d.2).reverse := by
  unfold ofRules
  rw [foldlM_register_eq_ok]
  simp [empty]

/-- Rules are accepted if no key comes twice. -/
theorem exists_ofRules_iff : (∃ t, ofRules domains = .ok t) ↔ (keysOf domains).Nodup := by
  rw [← keys_registrations]
  constructor
  · rintro ⟨t, h⟩
    have hnodup := t.nodup
    rw [ofRules_eq_ok.1 h, List.map_reverse] at hnodup
    exact List.nodup_reverse.1 hnodup
  · intro h
    obtain ⟨t, ht, -⟩ := exists_foldlM_register h
    exact ⟨t, ht⟩

/-- Rules are refused with the first key that has come before. -/
theorem ofRules_eq_error : ofRules domains = .error key ↔
    ∃ before after, keysOf domains = before ++ key :: after ∧ before.Nodup ∧ key ∈ before := by
  unfold ofRules
  rw [Traversal.foldlM_eq_error_iff, ← keys_registrations]
  constructor
  · rintro ⟨before, ⟨first, rule⟩, after, s, hsplit, hbefore, hfails⟩
    obtain ⟨rfl, hmem⟩ := register_eq_error.1 hfails
    -- The table that refuses the key holds the registrations before it.
    have hentries : s.entries.map Prod.fst = (before.map Prod.fst).reverse := by
      rw [foldlM_register_eq_ok.1 hbefore, ← List.map_reverse]
      exact congrArg (List.map Prod.fst) (List.append_nil _)
    have hnodup := s.nodup
    rw [hentries] at hmem hnodup
    refine ⟨before.map Prod.fst, after.map Prod.fst, ?_, List.nodup_reverse.1 hnodup,
      List.mem_reverse.1 hmem⟩
    rw [hsplit, List.map_append, List.map_cons]
  · rintro ⟨before, after, hkeys, hnodup, hmem⟩
    -- The registrations are split where their keys are.
    obtain ⟨front, back, hsplit, rfl, hback⟩ := List.map_eq_append_iff.1 hkeys
    obtain ⟨taken, rest, rfl, rfl, -⟩ := List.map_eq_cons_iff.1 hback
    obtain ⟨s, hs, hentries⟩ := exists_foldlM_register hnodup
    refine ⟨front, taken, rest, s, hsplit, hs, register_eq_error.2 ⟨rfl, ?_⟩⟩
    rw [hentries, List.map_reverse]
    exact List.mem_reverse.2 hmem

/-- A table has as many rules as its rules have keys. -/
theorem size_ofRules (h : ofRules domains = .ok t) : t.size = (keysOf domains).length := by
  rw [size, ofRules_eq_ok.1 h, List.length_reverse, ← keys_registrations, List.length_map]

/-- A table finds under a key the rule that has the key. -/
theorem resolve_ofRules (h : ofRules domains = .ok t) : t.resolve key = some rule ↔
    ∃ e ∈ rulesOf domains, key ∈ e.2.keys e.1 ∧ e.2.rule = rule := by
  rw [resolve_eq_some_iff, ofRules_eq_ok.1 h, List.mem_reverse, registrations_eq]
  simp only [List.mem_flatMap, List.mem_map, Prod.mk.injEq]
  constructor
  · rintro ⟨e, he, _, hkey, rfl, hrule⟩
    exact ⟨e, he, hkey, hrule⟩
  · rintro ⟨e, he, hkey, hrule⟩
    exact ⟨e, he, key, hkey, rfl, hrule⟩

/-- If no key comes twice, each has one rule. -/
theorem eq_of_mem_keys (h : (keysOf domains).Nodup) {e f : Domain × TopicRule ρ}
    (he : e ∈ rulesOf domains) (hf : f ∈ rulesOf domains) (hkey : key ∈ e.2.keys e.1)
    (hkey' : key ∈ f.2.keys f.1) : e = f := by
  -- The keys of different rules are different.
  have symmetric : Std.Symm
      (Function.onFun List.Disjoint fun e : Domain × TopicRule ρ => e.2.keys e.1) :=
    ⟨fun _ _ => List.disjoint_symm⟩
  by_contra hne
  exact (List.nodup_flatMap.1 h).2.forall he hf hne hkey hkey'

/-- The domains that have a rule for a topic and a condition are listed in canonical order, none of
them twice. -/
theorem domainsFor_spec (t : RuleTable ρ) (topic : Topic) (condition : Condition) :
    (t.domainsFor topic condition).Pairwise (fun d e => d.place < e.place) ∧
      ∀ domain, domain ∈ t.domainsFor topic condition ↔
        (t.resolve ⟨domain, topic, condition⟩).isSome = true := by
  refine ⟨Domain.pairwise_all.filter _, fun domain => ?_⟩
  rw [domainsFor, List.mem_filter]
  exact and_iff_right domain.mem_all

/-- Rules make a table if no key comes twice. The table then has as many rules as there are keys. It
finds under each key the one rule that has the key, nothing under any other key, and lists the
domains in which it finds something for a topic and a condition, in canonical order. Otherwise the
rules are refused with the first key that has come before. -/
theorem ofRules_exact (domains : List (Domain × List (TopicRule ρ))) :
    ((∃ t, ofRules domains = .ok t) ↔ (keysOf domains).Nodup) ∧
    (∀ t, ofRules domains = .ok t →
      t.size = (keysOf domains).length ∧
      (∀ key ∈ keysOf domains, ∃ e ∈ rulesOf domains,
        key ∈ e.2.keys e.1 ∧ t.resolve key = some e.2.rule ∧
          ∀ f ∈ rulesOf domains, key ∈ f.2.keys f.1 → f = e) ∧
      (∀ key, key ∉ keysOf domains → t.resolve key = none) ∧
      ∀ topic condition,
        (t.domainsFor topic condition).Pairwise (fun d e => d.place < e.place) ∧
        ∀ domain, domain ∈ t.domainsFor topic condition ↔
          (t.resolve ⟨domain, topic, condition⟩).isSome = true) ∧
    ∀ key, ofRules domains = .error key ↔
      ∃ before after, keysOf domains = before ++ key :: after ∧ before.Nodup ∧ key ∈ before := by
  refine ⟨exists_ofRules_iff, fun t h => ⟨size_ofRules h, fun key hkey => ?_, fun key hkey => ?_,
    t.domainsFor_spec⟩, fun key => ofRules_eq_error⟩
  · have hnodup := exists_ofRules_iff.1 ⟨t, h⟩
    obtain ⟨e, he, hmem⟩ := List.mem_flatMap.1 hkey
    exact ⟨e, he, hmem, (resolve_ofRules h).2 ⟨e, he, hmem, rfl⟩,
      fun f hf hmem' => eq_of_mem_keys hnodup hf he hmem' hmem⟩
  · refine Option.eq_none_iff_forall_ne_some.2 fun rule hrule => hkey ?_
    obtain ⟨e, he, hmem, -⟩ := (resolve_ofRules h).1 hrule
    exact List.mem_flatMap.2 ⟨e, he, hmem⟩

end RuleTable

/-- A rule that takes every value, and puts no condition on the rows. -/
def unconditional : BuilderFn := fun _ _ _ => .ok ⟨.always, []⟩

/-- Rules for regions of goals and of grants, the latter in two places. -/
def regionRules : List (Domain × List (TopicRule BuilderFn)) :=
  [(.goal, [⟨.region, listConditions, unconditional⟩]),
    (.grant, [⟨.region, [.oneOf], unconditional⟩]),
    (.grant, [⟨.region, [.noneOf], unconditional⟩])]

/-- A rule that has one condition twice, and then another one that has a rule. -/
def repeatingRule : Domain × List (TopicRule BuilderFn) :=
  (.goal, [⟨.region, [.contains, .contains, .oneOf], unconditional⟩])

/-- The rules for regions make a table of four rules, none of them for recipients. Together with the
rule that has a condition twice they are refused for this condition. -/
theorem RuleTable.regionRules_exact :
    (∃ t, ofRules regionRules = .ok t ∧ t.size = 4 ∧
      t.domainsFor .region .noneOf = [.grant, .goal] ∧
      t.resolve ⟨.recipient, .region, .oneOf⟩ = none) ∧
    ofRules (regionRules ++ [repeatingRule]) = .error ⟨.goal, .region, .contains⟩ := by
  obtain ⟨accepted, holds, -⟩ := ofRules_exact regionRules
  obtain ⟨t, ht⟩ := accepted.2 (by decide)
  obtain ⟨hsize, -, hnone, -⟩ := holds t ht
  obtain ⟨-, -, refused⟩ := ofRules_exact (regionRules ++ [repeatingRule])
  refine ⟨⟨t, ht, hsize, ?_, hnone _ (by decide)⟩, (refused _).2 ?_⟩
  · unfold domainsFor resolve
    rw [ofRules_eq_ok.1 ht]
    decide
  · exact ⟨keysOf regionRules ++ [⟨.goal, .region, .contains⟩], [⟨.goal, .region, .oneOf⟩],
      by decide, by decide, by decide⟩

end RowScope
