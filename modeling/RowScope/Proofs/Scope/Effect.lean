import RowScope.Proofs.Rule.Reduced
import RowScope.Proofs.Scope.Selection
import RowScope.Proofs.Sql.Brackets

/-!
# Which filters take effect

What has become of the filters of a request can be told from the form of a compiled scope
(`effect_of_filters`). The condition is `never` if a filter is void, that is, rejected so that
nothing is to match; otherwise it is reduced if a filter is taken, and the scope leaves the query as
it is if none is. So no filter that is taken vanishes, and none that is void is lost among others.

A filter contributes a reduced condition, the condition `never`, or nothing
(`Lawful.contribution_cases`), and a scope stays of one of the three forms under one contribution
after the other (`Lawful.compiled_cases`).
-/

namespace RowScope

open Predicate (Reduced)

/-- A reduced predicate is normal. -/
theorem Predicate.Reduced.normal {p : Predicate} (h : p.Reduced) : p.Normal := by
  refine h.mono fun q hq => ?_
  cases q with
  | all parts => exact (Bool.and_eq_true_iff.1 hq).1
  | any parts => exact (Bool.and_eq_true_iff.1 hq).1
  | oneOf column values =>
    cases values with
    | nil => cases hq
    | cons value values => rfl
  | always | never => cases hq
  | equals _ _ | compare _ _ _ | between _ _ _ | like _ _ | overlaps _ _ | sameElements _ _
  | isNull _ | notTrue _ | inSet _ _ => rfl

/-! ## Contributions in a row -/

section Contributions

variable {s : Scope} {a : Association} {found : List (Option Association)}

/-- A scope under a reduced condition is reduced, unless it has had a condition that is not. -/
theorem Scope.reduced_constrain (hs : s.predicate = .always ∨ s.predicate.Reduced)
    (ha : a.predicate.Reduced) : (s.constrain a).predicate.Reduced := by
  rw [constrain]
  rcases hs with halways | hs
  · have hsingle : Predicate.conj [s.predicate, a.predicate] = .conj [a.predicate] := by
      rw [halways]
      rfl
    rw [hsingle]
    exact .conj (List.cons_ne_nil _ _) (List.forall_mem_singleton.2 ha)
  · exact hs.conj_pair ha

/-- The condition that no row meets decides, whether it was there before or is contributed. -/
theorem foldl_extend_never (h : s.predicate = .never ∨ some ⟨.never, []⟩ ∈ found) :
    (found.foldl Scope.extend s).predicate = .never := by
  induction found generalizing s with
  | nil => exact h.resolve_right List.not_mem_nil
  | cons next found ih =>
    apply ih
    rcases h with hs | hmem
    · cases next with
      | none => exact .inl hs
      | some a => exact .inl (Predicate.conj_eq_never (hs ▸ List.mem_cons_self))
    · rcases List.mem_cons.1 hmem with rfl | hmem
      · exact .inl (Predicate.conj_eq_never (List.mem_cons_of_mem _ List.mem_cons_self))
      · exact .inr hmem

/-- Contributions of nothing leave a scope as it is. -/
theorem foldl_extend_none (h : ∀ next ∈ found, next = none) : found.foldl Scope.extend s = s := by
  induction found with
  | nil => rfl
  | cons next found ih =>
    obtain ⟨rfl, hfound⟩ := List.forall_mem_cons.1 h
    exact ih hfound

/-- A scope under reduced conditions is reduced, if it has been so or there is one. -/
theorem foldl_extend_reduced (h : ∀ a, some a ∈ found → a.predicate.Reduced)
    (hs : s.predicate.Reduced ∨ s.predicate = .always ∧ ∃ a, some a ∈ found) :
    (found.foldl Scope.extend s).predicate.Reduced := by
  induction found generalizing s with
  | nil =>
    rcases hs with hs | ⟨-, a, ha⟩
    · exact hs
    · exact absurd ha List.not_mem_nil
  | cons next found ih =>
    apply ih fun a ha => h a (List.mem_cons_of_mem next ha)
    cases next with
    | some a =>
      have ha := h a List.mem_cons_self
      exact .inl (Scope.reduced_constrain (hs.symm.imp_left And.left) ha)
    | none =>
      refine hs.imp_right fun ⟨halways, a, ha⟩ => ⟨halways, a, ?_⟩
      exact (List.mem_cons.1 ha).resolve_left nofun

end Contributions

/-! ## What becomes of a filter -/

namespace Compiler

variable {c : Compiler} {user : Option Int64} {domain : Domain} {filters : FilterSet} {s : Scope}
  {e : FilterKey × FilterValue}

/-- A domain has a rule for a filter, which takes its value. -/
def Takes (c : Compiler) (user : Option Int64) (domain : Domain) (e : FilterKey × FilterValue) :
    Prop :=
  ∃ condition rule, c.rule? domain e.1 = some (condition, rule) ∧
    rule.Accepts (c.context user) condition e.2

/-- A domain has a rule for a filter, which rejects its value so that nothing is to match. -/
def Voids (c : Compiler) (user : Option Int64) (domain : Domain) (e : FilterKey × FilterValue) :
    Prop :=
  ∃ condition rule rejection, c.rule? domain e.1 = some (condition, rule) ∧
    rule.apply (c.context user) condition e.2 = .error rejection ∧
      rejection.policy = .matchNothing

/-- Whether a filter with a rule is taken is up to the rule. -/
theorem takes_iff {condition : Condition} {rule : Rule}
    (h : c.rule? domain e.1 = some (condition, rule)) :
    c.Takes user domain e ↔ ∃ a, rule.apply (c.context user) condition e.2 = .ok a := by
  simp [Takes, h, Rule.accepts_iff]

/-- Whether a filter with a rule is void is up to the rule. -/
theorem voids_iff {condition : Condition} {rule : Rule}
    (h : c.rule? domain e.1 = some (condition, rule)) :
    c.Voids user domain e ↔ ∃ rejection,
      rule.apply (c.context user) condition e.2 = .error rejection ∧
        rejection.policy = .matchNothing := by
  simp [Voids, h]

/-- A standard rule has a field to ask. -/
theorem Lawful.hasFields (h : c.Lawful) {key : RuleKey} {rule : Rule}
    (hr : c.table.resolve key = some rule) : rule.hasFields = true := by
  obtain ⟨r, hmem, -, -, rfl⟩ := (RuleTable.standard_resolve h.table).1 hr
  exact key.domain.hasFields_standardRules r hmem

/-- A filter contributes a reduced condition if it is taken, the condition that no row meets if it
is void, and nothing otherwise. -/
theorem Lawful.contribution_cases (hlawful : c.Lawful) {found : Option Association}
    (h : c.contribution user domain e = .ok found) :
    ((c.Takes user domain e ∧ ¬ c.Voids user domain e) ∧
        ∃ a, found = some a ∧ a.predicate.Reduced) ∨
      (c.Voids user domain e ∧ found = some ⟨.never, []⟩) ∨
      ((¬ c.Takes user domain e ∧ ¬ c.Voids user domain e) ∧ found = none) := by
  unfold contribution at h
  split at h
  · next hnone =>
    cases h
    exact .inr (.inr (by simp [Takes, Voids, hnone]))
  · next condition rule hrule =>
    obtain ⟨topic, -, hresolve⟩ := rule?_eq_some_iff.1 hrule
    rw [takes_iff hrule, voids_iff hrule]
    split at h
    · next a happly =>
      cases h
      rw [Builder.build_rule] at happly
      have hreduced := Rule.reduced_apply (hlawful.hasFields hresolve) happly
      exact .inl ⟨by simp [happly], a, rfl, hreduced⟩
    · next rejection happly =>
      rw [Builder.build_rule] at happly
      split at h
      · cases h
      · split at h
        · next hpolicy =>
          cases h
          exact .inr (.inr (by simp [happly, hpolicy]))
        · next hpolicy =>
          cases h
          exact .inr (.inl ⟨⟨rejection, happly, hpolicy⟩, rfl⟩)

/-- If no filter is void, only reduced conditions are contributed, and there is one if a filter is
taken. -/
theorem Lawful.reduced_contributions (hlawful : c.Lawful) {found : List (Option Association)}
    (hfound : filters.entries.mapM (c.contribution user domain) = .ok found)
    (hnone : ∀ e ∈ filters.entries, ¬ c.Voids user domain e) :
    (∀ a, some a ∈ found → a.predicate.Reduced) ∧
      ((∃ a, some a ∈ found) ↔ ∃ e ∈ filters.entries, c.Takes user domain e) := by
  have hmade : ∀ a, some a ∈ found →
      (∃ e ∈ filters.entries, c.Takes user domain e) ∧ a.predicate.Reduced := by
    intro a ha
    obtain ⟨e, he, hhere⟩ := Traversal.mem_of_ok hfound ha
    obtain ⟨⟨htakes, -⟩, b, hb, hreduced⟩ | ⟨hvoids, -⟩ | ⟨-, hnothing⟩ :=
      hlawful.contribution_cases hhere
    · cases hb
      exact ⟨⟨e, he, htakes⟩, hreduced⟩
    · exact absurd hvoids (hnone e he)
    · cases hnothing
  refine ⟨fun a ha => (hmade a ha).2, fun ⟨a, ha⟩ => (hmade a ha).1, ?_⟩
  rintro ⟨e, he, htakes⟩
  obtain ⟨here, hmem, hhere⟩ := Traversal.ok_of_mem hfound he
  obtain ⟨-, a, rfl, -⟩ | ⟨hvoids, -⟩ | ⟨⟨hnot, -⟩, -⟩ := hlawful.contribution_cases hhere
  · exact ⟨a, hmem⟩
  · exact absurd hvoids (hnone e he)
  · exact absurd htakes hnot

/-- A compiled scope has the condition that no row meets if a filter is void, else a reduced one if
a filter is taken, else it leaves the query as it is. -/
theorem Lawful.compiled_cases (hlawful : c.Lawful)
    (hs : c.compileDomain domain filters user = .ok s) :
    ((∃ e ∈ filters.entries, c.Voids user domain e) ∧ s.predicate = .never) ∨
      ((∀ e ∈ filters.entries, ¬ c.Voids user domain e) ∧
        ((∃ e ∈ filters.entries, c.Takes user domain e) ∧ s.predicate.Reduced ∨
          (∀ e ∈ filters.entries, ¬ c.Takes user domain e) ∧ s = .identity)) := by
  obtain ⟨found, hfound, rfl⟩ := compileDomain_eq_ok.1 hs
  by_cases hvoid : ∃ e ∈ filters.entries, c.Voids user domain e
  · obtain ⟨e, he, hvoids⟩ := hvoid
    obtain ⟨here, hmem, hhere⟩ := Traversal.ok_of_mem hfound he
    obtain ⟨⟨-, hnot⟩, -⟩ | ⟨-, rfl⟩ | ⟨⟨-, hnot⟩, -⟩ := hlawful.contribution_cases hhere
    · exact absurd hvoids hnot
    · exact .inl ⟨⟨e, he, hvoids⟩, foldl_extend_never (.inr hmem)⟩
    · exact absurd hvoids hnot
  · have hnone : ∀ e ∈ filters.entries, ¬ c.Voids user domain e :=
      fun e he hvoids => hvoid ⟨e, he, hvoids⟩
    obtain ⟨hreduced, hsome⟩ := hlawful.reduced_contributions hfound hnone
    refine .inr ⟨hnone, ?_⟩
    by_cases htaken : ∃ e ∈ filters.entries, c.Takes user domain e
    · exact .inl ⟨htaken, foldl_extend_reduced hreduced (.inr ⟨rfl, hsome.2 htaken⟩)⟩
    · refine .inr ⟨fun e he htakes => htaken ⟨e, he, htakes⟩, foldl_extend_none ?_⟩
      intro next hmem
      cases next with
      | none => rfl
      | some a => exact absurd (hsome.1 ⟨a, hmem⟩) htaken

/-! ## What the form of a scope shows -/

/-- The condition of a compiled scope is `never` exactly if a filter is void. -/
theorem Lawful.never_iff (hlawful : c.Lawful)
    (hs : c.compileDomain domain filters user = .ok s) :
    s.predicate = .never ↔ ∃ e ∈ filters.entries, c.Voids user domain e := by
  obtain ⟨hvoid, hnever⟩ | ⟨hnone, ⟨-, hreduced⟩ | ⟨-, rfl⟩⟩ := hlawful.compiled_cases hs
  · exact ⟨fun _ => hvoid, fun _ => hnever⟩
  · exact ⟨fun h => absurd h hreduced.ne_never, fun ⟨e, he, hvoids⟩ => absurd hvoids (hnone e he)⟩
  · exact ⟨nofun, fun ⟨e, he, hvoids⟩ => absurd hvoids (hnone e he)⟩

/-- If no filter is void, the condition of a compiled scope is `always` exactly if no filter is
taken, and there are no joins then. It is reduced if one is taken. -/
theorem Lawful.always_iff (hlawful : c.Lawful)
    (hs : c.compileDomain domain filters user = .ok s)
    (hnone : ∀ e ∈ filters.entries, ¬ c.Voids user domain e) :
    (s.predicate = .always ↔ ∀ e ∈ filters.entries, ¬ c.Takes user domain e) ∧
      (s.predicate = .always → s.extraJoins = []) ∧
      ((∃ e ∈ filters.entries, c.Takes user domain e) → s.predicate.Reduced) := by
  obtain ⟨⟨e, he, hvoids⟩, -⟩ | ⟨-, ⟨⟨e, he, htakes⟩, hreduced⟩ | ⟨hnot, rfl⟩⟩ :=
    hlawful.compiled_cases hs
  · exact absurd hvoids (hnone e he)
  · exact ⟨⟨fun h => absurd h hreduced.ne_always, fun hnot => absurd htakes (hnot e he)⟩,
      fun h => absurd h hreduced.ne_always, fun _ => hreduced⟩
  · exact ⟨⟨fun _ => hnot, fun _ => rfl⟩, fun _ => rfl,
      fun ⟨e, he, htakes⟩ => absurd htakes (hnot e he)⟩

/-- The condition of a compiled scope is normal. -/
theorem Lawful.normal_compiled (hlawful : c.Lawful)
    (hs : c.compileDomain domain filters user = .ok s) : s.predicate.Normal := by
  obtain ⟨-, hnever⟩ | ⟨-, ⟨-, hreduced⟩ | ⟨-, rfl⟩⟩ := hlawful.compiled_cases hs
  · rw [hnever]
    decide
  · exact hreduced.normal
  · show Predicate.always.Normal
    decide

/-- A compiled scope does something exactly if a filter is taken or void. -/
theorem Lawful.isIdentity_eq_false_iff (hlawful : c.Lawful)
    (hs : c.compileDomain domain filters user = .ok s) :
    s.isIdentity = false ↔
      ∃ e ∈ filters.entries, c.Takes user domain e ∨ c.Voids user domain e := by
  obtain ⟨⟨e, he, hvoids⟩, hnever⟩ | ⟨hnone, ⟨⟨e, he, htakes⟩, hreduced⟩ | ⟨hnot, rfl⟩⟩ :=
    hlawful.compiled_cases hs
  · refine ⟨fun _ => ⟨e, he, .inr hvoids⟩, fun _ => ?_⟩
    rw [Scope.isIdentity, hnever]
    rfl
  · refine ⟨fun _ => ⟨e, he, .inl htakes⟩, fun _ => ?_⟩
    rw [Scope.isIdentity, Bool.and_eq_false_iff, ← Bool.not_eq_true, Predicate.isAlways_iff]
    exact .inl hreduced.ne_always
  · exact ⟨nofun, fun ⟨e, he, heffect⟩ => (heffect.elim (hnot e he) (hnone e he)).elim⟩

/-- A domain is among the constrained ones of a compilation if its scope does something. -/
theorem mem_constrained {scopes : Scopes} (hscopes : c.compile filters user = .ok scopes)
    (hs : c.compileDomain domain filters user = .ok s) :
    domain ∈ scopes.constrained ↔ s.isIdentity = false := by
  obtain ⟨found, hfound, hentries⟩ := compile_eq_ok.1 hscopes
  obtain rfl : found domain = s := Except.ok.inj ((hfound domain).symm.trans hs)
  simp [Scopes.constrained, hentries, Domain.mem_all]

end Compiler

/-- The condition of a scope shows what has become of the filters that it is made of: it is `never`
exactly if one of them is void. If none is, it is `always`, without joins, exactly if none is taken,
and reduced if one is. So its text has no empty parentheses, and whether the scope does something,
by itself and among the scopes of all domains, tells whether some filter has taken effect. -/
theorem effect_of_filters {config : Config} {catalog : Catalog} {table : RuleTable} {c : Compiler}
    (hcatalog : catalog.Built) (htable : RuleTable.standard = .ok table)
    (hc : Compiler.ofParts config catalog table = .ok c) {domain : Domain} {filters : FilterSet}
    {user : Option Int64} {s : Scope} (hs : c.compileDomain domain filters user = .ok s) :
    (s.predicate = .never ↔ ∃ e ∈ filters.entries, c.Voids user domain e) ∧
      ((∀ e ∈ filters.entries, ¬ c.Voids user domain e) →
        ((s.predicate = .always ↔ ∀ e ∈ filters.entries, ¬ c.Takes user domain e) ∧
          (s.predicate = .always → s.extraJoins = []) ∧
          ((∃ e ∈ filters.entries, c.Takes user domain e) → s.predicate.Reduced))) ∧
      (FilledParentheses s.render.whereClause ∧
        ∀ join ∈ s.render.joins, FilledParentheses join) ∧
      (s.isIdentity = false ↔
        ∃ e ∈ filters.entries, c.Takes user domain e ∨ c.Voids user domain e) ∧
      ∀ scopes, c.compile filters user = .ok scopes →
        (domain ∈ scopes.constrained ↔
          ∃ e ∈ filters.entries, c.Takes user domain e ∨ c.Voids user domain e) := by
  have hlawful := Compiler.lawful_ofParts hcatalog htable hc
  have hidentity := hlawful.isIdentity_eq_false_iff hs
  refine ⟨hlawful.never_iff hs, hlawful.always_iff hs,
    ⟨(hlawful.normal_compiled hs).filledParentheses, List.forall_mem_map.2 fun j _ =>
      j.filledParentheses⟩, hidentity, fun scopes hscopes => ?_⟩
  rw [Compiler.mem_constrained hscopes hs, hidentity]

/-- The filter of a name of recipients takes effect on grants: its condition is reduced, and its
text has no empty parentheses. -/
theorem effect_of_recipient :
    ∃ catalog table c s, Catalog.standard = .ok catalog ∧ RuleTable.standard = .ok table ∧
      Compiler.ofParts Config.common catalog table = .ok c ∧
      c.compileDomain .grant
        (FilterSet.only (FilterKey.named .recipient .contains, .single "alp")) none = .ok s ∧
      s.predicate.Reduced ∧ FilledParentheses s.render.whereClause ∧ s.isIdentity = false := by
  obtain ⟨c, hc, hconfig⟩ := Compiler.exists_ofConfig Config.fault?_common rfl
  obtain ⟨catalog, table, hcatalog, htable, hparts⟩ := Compiler.ofConfig_eq_ok.1 hc
  obtain ⟨s, hs⟩ : ∃ s, c.compileDomain .grant
      (FilterSet.only (FilterKey.named .recipient .contains, .single "alp")) none = .ok s := by
    apply Compiler.exists_compileDomain
    rw [hconfig]
    exact fun _ _ => rfl
  have hrule : c.rule? .grant (FilterKey.named .recipient .contains) =
      some (.contains, .containsAt .grantRecipient "name") := by
    have hresolve : c.table.resolve ⟨.grant, .recipient, .contains⟩ =
        some (.containsAt .grantRecipient "name") := by
      rw [RuleTable.standard_resolve (Compiler.lawful_ofConfig hc).1.table]
      exact ⟨_, List.mem_cons_of_mem _ List.mem_cons_self, rfl, by decide, rfl⟩
    rw [Compiler.rule?_named, hresolve]
    rfl
  have haccepts : (Rule.containsAt .grantRecipient "name").Accepts (c.context none) .contains
      (.single "alp") := by
    obtain ⟨config, catalog, paths, table⟩ := c
    cases hconfig
    rfl
  obtain ⟨a, happly⟩ := Rule.accepts_iff.1 haccepts
  obtain ⟨-, hothers, ⟨htext, -⟩, hidentity, -⟩ :=
    effect_of_filters (Catalog.built_of_build hcatalog) htable hparts hs
  rw [FilterSet.entries_only] at hothers hidentity
  have htakes : c.Takes none .grant (FilterKey.named .recipient .contains, .single "alp") :=
    (Compiler.takes_iff hrule).2 ⟨a, happly⟩
  -- What is taken is not rejected.
  have hnone : ¬ c.Voids none .grant (FilterKey.named .recipient .contains, .single "alp") := by
    rw [Compiler.voids_iff hrule, happly]
    rintro ⟨_, ⟨⟩, -⟩
  exact ⟨catalog, table, c, s, hcatalog, htable, hparts, hs,
    (hothers (List.forall_mem_singleton.2 hnone)).2.2 ⟨_, List.mem_singleton_self _, htakes⟩,
    htext, hidentity.2 ⟨_, List.mem_singleton_self _, .inl htakes⟩⟩

end RowScope
