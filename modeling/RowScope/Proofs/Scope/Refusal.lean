import RowScope.Proofs.Compiler
import RowScope.Proofs.OrderedMap

/-!
# Refused requests

A compilation fails for one reason only: a domain has a rule for a mandatory filter, and the rule
rejects its value (`Compiler.Refuses`). It fails with the first such filter, the domains taken in
canonical order and the filters of a domain in the order of their keys
(`compile_fails_iff_refused`). When one filter stops a compilation (`contribution_eq_error`) decides
when a domain fails (`compileDomain_eq_error`), and that decides when the whole does
(`compile_eq_error`). No step looks into a rule, so the rules may be of any type.
-/

namespace RowScope

/-- A filter is mandatory if a text of the configuration writes its key. -/
theorem Config.isMandatory_iff {config : Config} {key : FilterKey} :
    config.isMandatory key = true ↔
      ∃ text ∈ config.mandatoryFilters, FilterKey.ofText? text = some key := by
  unfold isMandatory
  rw [List.contains_iff_mem, List.mem_filterMap]

namespace Compiler

variable {ρ : Type} [Builder ρ]

/-- A domain refuses a filter. -/
structure Refuses (c : Compiler ρ) (user : Option Int64) (domain : Domain)
    (e : FilterKey × FilterValue) : Prop where
  /-- The domain has a rule for the topic and the condition of the filter, which rejects its
  value. -/
  rejected : ∃ topic condition rule rejection,
    RuleTable.parseKey? e.1.topic e.1.condition = some (topic, condition) ∧
      c.table.resolve ⟨domain, topic, condition⟩ = some rule ∧
      Builder.build (c.context user) condition e.2 rule = .error rejection
  /-- The configuration lists the filter as mandatory. -/
  mandatory : ∃ text ∈ c.config.mandatoryFilters, FilterKey.ofText? text = some e.1

/-- A domain refuses a filter of a set, and nothing is refused before: no filter by a domain that
stands before it, and none with a smaller key by the domain itself. -/
structure FirstRefusal (c : Compiler ρ) (user : Option Int64) (filters : FilterSet)
    (domain : Domain) (e : FilterKey × FilterValue) : Prop where
  /-- The filter is in the set. -/
  member : e ∈ filters.entries
  /-- The domain refuses it. -/
  refused : c.Refuses user domain e
  /-- The domains before refuse nothing. -/
  domainsBefore : ∀ earlier : Domain, earlier.place < domain.place →
    ∀ other ∈ filters.entries, ¬ c.Refuses user earlier other
  /-- The domain refuses none of the filters before. -/
  keysBefore : ∀ other ∈ filters.entries, Ordered.cmp other.1 e.1 = .lt →
    ¬ c.Refuses user domain other

variable {c : Compiler ρ} {user : Option Int64} {domain : Domain} {filters : FilterSet}
  {err : ScopeError}

/-- A filter stops a compilation if it is refused, and names itself then. -/
theorem contribution_eq_error {e : FilterKey × FilterValue} :
    c.contribution user domain e = .error err ↔
      c.Refuses user domain e ∧ err = .mandatoryRejected e.1 := by
  constructor
  · intro h
    unfold contribution at h
    split at h
    · cases h
    · next condition rule hrule =>
      split at h
      · cases h
      · next rejection happly =>
        split at h
        · next hmandatory =>
          cases h
          obtain ⟨topic, hparse, hresolve⟩ := rule?_eq_some_iff.1 hrule
          exact ⟨⟨⟨topic, condition, rule, rejection, hparse, hresolve, happly⟩,
            Config.isMandatory_iff.1 hmandatory⟩, rfl⟩
        · cases hpolicy : rejection.policy <;> rw [hpolicy] at h <;> cases h
  · rintro ⟨⟨⟨topic, condition, rule, rejection, hparse, hresolve, happly⟩, hmandatory⟩, rfl⟩
    have hrule : c.rule? domain e.1 = some (condition, rule) :=
      rule?_eq_some_iff.2 ⟨topic, hparse, hresolve⟩
    unfold contribution
    simp only [hrule, happly, Config.isMandatory_iff.2 hmandatory, if_true]

/-- A filter contributes something or nothing if it is not refused. -/
theorem exists_contribution_iff {e : FilterKey × FilterValue} :
    (∃ found, c.contribution user domain e = .ok found) ↔ ¬ c.Refuses user domain e := by
  cases h : c.contribution user domain e with
  | ok found =>
    refine ⟨fun _ hrefuses => ?_, fun _ => ⟨found, rfl⟩⟩
    rw [contribution_eq_error.2 ⟨hrefuses, rfl⟩] at h
    cases h
  | error err =>
    have hrefuses := (contribution_eq_error.1 h).1
    refine ⟨?_, fun hnot => absurd hrefuses hnot⟩
    rintro ⟨_, ⟨⟩⟩

/-- A domain fails with the first filter in key order that it refuses. -/
theorem compileDomain_eq_error :
    c.compileDomain domain filters user = .error err ↔
      ∃ e ∈ filters.entries, (c.Refuses user domain e ∧ err = .mandatoryRejected e.1) ∧
        ∀ other ∈ filters.entries, Ordered.cmp other.1 e.1 = .lt →
          ¬ c.Refuses user domain other := by
  have irreflexive : ∀ key : FilterKey, Ordered.cmp key key ≠ .lt := by
    intro key h
    rw [Ordered.cmp_self] at h
    cases h
  unfold compileDomain
  rw [Traversal.foldlM_eq_error (c.contribution user domain) (fun s _ found => s.extend found)
    (fun _ e => addFilter_eq e) (fun a b => Ordered.cmp a.1 b.1 = .lt)
    (fun e => irreflexive e.1)
    (fun a b hab hba => irreflexive a.1 (Ordered.cmp_trans a.1 b.1 a.1 hab hba))
    filters.increasing]
  simp only [contribution_eq_error, exists_contribution_iff]

/-- A domain fails if it refuses a filter, and gives a scope if it refuses none. -/
theorem exists_compileDomain_iff :
    (∃ s, c.compileDomain domain filters user = .ok s) ↔
      ∀ e ∈ filters.entries, ¬ c.Refuses user domain e := by
  constructor
  · rintro ⟨s, hs⟩ e he
    obtain ⟨found, hfound, -⟩ := compileDomain_eq_ok.1 hs
    obtain ⟨here, -, hhere⟩ := Traversal.ok_of_mem hfound he
    exact exists_contribution_iff.1 ⟨here, hhere⟩
  · intro h
    obtain ⟨found, hfound⟩ := Traversal.exists_mapM fun e he => exists_contribution_iff.2 (h e he)
    exact ⟨_, compileDomain_eq_ok.2 ⟨found, hfound, rfl⟩⟩

/-- A compilation fails with the first refusal. -/
theorem compile_eq_error :
    c.compile filters user = .error err ↔
      ∃ domain e, c.FirstRefusal user filters domain e ∧ err = .mandatoryRejected e.1 := by
  have step : ∀ (scopes : Scopes) (domain : Domain),
      (do return scopes.insert domain (← c.compileDomain domain filters user) :
        Except ScopeError Scopes) =
      (c.compileDomain domain filters user).map (scopes.insert domain) := by
    intro scopes domain
    cases c.compileDomain domain filters user <;> rfl
  unfold compile
  rw [Traversal.foldlM_eq_error (fun domain => c.compileDomain domain filters user)
    (fun scopes domain s => scopes.insert domain s) step (fun d e => d.place < e.place)
    (fun d => Nat.lt_irrefl d.place) (fun d e => Nat.lt_asymm) Domain.pairwise_all]
  simp only [Domain.mem_all, true_and, forall_const, exists_compileDomain_iff,
    compileDomain_eq_error]
  constructor
  · rintro ⟨domain, ⟨e, he, ⟨hrefuses, rfl⟩, hkeys⟩, hdomains⟩
    exact ⟨domain, e, ⟨he, hrefuses, hdomains, hkeys⟩, rfl⟩
  · rintro ⟨domain, e, h, rfl⟩
    exact ⟨domain, ⟨e, h.member, ⟨h.refused, rfl⟩, h.keysBefore⟩, h.domainsBefore⟩

/-- A compilation whose domains refuse nothing gives the scopes of the domains. -/
theorem exists_compile (h : ∀ domain, ∀ e ∈ filters.entries, ¬ c.Refuses user domain e) :
    ∃ scopes, c.compile filters user = .ok scopes ∧
      ∀ domain, ∃ s, c.compileDomain domain filters user = .ok s ∧ scopes.get? domain = some s := by
  obtain ⟨found, hfound⟩ :=
    Classical.axiomOfChoice fun domain => exists_compileDomain_iff.2 (h domain)
  have hcompile := compile_of_found hfound
  refine ⟨_, hcompile, fun domain => ⟨found domain, hfound domain, ?_⟩⟩
  cases domain <;> rfl

end Compiler

/-- A compilation fails if a domain refuses one of the filters, and then with the key of the first
refusal. Otherwise it gives every domain the scope that the domain has by itself. That is so with
rules of any type. -/
theorem compile_fails_iff_refused {ρ : Type} [Builder ρ] (c : Compiler ρ) (filters : FilterSet)
    (user : Option Int64) :
    ((∃ err, c.compile filters user = .error err) ↔
        ∃ domain, ∃ e ∈ filters.entries, c.Refuses user domain e) ∧
      (∀ err, c.compile filters user = .error err ↔
        ∃ domain e, c.FirstRefusal user filters domain e ∧ err = .mandatoryRejected e.1) ∧
      ((∀ domain, ∀ e ∈ filters.entries, ¬ c.Refuses user domain e) →
        ∃ scopes, c.compile filters user = .ok scopes ∧
          ∀ domain, ∃ s, c.compileDomain domain filters user = .ok s ∧
            scopes.get? domain = some s) := by
  refine ⟨⟨?_, ?_⟩, fun err => Compiler.compile_eq_error, Compiler.exists_compile⟩
  · rintro ⟨err, h⟩
    obtain ⟨domain, e, hfirst, -⟩ := Compiler.compile_eq_error.1 h
    exact ⟨domain, e, hfirst.member, hfirst.refused⟩
  · rintro ⟨domain, e, he, hrefuses⟩
    cases h : c.compile filters user with
    | error err => exact ⟨err, rfl⟩
    | ok scopes =>
      -- A domain that refuses a filter gives no scope, but every domain of a result does.
      obtain ⟨s, hs⟩ := Compiler.exists_of_compile h domain
      exact absurd hrefuses (Compiler.exists_compileDomain_iff.1 ⟨s, hs⟩ e he)

/-- The common configuration with a mandatory filter on regions. -/
def Config.regional : Config := { Config.common with mandatoryFilters := [" region.in[]"] }

/-- The table of one rule, a function that takes no value. -/
def RuleTable.refusing : RuleTable BuilderFn :=
  ⟨[(⟨.goal, .region, .oneOf⟩, fun _ _ value => .error (.meaningless value))], by decide⟩

example (catalog : Catalog) (paths : ReadPaths) :
    Compiler.compile ⟨Config.regional, catalog, paths, RuleTable.refusing⟩
        (FilterSet.only (FilterKey.named .region .oneOf, .single "1")) none =
      .error (.mandatoryRejected (FilterKey.named .region .oneOf)) := rfl

end RowScope
