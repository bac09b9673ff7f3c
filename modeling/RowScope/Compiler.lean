import RowScope.Error
import RowScope.Filter.FilterSet
import RowScope.Relation.Standard
import RowScope.Rule.Apply
import RowScope.Rule.Standard

/-!
# Compilers

A compiler turns the filters of a request into a scope for each domain. It is made once, from a
configuration, a catalog and a table of rules, and whatever does not fit together is noticed then. A
request can fail in one way only, by an unusable value for a mandatory filter. The rules may be of
any type whose values build conditions (`Builder`); where none is named they are those of `Rule`.
-/

namespace RowScope

/-- What compiles filters. -/
structure Compiler (ρ : Type := Rule) where
  /-- The configuration. -/
  config : Config
  /-- The catalog. -/
  catalog : Catalog
  /-- The paths of the catalog that rules read through. -/
  paths : ReadPaths
  /-- The rules. -/
  table : RuleTable ρ

namespace Compiler

variable {ρ : Type}

/-- Whether some domain has a rule for the filter that a text names. -/
def isRegistered (table : RuleTable ρ) (text : String) : Bool :=
  match FilterKey.ofText? text with
  | none => false
  | some key =>
    match RuleTable.parseKey? key.topic key.condition with
    | none => false
    | some (topic, condition) => !(table.domainsFor topic condition).isEmpty

/-- The compiler of a configuration, a catalog and a table of rules. -/
def ofParts (config : Config) (catalog : Catalog) (table : RuleTable ρ) :
    Except ScopeError (Compiler ρ) := do
  config.validate.mapError .config
  let paths ← (ReadPaths.resolve catalog).mapError .schema
  match config.mandatoryFilters.find? fun text => !isRegistered table text with
  | some text => .error (.config (.unregistered text))
  | none => return ⟨config, catalog, paths, table⟩

/-- The compiler of a configuration with the standard catalog and the standard rules. -/
def ofConfig (config : Config) : Except ScopeError Compiler := do
  let catalog ← Catalog.standard.mapError .schema
  let table ← RuleTable.standard.mapError .ruleTwice
  ofParts config catalog table

/-- What the rules read in a request of a user. -/
def context (c : Compiler ρ) (user : Option Int64) : RuleContext := ⟨c.config, c.paths, user⟩

/-- The rule of a filter in a domain. -/
def rule? (c : Compiler ρ) (domain : Domain) (key : FilterKey) : Option (Condition × ρ) := do
  let (topic, condition) ← RuleTable.parseKey? key.topic key.condition
  return (condition, ← c.table.resolve ⟨domain, topic, condition⟩)

/-- The scope of a domain under one more filter. A filter without a rule says nothing. -/
def addFilter [Builder ρ] (c : Compiler ρ) (user : Option Int64) (domain : Domain) (scope : Scope)
    (filter : FilterKey × FilterValue) : Except ScopeError Scope :=
  match c.rule? domain filter.1 with
  | none => .ok scope
  | some (condition, rule) =>
    match Builder.build (c.context user) condition filter.2 rule with
    | .ok association => .ok (scope.constrain association)
    | .error rejection =>
      if c.config.isMandatory filter.1 then .error (.mandatoryRejected filter.1)
      else
        match rejection.policy with
        | .ignore => .ok scope
        | .matchNothing => .ok scope.matchNothing

/-- The scope that some filters give to a domain. -/
def compileDomain [Builder ρ] (c : Compiler ρ) (domain : Domain) (filters : FilterSet)
    (user : Option Int64) : Except ScopeError Scope :=
  filters.entries.foldlM (c.addFilter user domain) .identity

/-- The scopes that some filters give to all domains. -/
def compile [Builder ρ] (c : Compiler ρ) (filters : FilterSet) (user : Option Int64) :
    Except ScopeError Scopes :=
  Domain.all.foldlM (fun scopes domain => do
    return scopes.insert domain (← c.compileDomain domain filters user)) Scopes.identity

end Compiler

end RowScope
