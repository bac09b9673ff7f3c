import RowScope.Association
import RowScope.Domain
import RowScope.OrderedMap
import RowScope.Sql.Render

/-!
# Scopes

A scope is what the list query of one domain has to take up: a condition for its WHERE clause and
joins for its FROM clause, where the root table goes by its own name. Compiling a set of filters
gives one scope for each domain.
-/

namespace RowScope

/-- What a list query has to take up. -/
structure Scope where
  /-- The condition on its rows. -/
  predicate : Predicate
  /-- The joins that the condition reads through. -/
  extraJoins : List JoinClause
deriving DecidableEq

/-- A scope as SQL text. -/
structure RenderedScope where
  /-- The condition, with placeholders for values. -/
  whereClause : String
  /-- The joins. -/
  joins : List String
  /-- The values of the placeholders. -/
  params : List Value
deriving DecidableEq

namespace Scope

/-- The scope that leaves a query as it is. -/
def identity : Scope := ⟨.always, []⟩

/-- Whether a scope leaves a query as it is. -/
def isIdentity (s : Scope) : Bool := s.predicate.isAlways && s.extraJoins.isEmpty

/-- The scope under one more condition. -/
def constrain (s : Scope) (a : Association) : Scope :=
  ⟨.conj [s.predicate, a.predicate], mergeJoins s.extraJoins a.extraJoins⟩

/-- The scope under a condition that no row meets. -/
def matchNothing (s : Scope) : Scope := s.constrain ⟨.never, []⟩

/-- The scope as SQL text. -/
def render (s : Scope) : RenderedScope :=
  ⟨s.predicate.text, s.extraJoins.map JoinClause.text, s.predicate.params⟩

end Scope

/-- One scope for each of some domains. -/
abbrev Scopes : Type := OrderedMap Domain Scope

namespace Scopes

/-- The scopes that leave the queries of all domains as they are. -/
def identity : Scopes := OrderedMap.ofList (Domain.all.map fun domain => (domain, Scope.identity))

/-- The scope of a domain. -/
def get? (scopes : Scopes) (domain : Domain) : Option Scope := OrderedMap.get? scopes domain

/-- The scopes with the scope of one domain replaced. -/
def insert (scopes : Scopes) (domain : Domain) (s : Scope) : Scopes :=
  OrderedMap.insert scopes domain s

/-- The domains whose queries do not stay as they are, in canonical order. -/
def constrained (scopes : Scopes) : List Domain :=
  (scopes.entries.filter fun e => !e.2.isIdentity).map Prod.fst

end Scopes

end RowScope
