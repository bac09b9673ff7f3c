import RowScope.Config
import RowScope.Memory.Database
import RowScope.Relation.Catalog
import RowScope.Rule.Table

/-!
# Errors

What can go wrong outside of a filter value. An unknown filter or an unusable value is no error: the
first says nothing, and the second is rejected by its rule.
-/

namespace RowScope

open RowScope.Json

/-- An error. -/
inductive ScopeError where
  /-- No domain has the name. -/
  | unknownDomain (name : String)
  /-- No topic or no condition has the name. -/
  | unknownFilter (name : String)
  /-- A catalog does not fit together. -/
  | schema (fault : SchemaFault)
  /-- A scope cannot be executed. -/
  | execution (fault : ExecutionFault)
  /-- A key has two rules. -/
  | ruleTwice (key : RuleKey)
  /-- A configuration is unusable. -/
  | config (fault : ConfigFault)
  /-- The value of a mandatory filter was rejected. -/
  | mandatoryRejected (key : FilterKey)
  /-- A JSON text does not hold what was to be read from it. -/
  | json (fault : Fault)
deriving DecidableEq

namespace ScopeError

/-- The kind of an error. -/
def kind : ScopeError → String
  | unknownDomain _ => "UnknownDomain"
  | unknownFilter _ => "UnknownFilter"
  | schema _ | execution _ => "Configuration"
  | ruleTwice _ => "DuplicateRegistration"
  | config _ => "InvalidConfig"
  | mandatoryRejected _ => "MandatoryFilterRejected"
  | json _ => "Serialization"

/-- The description of an error. -/
def message : ScopeError → String
  | unknownDomain name => "unknown domain: " ++ name
  | unknownFilter name => "unknown filter name: " ++ name
  | schema fault => "configuration error: " ++ fault.message
  | execution fault => "configuration error: " ++ fault.message
  | ruleTwice key =>
    "duplicate registration for " ++ key.domain.name ++ " " ++ key.topic.name ++ "." ++
      key.condition.name
  | config fault => "invalid configuration: " ++ fault.message
  | mandatoryRejected key => "mandatory filter " ++ key.text ++ " was rejected"
  | json fault => "serialization error: " ++ fault.message

end ScopeError

end RowScope
