import RowScope.Compiler
import RowScope.Config.Json
import RowScope.Scope.Json

/-!
# Parts of a request

The names and texts from which a request is put together, each read with the error that it may
cause.
-/

namespace RowScope

/-- The domain of a name. -/
def Domain.read (name : String) : Except ScopeError Domain :=
  match Domain.ofName? name with
  | some domain => .ok domain
  | none => .error (.unknownDomain name)

/-- The topic of a name. -/
def Topic.read (name : String) : Except ScopeError Topic :=
  match Topic.ofName? name with
  | some topic => .ok topic
  | none => .error (.unknownFilter name)

/-- The condition of a name. -/
def Condition.read (name : String) : Except ScopeError Condition :=
  match Condition.ofName? name with
  | some condition => .ok condition
  | none => .error (.unknownFilter name)

/-- The configuration of a JSON text. One with a fault is refused. -/
def Config.read (text : String) : Except ScopeError Config := do
  let config ← (Config.readJson text).mapError .json
  config.validate.mapError .config
  return config

/-- The filters of a JSON text. -/
def FilterSet.read (text : String) : Except ScopeError FilterSet :=
  (FilterSet.ofJson text).mapError .json

/-- The scopes of a JSON text. -/
def Scopes.read (text : String) : Except ScopeError Scopes := (Scopes.readJson text).mapError .json

end RowScope
