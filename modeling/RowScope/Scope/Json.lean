import RowScope.Scope
import RowScope.Sql.Json

/-!
# Scopes in JSON texts

The scopes of a compilation are kept as an object with the domains by name, in canonical order. A
domain that the text leaves out stays absent, and of two scopes of one domain the last counts.
-/

namespace RowScope

open RowScope.Json

/-- A scope in JSON. -/
def Scope.toJson (s : Scope) : Json :=
  .obj [("predicate", s.predicate.toJson),
    ("extra_joins", .arr (s.extraJoins.map JoinClause.toJson))]

/-- The fields of a scope that have been read. -/
structure ScopeParts where
  /-- The condition. -/
  predicate : Option Predicate := none
  /-- The joins. -/
  extraJoins : Option (List JoinClause) := none

/-- Reads a scope. -/
def Scope.decode : Decoder Scope :=
  decodeRecord
    [.slot "predicate" ScopeParts.predicate (fun v s => { s with predicate := v })
        Predicate.decode,
      .slot "extra_joins" ScopeParts.extraJoins (fun v s => { s with extraJoins := v })
        (decodeList JoinClause.decode)]
    false {} fun s => do return ⟨← required s.predicate, ← required s.extraJoins⟩

namespace Scopes

/-- Some scopes in JSON. -/
def toJson (scopes : Scopes) : Json :=
  .obj [("scopes", .obj (scopes.entries.map fun e => (e.1.name, e.2.toJson)))]

/-- The domain that is written by its exact name. -/
def decodeDomainName (name : String) : Except Fault Domain :=
  required (Domain.all.find? fun domain => domain.name == name)

/-- Reads some scopes. -/
def decode : Decoder Scopes :=
  decodeRecord
    [.slot "scopes" (fun s : Option Scopes => s) (fun v _ => some v) fun depth document =>
      (decodeMap decodeDomainName Scope.decode depth document).map OrderedMap.ofList]
    false none required

/-- The JSON text of some scopes. -/
def writeJson (scopes : Scopes) : String := scopes.toJson.text

/-- Reads some scopes from a JSON text. -/
def readJson (text : String) : Except Fault Scopes := decodeText decode text

end Scopes

end RowScope
