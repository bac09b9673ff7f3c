import RowScope.Digest.Sha256
import RowScope.Scope
import RowScope.Sql.Json

/-!
# Fingerprints

The fingerprint of some scopes is the SHA-256 digest of a list of bytes that holds, for each domain,
its name, the condition, the joins and the values. A byte before each part says what it is: 0 for
SQL text, 1 for a value and 2 for the end of the domain.
-/

namespace RowScope

/-- The bytes of a text. -/
def utf8Bytes (s : String) : List UInt8 := s.toUTF8.data.toList

/-- The bytes of a domain with its scope. -/
def Scope.fingerprintBytes (domain : Domain) (s : Scope) : List UInt8 :=
  let rendered := s.render
  utf8Bytes domain.name ++ 0 :: utf8Bytes rendered.whereClause ++
    rendered.joins.flatMap (fun join => 0 :: utf8Bytes join) ++
    rendered.params.flatMap (fun param => 1 :: utf8Bytes param.toJson.text) ++ [2]

namespace Scopes

/-- The bytes of some scopes. -/
def fingerprintBytes (scopes : Scopes) : List UInt8 :=
  scopes.entries.flatMap fun e => e.2.fingerprintBytes e.1

/-- The fingerprint in hexadecimal digits. -/
def fingerprint (scopes : Scopes) : String :=
  Digest.hexText (Digest.sha256 scopes.fingerprintBytes)

end Scopes

end RowScope
