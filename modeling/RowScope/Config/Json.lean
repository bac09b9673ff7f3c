import RowScope.Config
import RowScope.Json.Write

/-!
# Configurations in JSON texts

A configuration is read from an object whose members are all optional: what is missing is taken from
the common configuration. A vocabulary, where one is given, is given whole.
-/

namespace RowScope

open RowScope.Json

/-- Reads a policy. -/
def RejectionPolicy.decode : Decoder RejectionPolicy :=
  decodeAlternative [.plain "ignore" .ignore, .plain "match_nothing" .matchNothing]

/-- The fields of a vocabulary that have been read. -/
structure VocabularyParts where
  /-- The values. -/
  values : Option (List String) := none
  /-- The policy. -/
  onReject : Option RejectionPolicy := none

/-- Reads a vocabulary. -/
def Vocabulary.decode : Decoder Vocabulary :=
  decodeRecord
    [.slot "values" VocabularyParts.values (fun v s => { s with values := v })
        (decodeList decodeString),
      .slot "on_reject" VocabularyParts.onReject (fun v s => { s with onReject := v })
        RejectionPolicy.decode]
    false {} fun s => do
      return ⟨OrderedSet.ofList (← required s.values), ← required s.onReject⟩

/-- The vocabularies that have been read. -/
structure VocabulariesParts where
  /-- The roles. -/
  roles : Option Vocabulary := none
  /-- The topics. -/
  topics : Option Vocabulary := none
  /-- The reasons. -/
  reasons : Option Vocabulary := none
  /-- The statuses of goals. -/
  goalStatuses : Option Vocabulary := none

/-- Reads the vocabularies. -/
def Vocabularies.decode : Decoder Vocabularies :=
  decodeRecord
    [.slot "roles" VocabulariesParts.roles (fun v s => { s with roles := v }) Vocabulary.decode,
      .slot "topics" VocabulariesParts.topics (fun v s => { s with topics := v })
        Vocabulary.decode,
      .slot "reasons" VocabulariesParts.reasons (fun v s => { s with reasons := v })
        Vocabulary.decode,
      .slot "goal_statuses" VocabulariesParts.goalStatuses (fun v s => { s with goalStatuses := v })
        Vocabulary.decode]
    true {} fun s =>
      .ok ⟨s.roles.getD Vocabularies.common.roles, s.topics.getD Vocabularies.common.topics,
        s.reasons.getD Vocabularies.common.reasons,
        s.goalStatuses.getD Vocabularies.common.goalStatuses⟩

/-- The fields of a configuration that have been read. -/
structure ConfigParts where
  /-- The vocabularies. -/
  vocabularies : Option Vocabularies := none
  /-- The mandatory filters. -/
  mandatoryFilters : Option (List String) := none
  /-- The format of dates. -/
  dateFormat : Option String := none
  /-- Whether wildcards are made literal. -/
  escapeWildcards : Option Bool := none

/-- Reads a configuration. -/
def Config.decode : Decoder Config :=
  decodeRecord
    [.slot "vocabularies" ConfigParts.vocabularies (fun v s => { s with vocabularies := v })
        Vocabularies.decode,
      .slot "mandatory_filters" ConfigParts.mandatoryFilters
        (fun v s => { s with mandatoryFilters := v }) (decodeList decodeString),
      .slot "date_format" ConfigParts.dateFormat (fun v s => { s with dateFormat := v })
        decodeString,
      .slot "escape_like_wildcards" ConfigParts.escapeWildcards
        (fun v s => { s with escapeWildcards := v }) decodeBool]
    true {} fun s =>
      .ok ⟨s.vocabularies.getD Config.common.vocabularies,
        s.mandatoryFilters.getD Config.common.mandatoryFilters,
        s.dateFormat.getD Config.common.dateFormat,
        s.escapeWildcards.getD Config.common.escapeWildcards⟩

/-- Reads a configuration from a JSON text, without a check. -/
def Config.readJson (text : String) : Except Fault Config := decodeText Config.decode text

end RowScope
