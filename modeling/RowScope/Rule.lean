import RowScope.Association
import RowScope.Config
import RowScope.Relation.ReadPath
import RowScope.Sanitize

/-!
# Rules

A rule turns the value of a filter into a condition on the rows of a domain. It names the fields
that the filter reads, each a column at the end of a path, and how the texts of the value are taken.
A value that a rule can make nothing of is rejected, with a policy on what follows.
-/

namespace RowScope

/-- Whether a column holds one value or an array. -/
inductive ColumnShape where
  | single
  | array
deriving DecidableEq, Repr

/-- A column at the end of a path. -/
structure Field where
  /-- The path. -/
  path : ReadPath
  /-- The column of its terminal table. -/
  column : String
  /-- What the column holds. -/
  shape : ColumnShape
deriving DecidableEq, Repr

/-- A column that holds one value. -/
def Field.one (path : ReadPath) (column : String) : Field := ⟨path, column, .single⟩

/-- A column that holds an array. -/
def Field.many (path : ReadPath) (column : String) : Field := ⟨path, column, .array⟩

/-- What a filter asks of related rows. -/
inductive Criterion where
  /-- One of the fields contains one of the texts. -/
  | contains (fields : List Field)
  /-- The field is one of the integers. -/
  | integer (field : Field)
  /-- The field has one of the texts. -/
  | text (field : Field)
  /-- One of the fields has one of the texts, which are members of a vocabulary. -/
  | member (vocabulary : VocabularyName) (fields : List Field)
  /-- The field has one of the texts, which are members of a vocabulary, or nothing if one of the
  texts is `unset`. -/
  | memberOrUnset (vocabulary : VocabularyName) (unset : String) (field : Field)
  /-- The field is in the window of dates. -/
  | date (field : Field)
  /-- The period from one column to another overlaps the window of dates. -/
  | period (first last : Field)
  /-- The field is one of the integers, in a group that the user may see. -/
  | groupInteger (field : Field)
  /-- The field has one of the texts, in a group that the user may see. -/
  | groupText (field : Field)
  /-- The user is named by the field of one of the texts. -/
  | user (parts : List (String × Field))
  /-- The array consists of the parts that one of the texts lists. -/
  | combination (field : Field) (parts : List String)
  /-- The field has the flag of one of the texts. -/
  | flag (field : Field) (flags : List (String × String))
deriving DecidableEq, Repr

/-- How the value of a filter becomes a condition on the rows of a domain. -/
inductive Rule where
  /-- A related row meets a criterion or, under a negative condition, none does. -/
  | related (criterion : Criterion)
  /-- The number of related rows is as one of the texts says. -/
  | count (path : ReadPath) (sizes : List (String × CompareOp × Int64))
deriving DecidableEq, Repr

/-- What a rule may read besides the filter. -/
structure RuleContext where
  /-- The configuration. -/
  config : Config
  /-- The paths of the catalog. -/
  paths : ReadPaths
  /-- The user who asks. -/
  user : Option Int64

/-- A value of which a rule can make nothing. -/
structure Rejection where
  /-- Why, and how many texts were dropped. -/
  rejected : Rejected
  /-- What follows. -/
  policy : RejectionPolicy
deriving DecidableEq, Repr

namespace Rejection

/-- A rejection that has no consequence. -/
def ignored (rejected : Rejected) : Rejection := ⟨rejected, .ignore⟩

/-- The rejection of a value none of whose texts has a meaning to the rule. -/
def meaningless (value : FilterValue) : Rejection := ignored ⟨.malformed, value.entries.length⟩

/-- A rejection under a vocabulary: its policy is meant for texts outside of it, not for empty
values. -/
def underVocabulary (vocabulary : Vocabulary) (rejected : Rejected) : Rejection :=
  match rejected.reason with
  | .notInVocabulary => ⟨rejected, vocabulary.onReject⟩
  | .malformed | .empty => ignored rejected

end Rejection

end RowScope
