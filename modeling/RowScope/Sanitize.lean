import RowScope.Calendar.Reader
import RowScope.Config
import RowScope.Filter.Topic
import RowScope.Filter.Value

/-!
# Sanitized values

The texts of a filter value are untrusted. Before a predicate is built from them they are brought
into one of a few safe shapes, or the value is rejected as a whole. Blanks around a text never
count, nor do texts that are blank throughout.
-/

namespace RowScope

open RowScope.Calendar (Date)

/-- What the texts of a value are to be taken for. -/
inductive ValueKind where
  /-- Patterns that a text must contain, with wildcards made literal or not. -/
  | freeText (escapeWildcards : Bool)
  /-- Names that a text must equal. -/
  | exactText
  /-- Members of a vocabulary. -/
  | member (vocabulary : Vocabulary)
  /-- Integers. -/
  | integers
  /-- The dates that a condition compares with. -/
  | dates (condition : Condition) (format : String)

/-- The dates that a condition allows, their ends included. -/
inductive DateWindow where
  | before (last : Date)
  | after (first : Date)
  | within (first last : Date)
deriving DecidableEq

/-- A value in a safe shape. -/
inductive SafeValue where
  | patterns (patterns : List String)
  | tokens (tokens : List String)
  | integers (integers : List Int64)
  | dates (window : DateWindow)
deriving DecidableEq

/-- Why a value is rejected. -/
inductive RejectReason where
  /-- No text is in the vocabulary. -/
  | notInVocabulary
  /-- No text has the wanted form. -/
  | malformed
  /-- There is no text. -/
  | empty
deriving DecidableEq, Repr

/-- The name of a reason. -/
def RejectReason.name : RejectReason → String
  | notInVocabulary => "not_in_vocabulary"
  | malformed => "malformed"
  | empty => "empty"

/-- A value that is rejected, and the number of its texts that were dropped on the way. -/
structure Rejected where
  /-- Why. -/
  reason : RejectReason
  /-- The number of texts dropped. -/
  dropped : Nat
deriving DecidableEq, Repr

/-- The description of a rejection. -/
def Rejected.message (r : Rejected) : String :=
  let dropped := String.ofList (Number.natText r.dropped)
  match r.reason with
  | .notInVocabulary => dropped ++ " value(s) outside the allowed vocabulary"
  | .malformed => dropped ++ " malformed value(s)"
  | .empty => "empty value"

/-! ## Texts -/

/-- The texts of a value without the blanks around them, but for those that are blank. -/
def FilterValue.trimmed (value : FilterValue) : List String :=
  (value.entries.map Text.trim).filter fun s => !s.isEmpty

/-- The text without NUL, which a database refuses. -/
def stripNul (s : String) : String := String.ofList (s.toList.filter fun c => c ≠ '\x00')

/-- The members of a list at their first places, but for those already seen. -/
def distinct {α : Type} [BEq α] : List α → List α → List α
  | _, [] => []
  | seen, a :: rest =>
    if seen.contains a then distinct seen rest else a :: distinct (a :: seen) rest

/-- A character of a pattern that stands for itself. -/
def escapedChar (c : Char) : List Char :=
  if c = '%' ∨ c = '_' ∨ c = '\\' then ['\\', c] else [c]

/-- The inside of the pattern of a text. -/
def patternBody (escapeWildcards : Bool) (s : String) : List Char :=
  let chars := (stripNul s).toList
  if escapeWildcards then chars.flatMap escapedChar else chars

/-- The pattern of the texts that contain a text. -/
def containsPattern (escapeWildcards : Bool) (s : String) : String :=
  String.ofList ('%' :: patternBody escapeWildcards s ++ ['%'])

/-! ## Dates -/

/-- The dates of the two halves of a window, around its first hyphen. -/
def splitWindow (cs : List Char) : Option (List Char × List Char) :=
  match cs.dropWhile fun c => c != '-' with
  | [] => none
  | _ :: rest => some (cs.takeWhile fun c => c != '-', rest)

/-- The date of a text without the blanks around it. -/
def readTrimmedDate? (format : String) (cs : List Char) : Option Date :=
  Calendar.readDate? format (String.ofList (Text.trimChars cs))

/-- The window of two dates in either order. -/
def DateWindow.between (a b : Date) : DateWindow :=
  if Ordered.cmp a b ≠ .gt then .within a b else .within b a

/-- The dates that a text gives to a condition. -/
def readWindow? (condition : Condition) (format : String) (cs : List Char) : Option DateWindow :=
  match condition with
  | .before => (readTrimmedDate? format cs).map .before
  | .after => (readTrimmedDate? format cs).map .after
  | .window => do
    let halves ← splitWindow cs
    return .between (← readTrimmedDate? format halves.1) (← readTrimmedDate? format halves.2)
  | .contains | .lacks | .oneOf | .noneOf => none

/-! ## Values -/

/-- The texts that were kept, unless none was. -/
def keptOr {α : Type} (reason : RejectReason) (dropped : Nat) (kept : List α) :
    Except Rejected (List α) :=
  if kept.isEmpty then .error ⟨reason, dropped⟩ else .ok kept

namespace FilterValue

/-- The texts of a value that are not blank, trimmed. -/
def usable (value : FilterValue) : Except Rejected (List String) := keptOr .empty 0 value.trimmed

/-- The patterns of the texts that contain one of the value's texts. -/
def patterns (escapeWildcards : Bool) (value : FilterValue) : Except Rejected (List String) := do
  let texts ← value.usable
  keptOr .empty texts.length
    ((texts.map (containsPattern escapeWildcards)).filter fun p => p ≠ "%%")

/-- The distinct texts of a value. -/
def exactTexts (value : FilterValue) : Except Rejected (List String) := do
  let texts ← value.usable
  keptOr .empty texts.length (distinct [] ((texts.map stripNul).filter fun s => !s.isEmpty))

/-- The distinct texts of a value that are in a vocabulary. -/
def members (vocabulary : Vocabulary) (value : FilterValue) : Except Rejected (List String) := do
  let texts ← value.usable
  keptOr .notInVocabulary (texts.filter fun s => !vocabulary.contains s).length
    (distinct [] (texts.filter vocabulary.contains))

/-- The integers that the value's texts write. -/
def integers (value : FilterValue) : Except Rejected (List Int64) := do
  let texts ← value.usable
  keptOr .malformed texts.length (texts.filterMap Number.readInt64)

/-- The dates that the first text of a value gives to a condition. -/
def dates (condition : Condition) (format : String) (value : FilterValue) :
    Except Rejected DateWindow := do
  let texts ← value.usable
  match texts.head?.bind fun text => readWindow? condition format text.toList with
  | some window => return window
  | none => .error ⟨.malformed, 1⟩

end FilterValue

/-- Brings a value into a safe shape. -/
def sanitize (value : FilterValue) : ValueKind → Except Rejected SafeValue
  | .freeText escapeWildcards => (value.patterns escapeWildcards).map .patterns
  | .exactText => value.exactTexts.map .tokens
  | .member vocabulary => (value.members vocabulary).map .tokens
  | .integers => value.integers.map .integers
  | .dates condition format => (value.dates condition format).map .dates

end RowScope
