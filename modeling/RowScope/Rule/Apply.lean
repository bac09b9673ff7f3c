import RowScope.Rule
import RowScope.Rule.Comparison
import RowScope.Text.Letters

/-!
# What a rule makes of a value

`Rule.apply` gives the condition that a filter puts on the rows of its domain, or the rejection of
its value. Negative conditions keep the rows that the positive ones leave. Rules of other types may
stand in for these, if they do as much (`Builder`).
-/

namespace RowScope

/-- The column of a field. -/
def Field.columnRef (f : Field) (paths : ReadPaths) : ColumnRef :=
  (paths.get f.path).terminalColumn f.column

/-- A condition on the rows at the end of a field's path. -/
def Field.target (f : Field) (paths : ReadPaths) (condition : ColumnRef → Predicate) :
    RelationPath × Predicate :=
  (paths.get f.path, condition (f.columnRef paths))

/-- The field has one of some texts: its column does, or shares one with them if it is an array. -/
def Field.hasText (f : Field) (paths : ReadPaths) (texts : List String) :
    RelationPath × Predicate :=
  f.target paths fun column =>
    match f.shape with
    | .single => column.amongTexts texts
    | .array => .overlaps column texts

/-- A condition on groups that holds only of those that a user may see: public ones and the user's
own. -/
def visibleGroup (path : RelationPath) (user : Option Int64) (matching : Predicate) : Predicate :=
  let isPublic := Predicate.equals (path.terminalColumn "isPublic") (.bool true)
  let visible :=
    match user with
    | some user => .disj [.equals (path.terminalColumn "userId") (.int user), isPublic]
    | none => isPublic
  .conj [matching, visible]

/-- A condition on the groups of a field that holds only of those that the user may see. -/
def Field.visibleTarget (f : Field) (ctx : RuleContext) (condition : ColumnRef → Predicate) :
    RelationPath × Predicate :=
  f.target ctx.paths fun column =>
    visibleGroup (ctx.paths.get f.path) ctx.user (condition column)

/-! ## The meaning of single texts -/

/-- What a text means by a list of names. -/
def meaning? {α : Type} (names : List (String × α)) (text : String) : Option α :=
  names.lookup (Text.trim text)

/-- Whether a value has a text, blanks around it and the case of ASCII letters aside. -/
def FilterValue.hasName (value : FilterValue) (name : String) : Bool :=
  value.entries.any fun text => Text.sameLetters (Text.trim text) name

/-- The texts between the commas of a text. -/
def splitCommas : List Char → List (List Char)
  | [] => [[]]
  | ',' :: rest => [] :: splitCommas rest
  | c :: rest =>
    match splitCommas rest with
    | first :: others => (c :: first) :: others
    | [] => [[c]]

/-- The parts that a text lists, if all of them are known. -/
def combination? (known : List String) (text : String) : Option (List String) :=
  let parts := (splitCommas text.toList).map fun cs => String.ofList (Text.trimChars cs)
  if parts.all known.contains then some (OrderedSet.ofList parts).toList else none

/-- The results of a function at the texts of a value, unless there are none. -/
def FilterValue.meanings {α : Type} (value : FilterValue) (meaning : String → Option α) :
    Except Rejection (List α) :=
  match value.entries.filterMap meaning with
  | [] => .error (.meaningless value)
  | found => .ok found

/-- The members of a vocabulary among the texts of a value. -/
def Vocabulary.admitted (vocabulary : Vocabulary) (value : FilterValue) :
    Except Rejection (List String) :=
  (value.members vocabulary).mapError (.underVocabulary vocabulary)

/-- The conditions of a field that has one of the texts of a value or, if the value has the text
`unset`, nothing. A value with that text is never rejected. -/
def Field.hasTextOrNothing (f : Field) (ctx : RuleContext) (vocabulary : Vocabulary)
    (unset : String) (value : FilterValue) : Except Rejection (RelationPath × Predicate) :=
  let listed := value.entries.filter fun text => !Text.sameLetters (Text.trim text) unset
  let admitted := vocabulary.admitted (.many listed)
  if value.hasName unset then
    .ok <| f.target ctx.paths fun column =>
      match admitted with
      | .ok texts => .disj [.isNull column, column.amongTexts texts]
      | .error _ => .isNull column
  else
    admitted.map fun texts => f.target ctx.paths fun column => column.amongTexts texts

/-- The conditions on related rows that a filter states, one of which is to be met. -/
def Criterion.targets (ctx : RuleContext) (condition : Condition) (value : FilterValue) :
    Criterion → Except Rejection (List (RelationPath × Predicate))
  | contains fields => do
    let patterns ← (value.patterns ctx.config.escapeWildcards).mapError .ignored
    return fields.map fun f => f.target ctx.paths fun column => column.likeAny patterns
  | integer field => do
    let integers ← value.integers.mapError .ignored
    return [field.target ctx.paths fun column => column.amongInts integers]
  | text field => do
    let texts ← value.exactTexts.mapError .ignored
    return [field.hasText ctx.paths texts]
  | member vocabulary fields => do
    let texts ← (ctx.config.vocabularies.get vocabulary).admitted value
    return fields.map fun f => f.hasText ctx.paths texts
  | memberOrUnset vocabulary unset field => do
    let target ← field.hasTextOrNothing ctx (ctx.config.vocabularies.get vocabulary) unset value
    return [target]
  | date field => do
    let window ← (value.dates condition ctx.config.dateFormat).mapError .ignored
    return [field.target ctx.paths fun column => column.inWindow window]
  | period first last => do
    let window ← (value.dates condition ctx.config.dateFormat).mapError .ignored
    return [first.target ctx.paths fun start => start.periodMeets (last.columnRef ctx.paths) window]
  | groupInteger field => do
    let integers ← value.integers.mapError .ignored
    return [field.visibleTarget ctx fun column => column.amongInts integers]
  | groupText field => do
    let texts ← value.exactTexts.mapError .ignored
    return [field.visibleTarget ctx fun column => column.amongTexts texts]
  | user parts =>
    match ctx.user, parts.filter fun part => value.hasName part.1 with
    | some id, first :: others =>
      .ok ((first :: others).map fun part =>
        part.2.target ctx.paths fun column => .equals column (.int id))
    | _, _ => .error (.meaningless value)
  | combination field parts => do
    let combinations ← value.meanings (combination? parts)
    return [field.target ctx.paths fun column =>
      .disj ((distinct [] combinations).map (Predicate.sameElements column))]
  | flag field flags => do
    let found ← value.meanings (meaning? flags)
    return [field.target ctx.paths fun column =>
      column.amongTexts (OrderedSet.ofList found).toList]

/-- The condition that a filter puts on the rows of its domain. -/
def Rule.apply (ctx : RuleContext) (condition : Condition) (value : FilterValue) :
    Rule → Except Rejection Association
  | related criterion => do
    return existsAlongAny (← criterion.targets ctx condition value) condition.mode
  | count path sizes => do
    let found ← value.meanings (meaning? sizes)
    let counts := found.map fun size => (ctx.paths.get path).countAlong size.1 size.2
    return ⟨.disj (counts.map Association.predicate), []⟩

/-! ## Rules of other types -/

/-- A type whose values may stand as rules: each of them makes of the value of a filter a condition
on the rows of a domain, or rejects it. -/
class Builder (ρ : Type) where
  /-- What a rule makes of the value of a filter. -/
  build : RuleContext → Condition → FilterValue → ρ → Except Rejection Association

instance : Builder Rule := ⟨Rule.apply⟩

/-- Functions that do what a rule does. -/
abbrev BuilderFn : Type := RuleContext → Condition → FilterValue → Except Rejection Association

instance : Builder BuilderFn := ⟨fun ctx condition value build => build ctx condition value⟩

/-- What a rule of the type `Rule` builds is what `Rule.apply` gives. -/
@[simp] theorem Builder.build_rule (ctx : RuleContext) (condition : Condition) (value : FilterValue)
    (rule : Rule) : Builder.build ctx condition value rule = rule.apply ctx condition value := rfl

end RowScope
