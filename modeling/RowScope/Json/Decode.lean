import RowScope.Json.Reader

/-!
# Reading typed values

A decoder reads a value of one type from a document, from left to right, and answers with the first
fault it meets. It is given the number of arrays and objects that it may still open, one inside the
other; a text may nest them 127 deep. Members with unknown names are passed over, a record may also
be written as the array of its fields, and an alternative is written as an object with one member,
or as its bare name if it carries no data.
-/

namespace RowScope.Json

/-- Reads a value, opening at most the given number of nested arrays and objects. -/
abbrev Decoder (α : Type) : Type := Nat → Document → Except Fault α

/-- The number of arrays and objects that a text may nest. -/
def nestingLimit : Nat := 127

/-- The value of a text that holds nothing else. -/
def decodeText {α : Type} (decode : Decoder α) (text : String) : Except Fault α := do
  let reading := Reading.ofText text
  let value ← decode nestingLimit reading.document
  if reading.trailing then .error .malformed else .ok value

variable {α β σ : Type}

/-! ## Scalars -/

/-- Reads a string. -/
def decodeString : Decoder String
  | _, .text leaf => leaf.reading
  | _, document => .error document.mismatch

/-- Reads a truth value. -/
def decodeBool : Decoder Bool
  | _, .bool b => .ok b
  | _, document => .error document.mismatch

/-- Reads an integer of 64 bits. -/
def decodeInt64 : Decoder Int64
  | _, .number leaf => do
    match (← leaf.reading).int64? with
    | some n => return n
    | none => .error .unfit
  | _, document => .error document.mismatch

/-- Reads the empty value of an alternative without data. -/
def decodeUnit : Decoder Unit
  | _, .null => .ok ()
  | _, document => .error document.mismatch

/-- Succeeds unless there is a fault. -/
def unlessFault : Option Fault → Except Fault Unit
  | none => .ok ()
  | some fault => .error fault

/-! ## Arrays and maps -/

/-- Reads an array item by item. -/
def decodeList (item : Decoder α) : Decoder (List α)
  | 0, .array _ _ => .error .malformed
  | depth + 1, .array items ending => do
    let values ← items.mapM (item depth)
    unlessFault ending.next?
    return values
  | _, document => .error document.mismatch

/-- Reads an object member by member, each name before its value. -/
def decodeMap (key : String → Except Fault β) (value : Decoder α) : Decoder (List (β × α))
  | 0, .object _ _ => .error .malformed
  | depth + 1, .object members ending => do
    let entries ← members.mapM fun member => do
      let k ← key (← member.key.reading)
      return (k, ← value depth member.value)
    unlessFault ending.next?
    return entries
  | _, document => .error document.mismatch

/-- What one meets who reads any value whatever. -/
def anyFault : Nat → Document → Option Fault
  | _, .null | _, .bool _ => none
  | _, .number leaf => match leaf.reading with | .ok _ => none | .error fault => some fault
  | _, .text leaf => match leaf.reading with | .ok _ => none | .error fault => some fault
  | 0, .array _ _ | 0, .object _ _ => some .malformed
  | depth + 1, .array items ending => (items.findSome? (anyFault depth)).or ending.next?
  | depth + 1, .object members ending =>
    (members.findSome? fun member =>
      match member.key.reading with
      | .error fault => some fault
      | .ok _ => anyFault depth member.value).or ending.next?
  | _, .broken _ fault => some fault

/-! ## Records -/

/-- A field of a record that is read into a state `σ`: its name, and how the state takes its value.
The state remembers which fields have been read. -/
structure Field (σ : Type) where
  /-- The name. -/
  name : String
  /-- Whether the state holds the field already. -/
  isRead : σ → Bool
  /-- Reads the value into the state. -/
  read : Nat → Document → σ → Except Fault σ

/-- The field whose value fills one slot of the state. -/
def Field.slot (name : String) (get : σ → Option α) (set : α → σ → σ) (decode : Decoder α) :
    Field σ :=
  ⟨name, fun s => (get s).isSome, fun depth document s => do return set (← decode depth document) s⟩

/-- Reads the members of a record in the order of the text. A name must not be repeated. -/
def readMembersInto (fields : List (Field σ)) (depth : Nat) : List Member → σ → Except Fault σ
  | [], s => .ok s
  | ⟨key, value⟩ :: members, s => do
    let name ← key.reading
    match fields.find? fun field => field.name == name with
    | none =>
      unlessFault value.skipping
      readMembersInto fields depth members s
    | some field =>
      if field.isRead s then .error .unfit
      else readMembersInto fields depth members (← field.read depth value s)

/-- Reads the items of an array as the fields of a record, in their order. Fields that the array
does not reach stay unread where `short` allows it. -/
def readItemsInto (short : Bool) (ending : Ending) (depth : Nat) :
    List (Field σ) → List Document → σ → Except Fault σ
  | [], [], s => do
    unlessFault ending.last?
    return s
  | [], _ :: _, _ => .error .malformed
  | _ :: _, [], s => do
    unlessFault ending.next?
    if short then return s else .error .unfit
  | field :: fields, item :: items, s => do
    readItemsInto short ending depth fields items (← field.read depth item s)

/-- Reads a record from an object or from the array of its fields, beginning with the state
`start`; `finish` gives the record once everything has been read. -/
def decodeRecord (fields : List (Field σ)) (short : Bool) (start : σ)
    (finish : σ → Except Fault α) : Decoder α
  | 0, .array _ _ | 0, .object _ _ => .error .malformed
  | depth + 1, .object members ending => do
    let s ← readMembersInto fields depth members start
    unlessFault ending.next?
    finish s
  | depth + 1, .array items ending => do
    finish (← readItemsInto short ending depth fields items start)
  | _, document => .error document.mismatch

/-- The value of a field that must have been read. -/
def required : Option α → Except Fault α
  | some value => .ok value
  | none => .error .unfit

/-! ## Alternatives -/

/-- How an alternative of a type is read: from its bare name, if it carries no data, and from the
value under its name. -/
structure Alternative (α : Type) where
  /-- The name. -/
  name : String
  /-- The alternative, if its name is all of it. -/
  bare : Option α
  /-- Reads what stands under the name. -/
  content : Decoder α

/-- The alternative that carries no data. -/
def Alternative.plain (name : String) (value : α) : Alternative α :=
  ⟨name, some value, fun depth document => do
    decodeUnit depth document
    return value⟩

/-- The alternative that carries data. -/
def Alternative.carrying (name : String) (content : Decoder α) : Alternative α :=
  ⟨name, none, content⟩

/-- The alternative of a given name. -/
def findAlternative (alternatives : List (Alternative α)) (name : String) :
    Except Fault (Alternative α) :=
  match alternatives.find? fun a => a.name == name with
  | some a => .ok a
  | none => .error .unfit

/-- Reads one of some alternatives. A text is malformed that has neither a quote nor a brace in the
place of an alternative, even where it has another value there. -/
def decodeAlternative (alternatives : List (Alternative α)) : Decoder α
  | _, .text leaf => do
    required (← findAlternative alternatives (← leaf.reading)).bare
  | 0, .object _ _ => .error .malformed
  | _ + 1, .object [] ending => .error (ending.last?.getD .malformed)
  | depth + 1, .object (⟨key, value⟩ :: others) ending => do
    let alternative ← findAlternative alternatives (← key.reading)
    let found ← alternative.content depth value
    if others.isEmpty then unlessFault ending.last? else .error .malformed
    return found
  | _, .broken none fault => .error fault
  | _, .broken (some _) _ | _, .null | _, .bool _ | _, .number _ | _, .array _ _ =>
    .error .malformed

end RowScope.Json
