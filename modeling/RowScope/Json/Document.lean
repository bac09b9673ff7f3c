import RowScope.Json.Number

/-!
# Documents

A `Document` is what a text that ought to be JSON turns out to hold. It covers the text up to the
place where the text stops being JSON, if there is one, so a reader of typed values walks through it
from left to right and meets the first thing that is wrong, be it the kind of a value or the text
itself. Two readers may disagree about a string or a number: one that only passes over it is content
with half a surrogate pair, or a number out of range, where one that wants the value is not.
-/

namespace RowScope.Json

/-- What is wrong with a text, for one who reads a value from it. -/
inductive Fault where
  /-- The text ends too early. -/
  | ended
  /-- The text is not JSON. -/
  | malformed
  /-- A value is not of the kind that is wanted in its place. -/
  | unfit
  /-- A value is refused for a stated reason. -/
  | refused (reason : String)
deriving DecidableEq, Repr

/-- The kind of a fault: of the text as JSON, or of what it holds as data. -/
def Fault.category : Fault → String
  | ended => "eof"
  | malformed => "syntax"
  | unfit | refused _ => "data"

/-- The description of a fault. -/
def Fault.message : Fault → String
  | ended => "the text ends too early"
  | malformed => "the text is not JSON"
  | unfit => "a value is not of the kind wanted in its place"
  | refused reason => reason

/-- A string or a number, for one who reads it and for one who passes over it. -/
structure Leaf (α : Type) where
  /-- The value, or what keeps one from reading it. -/
  reading : Except Fault α
  /-- What keeps one from passing over it; nothing follows it then. -/
  skipping : Option Fault

/-- How an array or an object ends. -/
inductive Ending where
  /-- With its closing bracket. -/
  | closed
  /-- Not at all: `next` is met by one who goes on to a further entry, `last` by one who wants the
  closing bracket there. -/
  | broken (next last : Fault)

mutual

/-- What a text holds. -/
inductive Document where
  | null
  | bool (value : Bool)
  | number (leaf : Leaf Number)
  | text (leaf : Leaf String)
  | array (items : List Document) (ending : Ending)
  | object (members : List Member) (ending : Ending)
  /-- The text stops being JSON in this value, whose first character is `first`, or before the value
  begins. -/
  | broken (first : Option Char) (fault : Fault)

/-- A name and the value under it. -/
structure Member where
  /-- The name. -/
  key : Leaf String
  /-- The value; broken if no colon follows the name. -/
  value : Document

end

/-- What one meets who wants a value of another kind. -/
def Document.mismatch : Document → Fault
  | .number leaf => match leaf.reading with | .ok _ => .unfit | .error fault => fault
  | .text leaf => match leaf.reading with | .ok _ => .unfit | .error fault => fault
  | .broken _ fault => fault
  | .null | .bool _ | .array _ _ | .object _ _ => .unfit

/-- What one meets who wants a further entry. -/
def Ending.next? : Ending → Option Fault
  | .closed => none
  | .broken next _ => some next

/-- What one meets who wants the closing bracket. -/
def Ending.last? : Ending → Option Fault
  | .closed => none
  | .broken _ last => some last

/-! ## Passing over values -/

mutual

/-- What one meets who passes over a value. -/
def Document.skipping : Document → Option Fault
  | .number leaf => leaf.skipping
  | .text leaf => leaf.skipping
  | .array items ending => (skippingItems items).or ending.next?
  | .object members ending => (skippingMembers members).or ending.next?
  | .broken _ fault => some fault
  | .null | .bool _ => none

/-- What one meets who passes over the items of an array. -/
def skippingItems : List Document → Option Fault
  | [] => none
  | item :: items => item.skipping.or (skippingItems items)

/-- What one meets who passes over the members of an object. -/
def skippingMembers : List Member → Option Fault
  | [] => none
  | ⟨key, value⟩ :: members => (key.skipping.or value.skipping).or (skippingMembers members)

end

end RowScope.Json
