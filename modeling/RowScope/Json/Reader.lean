import RowScope.Json.Scan

/-!
# Reading a text

`Reading.ofText` finds the document of a text. Every character that opens or separates something
costs at most two steps, so twice the length of the text bounds the nesting of the calls.
-/

namespace RowScope.Json

/-- A document, and the characters that follow it if the text is JSON up to there. -/
abbrev Found (α : Type) : Type := α × Option (List Char)

/-- A word of the language, given by its first character and the others, as a document. -/
def foundWord (first : Char) (others : List Char) (document : Document) (cs : List Char) :
    Found Document :=
  match scanWord others cs with
  | .ok rest => (document, some rest)
  | .error fault => (.broken (some first) fault, none)

/-- The end of a container whose entries do not go on. -/
def stopped (next last : Fault) : Ending := .broken next last

mutual

/-- The value at the beginning of some characters. -/
def readValue : Nat → List Char → Found Document
  | 0, _ => (.broken none .ended, none)
  | steps + 1, cs =>
    match dropSpace cs with
    | [] => (.broken none .ended, none)
    | c :: cs =>
      if c = 'n' then foundWord 'n' ['u', 'l', 'l'] .null cs
      else if c = 't' then foundWord 't' ['r', 'u', 'e'] (.bool true) cs
      else if c = 'f' then foundWord 'f' ['a', 'l', 's', 'e'] (.bool false) cs
      else if c = '"' then
        let found := scanString cs
        (.text found.1, found.2)
      else if c = '-' ∨ c.isDigit then
        let found := scanNumber (c :: cs)
        (.number found.1, found.2)
      else if c = '[' then
        match dropSpace cs with
        | [] => (.array [] (stopped .ended .ended), none)
        | ']' :: cs => (.array [] .closed, some cs)
        | cs =>
          let found := readItems steps cs
          (.array found.1.1 found.1.2, found.2)
      else if c = '\x7b' then
        match dropSpace cs with
        | [] => (.object [] (stopped .ended .ended), none)
        | '\x7d' :: cs => (.object [] .closed, some cs)
        | '"' :: cs =>
          let found := readMembers steps cs
          (.object found.1.1 found.1.2, found.2)
        | _ => (.object [] (stopped .malformed .malformed), none)
      else (.broken (some c) .malformed, none)

/-- The items of an array from the first one on. -/
def readItems : Nat → List Char → Found (List Document × Ending)
  | 0, _ => (([], stopped .ended .ended), none)
  | steps + 1, cs =>
    let item := readValue steps cs
    match item.2 with
    | none => (([item.1], stopped .malformed .malformed), none)
    | some cs =>
      match dropSpace cs with
      | [] => (([item.1], stopped .ended .ended), none)
      | ']' :: cs => (([item.1], .closed), some cs)
      | ',' :: cs =>
        match dropSpace cs with
        | [] => (([item.1], stopped .ended .malformed), none)
        | ']' :: _ => (([item.1], stopped .malformed .malformed), none)
        | cs =>
          let items := readItems steps cs
          ((item.1 :: items.1.1, items.1.2), items.2)
      | _ => (([item.1], stopped .malformed .malformed), none)

/-- The members of an object from the first one on, whose opening quote has been read. -/
def readMembers : Nat → List Char → Found (List Member × Ending)
  | 0, _ => (([], stopped .ended .ended), none)
  | steps + 1, cs =>
    let key := scanString cs
    let value : Found Document :=
      match key.2 with
      | none => (.broken none .malformed, none)
      | some cs =>
        match dropSpace cs with
        | [] => (.broken none .ended, none)
        | ':' :: cs => readValue steps cs
        | _ => (.broken none .malformed, none)
    let member : Member := ⟨key.1, value.1⟩
    match value.2 with
    | none => (([member], stopped .malformed .malformed), none)
    | some cs =>
      match dropSpace cs with
      | [] => (([member], stopped .ended .ended), none)
      | '\x7d' :: cs => (([member], .closed), some cs)
      | ',' :: cs =>
        match dropSpace cs with
        | [] => (([member], stopped .ended .malformed), none)
        | '"' :: cs =>
          let members := readMembers steps cs
          ((member :: members.1.1, members.1.2), members.2)
        | _ => (([member], stopped .malformed .malformed), none)
      | _ => (([member], stopped .malformed .malformed), none)

end

/-- A text as its document and whatever follows it. -/
structure Reading where
  /-- The document at the beginning of the text. -/
  document : Document
  /-- Whether something other than space follows the document. -/
  trailing : Bool

/-- The reading of a text. -/
def Reading.ofText (text : String) : Reading :=
  let cs := text.toList
  let found := readValue (2 * cs.length + 2) cs
  ⟨found.1, !(dropSpace (found.2.getD [])).isEmpty⟩

end RowScope.Json
