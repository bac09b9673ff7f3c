import RowScope.Json.Decode

/-!
# Writing JSON

`Json` is a value to be written: without numbers but the integers, and with the members of objects
in the order in which they are to stand. The text has no space between its parts; in strings the
quote, the backslash and the control characters below the space are escaped, and nothing else.
-/

namespace RowScope

/-- A value to be written. -/
inductive Json where
  | null
  | bool (b : Bool)
  | int (n : Int)
  | str (s : String)
  | arr (items : List Json)
  | obj (members : List (String × Json))

namespace Json

/-- The digit of a number below 16, in lower case. -/
def hexDigit (n : Nat) : Char := Nat.digitChar n

/-- The characters that stand for `c` in a string. -/
def stringChar (c : Char) : List Char :=
  match shortEscapes.lookup c with
  | some letter => ['\\', letter]
  | none =>
    if ' ' ≤ c then [c]
    else ['\\', 'u', '0', '0', hexDigit (c.toNat / 16), hexDigit (c.toNat % 16)]

/-- A string with its quotes. -/
def stringText (s : String) : List Char := '"' :: s.toList.flatMap stringChar ++ ['"']

mutual

/-- The text of a value. -/
def chars : Json → List Char
  | .null => ['n', 'u', 'l', 'l']
  | .bool true => ['t', 'r', 'u', 'e']
  | .bool false => ['f', 'a', 'l', 's', 'e']
  | .int n => Number.intText n
  | .str s => stringText s
  | .arr items => '[' :: itemsChars true items ++ [']']
  | .obj members => '\x7b' :: membersChars true members ++ ['\x7d']

/-- The texts of some items, each but the first after a comma. -/
def itemsChars : Bool → List Json → List Char
  | _, [] => []
  | first, item :: items => (if first then [] else [',']) ++ item.chars ++ itemsChars false items

/-- The texts of some members, each but the first after a comma. -/
def membersChars : Bool → List (String × Json) → List Char
  | _, [] => []
  | first, (key, value) :: members =>
    (if first then [] else [',']) ++ stringText key ++ ':' :: value.chars ++
      membersChars false members

end

/-- The text of a value. -/
def text (j : Json) : String := String.ofList j.chars

/-- An array of strings. -/
def strings (texts : List String) : Json := .arr (texts.map .str)

/-- An integer of 64 bits. -/
def int64 (n : Int64) : Json := .int n.toInt

/-- A natural number. -/
def nat (n : Nat) : Json := .int n

/-- An object with one member. -/
def tagged (name : String) (content : Json) : Json := .obj [(name, content)]

end Json

end RowScope
