import RowScope.Ordered
import RowScope.Text.Blank

/-!
# Filter keys

A filter is named by a key, a topic and a condition with a point between them. A request may write
`[]` after the key, to say that a list of values follows, and blanks around it.
-/

namespace RowScope

/-- The name of a filter. -/
structure FilterKey where
  /-- What the filter is about. -/
  topic : String
  /-- How it compares. -/
  condition : String
deriving DecidableEq, Repr

namespace FilterKey

/-- The topic and the condition. -/
def parts (k : FilterKey) : String × String := (k.topic, k.condition)

/-- A key is determined by its parts. -/
theorem parts_injective (k l : FilterKey) (h : k.parts = l.parts) : k = l := by
  cases k
  cases l
  simp only [parts, Prod.mk.injEq] at h
  obtain ⟨rfl, rfl⟩ := h
  rfl

/-- Keys by topic, then by condition. -/
instance : Ordered FilterKey := Ordered.via parts parts_injective

/-- The text of a key. -/
def text (k : FilterKey) : String := k.topic ++ "." ++ k.condition

/-- The key that some characters write, without blanks around it: a letter, letters and digits, a
point, and one or more letters, all of ASCII, and perhaps `[]`. -/
def ofChars? (cs : List Char) : Option FilterKey :=
  let topic := cs.takeWhile Char.isAlphanum
  match topic, cs.dropWhile Char.isAlphanum with
  | first :: _, '.' :: rest =>
    let condition := rest.takeWhile Char.isAlpha
    let after := rest.dropWhile Char.isAlpha
    if first.isAlpha ∧ condition ≠ [] ∧ (after = [] ∨ after = ['[', ']']) then
      some ⟨String.ofList topic, String.ofList condition⟩
    else none
  | _, _ => none

/-- The key that a text writes. -/
def ofText? (raw : String) : Option FilterKey := ofChars? (Text.trimChars raw.toList)

end FilterKey

end RowScope
