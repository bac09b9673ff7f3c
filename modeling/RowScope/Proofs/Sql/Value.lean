import RowScope.Proofs.Calendar.Date
import RowScope.Proofs.Json.Text
import RowScope.Sql.Json

/-!
# Values in JSON

A value is determined by its JSON text (`Value.text_injective`): the text names the kind, and for
each kind the content is determined by what follows.
-/

namespace RowScope

namespace Json

/-- An object with one member is determined by its text as far as the name and the text of the
content go. -/
theorem tagged_inj {name other : String} {a b : Json}
    (h : (tagged name a).chars = (tagged other b).chars) : name = other ∧ a.chars = b.chars := by
  simp only [tagged, chars, membersChars, if_true, List.nil_append, List.append_nil,
    List.append_assoc, List.cons_append] at h
  obtain ⟨hname, hcontent⟩ := stringText_append_inj (List.cons.inj h).2
  exact ⟨hname, List.append_cancel_right (List.cons.inj hcontent).2⟩

/-- Strings in an array are determined by their texts. -/
theorem itemsChars_inj {first : Bool} {xs ys : List String} {rest more : List Char}
    (h : itemsChars first (xs.map .str) ++ ']' :: rest =
      itemsChars first (ys.map .str) ++ ']' :: more) : xs = ys := by
  -- Where only one of the lists goes on, a comma or a quote would have to be a bracket.
  have ends : ∀ (first : Bool) (y : String) (ys : List String) (r t : List Char),
      ']' :: r ≠ itemsChars first ((y :: ys).map .str) ++ ']' :: t := by
    intro first y ys r t h
    cases first <;> cases h
  induction xs generalizing first ys with
  | nil =>
    cases ys with
    | nil => rfl
    | cons y ys => exact absurd h (ends first y ys _ _)
  | cons x xs ih =>
    cases ys with
    | nil => exact absurd h.symm (ends first x xs _ _)
    | cons y ys =>
      simp only [List.map_cons, itemsChars, chars, List.append_assoc] at h
      obtain ⟨hhere, hrest⟩ := stringText_append_inj (List.append_cancel_left h)
      rw [hhere, ih hrest]

/-- An array of strings is determined by its text. -/
theorem strings_inj {xs ys : List String} (h : (strings xs).chars = (strings ys).chars) :
    xs = ys := by
  simp only [strings, chars, List.cons_append] at h
  exact itemsChars_inj (List.cons.inj h).2

end Json

/-- A value is determined by its JSON text. -/
theorem Value.text_injective {v w : Value} (h : v.toJson.text = w.toJson.text) : v = w := by
  replace h := String.ofList_injective h
  cases v <;> cases w
  case null.null => rfl
  case bool.bool a b =>
    have hcontent := (Json.tagged_inj h).2
    cases a <;> cases b <;> first | rfl | cases hcontent
  case int.int n m => rw [Int64.toInt_inj.1 (Number.intText_injective (Json.tagged_inj h).2)]
  case text.text s t =>
    have hcontent : Json.stringText s ++ [] = Json.stringText t ++ [] :=
      congrArg (· ++ []) (Json.tagged_inj h).2
    rw [(Json.stringText_append_inj hcontent).1]
  case date.date d e =>
    have hcontent : Json.stringText d.text ++ [] = Json.stringText e.text ++ [] :=
      congrArg (· ++ []) (Json.tagged_inj h).2
    rw [Calendar.Date.text_injective (Json.stringText_append_inj hcontent).1]
  case textArray.textArray xs ys => rw [Json.strings_inj (Json.tagged_inj h).2]
  -- Values of two kinds differ in the name of the kind, or in the first character.
  all_goals first | exact absurd (Json.tagged_inj h).1 (by decide) | cases h

end RowScope
