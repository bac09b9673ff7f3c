import Mathlib.Data.Bool.AllAny
import RowScope.Filter.Key
import RowScope.Proofs.Text.Letters

/-!
# The spellings of a filter key

The topic of a key is a letter with letters and digits behind it, and its condition is one or more
letters (`FilterKey.WellFormed`). A spelling of the key is its topic, a point and its condition,
then a pair of brackets or nothing, and blanks around the whole. The reader takes the longest run of
letters and digits for the topic and the longest run of letters after the point for the condition.
That finds the parts of every spelling, since the point ends the first run and a bracket the second
(`takeWhile_append_stop`). So a text spells one key at most, and a key is read from its spellings
and from nothing else (`FilterKey.ofText?_reads_spellings`).
-/

namespace RowScope

open Text (IsLetter IsDigit isAlpha_iff isAlphanum_iff)

/-- The longest run of a class at the front of a text ends at a character outside of the class. -/
theorem takeWhile_append_stop {p : Char → Bool} {run rest : List Char}
    (hrun : ∀ c ∈ run, p c = true) (hrest : ∀ c ∈ rest.head?, p c = false) :
    (run ++ rest).takeWhile p = run ∧ (run ++ rest).dropWhile p = rest := by
  rw [List.takeWhile_append_of_pos hrun, List.dropWhile_append_of_pos hrun]
  cases rest with
  | nil => simp
  | cons c rest =>
    have hc : p c = false := hrest c rfl
    simp [hc]

namespace FilterKey

/-! ## Well-formed keys -/

/-- The keys that a request can name. -/
structure WellFormed (key : FilterKey) : Prop where
  /-- The topic is a letter with letters and digits behind it. -/
  topic : ∃ first rest, key.topic.toList = first :: rest ∧ IsLetter first ∧
    ∀ c ∈ rest, IsLetter c ∨ IsDigit c
  /-- The condition is not empty. -/
  condition_ne : key.condition ≠ ""
  /-- The condition has letters only. -/
  condition : ∀ c ∈ key.condition.toList, IsLetter c

/-- What may stand after a key. -/
def endings : List String := ["", "[]"]

variable {key k l : FilterKey} {cs : List Char} {ending raw : String}

/-- The topic has letters and digits only. -/
theorem WellFormed.topic_class (h : key.WellFormed) :
    ∀ c ∈ key.topic.toList, c.isAlphanum = true := by
  obtain ⟨first, rest, htopic, hfirst, hrest⟩ := h.topic
  intro c hc
  rw [htopic] at hc
  rcases List.mem_cons.1 hc with rfl | hc
  · exact isAlphanum_iff.2 (.inl hfirst)
  · exact isAlphanum_iff.2 (hrest c hc)

/-- The characters of a key with its ending. -/
theorem toList_text_append (key : FilterKey) (ending : String) :
    (key.text ++ ending).toList =
      key.topic.toList ++ '.' :: (key.condition.toList ++ ending.toList) := by
  simp [text, String.toList_append]

/-- An ending starts with no letter. -/
theorem isAlpha_head_ending (h : ending ∈ endings) :
    ∀ c ∈ ending.toList.head?, c.isAlpha = false := by
  simp only [endings, List.mem_cons, List.not_mem_nil, or_false] at h
  rcases h with rfl | rfl
  · rintro c ⟨⟩
  · rintro c ⟨⟩
    rfl

/-- The parts of a key are read from the key with its ending. -/
theorem ofChars?_text_append (h : key.WellFormed) (hending : ending ∈ endings) :
    ofChars? (key.text ++ ending).toList = some key := by
  obtain ⟨first, rest, htopic, hfirst, hrest⟩ := h.topic
  have hpoint : ∀ c ∈ ('.' :: (key.condition.toList ++ ending.toList)).head?,
      c.isAlphanum = false := by
    rintro c ⟨⟩
    rfl
  obtain ⟨htake, hdrop⟩ := takeWhile_append_stop h.topic_class hpoint
  obtain ⟨htake', hdrop'⟩ := takeWhile_append_stop
    (fun c hc => isAlpha_iff.2 (h.condition c hc)) (isAlpha_head_ending hending)
  have hafter : ending.toList = [] ∨ ending.toList = ['[', ']'] := by
    simp only [endings, List.mem_cons, List.not_mem_nil, or_false] at hending
    rcases hending with rfl | rfl
    · exact .inl rfl
    · exact .inr rfl
  have hcondition : key.condition.toList ≠ [] := fun hnil =>
    h.condition_ne (String.toList_eq_nil_iff.1 hnil)
  rw [toList_text_append, ofChars?, htake, hdrop, htopic]
  simp only [htake', hdrop']
  rw [if_pos ⟨isAlpha_iff.2 hfirst, hcondition, hafter⟩, ← htopic, String.ofList_toList,
    String.ofList_toList]

/-- What a key is read from is the key with an ending. -/
theorem ofChars?_eq_some_iff : ofChars? cs = some key ↔
    key.WellFormed ∧ ∃ ending ∈ endings, cs = (key.text ++ ending).toList := by
  constructor
  · intro h
    unfold ofChars? at h
    simp only at h
    split at h
    case h_2 => cases h
    next first more rest htopic hpoint =>
      split at h
      case isFalse => cases h
      next hparts =>
        obtain ⟨hfirst, hcondition, hafter⟩ := hparts
        cases h
        have hrun : ∀ c ∈ first :: more, c.isAlphanum = true := by
          intro c hc
          rw [← htopic] at hc
          exact List.mem_takeWhile_imp hc
        have hcs : cs = (first :: more) ++ '.' :: rest := by
          rw [← htopic, ← hpoint, List.takeWhile_append_dropWhile]
        refine ⟨⟨⟨first, more, ?_, isAlpha_iff.1 hfirst, ?_⟩, ?_, ?_⟩, ?_⟩
        · rw [htopic, String.toList_ofList]
        · exact fun c hc => isAlphanum_iff.1 (hrun c (List.mem_cons_of_mem first hc))
        · exact fun hnil => hcondition (String.ofList_eq_empty_iff.1 hnil)
        · intro c hc
          rw [String.toList_ofList] at hc
          exact isAlpha_iff.1 (List.mem_takeWhile_imp hc)
        · refine ⟨String.ofList (rest.dropWhile Char.isAlpha), ?_, ?_⟩
          · rcases hafter with hafter | hafter <;> rw [hafter] <;> decide
          · rw [toList_text_append, String.toList_ofList, String.toList_ofList,
              String.toList_ofList, List.takeWhile_append_dropWhile, htopic]
            exact hcs
  · rintro ⟨h, ending, hending, rfl⟩
    exact ofChars?_text_append h hending

/-- A key with its ending tells the key and the ending. -/
theorem text_append_inj {e f : String} (hk : k.WellFormed) (hl : l.WellFormed) (he : e ∈ endings)
    (hf : f ∈ endings) (h : k.text ++ e = l.text ++ f) : k = l ∧ e = f := by
  have hread : some k = some l := by
    rw [← ofChars?_text_append hk he, ← ofChars?_text_append hl hf, h]
  cases hread
  have hchars := congrArg String.toList h
  rw [String.toList_append, String.toList_append, List.append_cancel_left_eq] at hchars
  exact ⟨rfl, String.toList_inj.1 hchars⟩

/-- A key with its ending has no blanks. -/
theorem isBlank_text_append (h : key.WellFormed) (hending : ending ∈ endings) :
    ∀ c ∈ (key.text ++ ending).toList, Text.isBlank c = false := by
  have hbrackets : ∀ ending ∈ endings, (ending.toList.all fun c => !Text.isBlank c) = true := by
    decide
  intro c hc
  rw [toList_text_append, List.mem_append, List.mem_cons, List.mem_append] at hc
  rcases hc with hc | rfl | hc | hc
  · exact Text.isBlank_of_isAlphanum (isAlphanum_iff.1 (h.topic_class c hc))
  · rfl
  · exact Text.isBlank_of_isAlphanum (.inl (h.condition c hc))
  · simpa using List.all_eq_true.1 (hbrackets ending hending) c hc

/-! ## The reader -/

/-- Blanks around a key with its ending do not count. -/
theorem ofText?_margins (h : key.WellFormed) (hending : ending ∈ endings) {front back : String}
    (hfront : ∀ c ∈ front.toList, Text.isBlank c = true)
    (hback : ∀ c ∈ back.toList, Text.isBlank c = true) :
    ofText? (front ++ (key.text ++ ending) ++ back) = some key := by
  have hbare : Text.trimChars (key.text ++ ending).toList = (key.text ++ ending).toList :=
    Text.trimChars_eq_self_iff.2 (Text.bareEnds_of_forall (isBlank_text_append h hending))
  rw [ofText?, String.toList_append, String.toList_append, Text.trimChars_margins hfront hback,
    hbare]
  exact ofChars?_text_append h hending

/-- A key is read from its spellings. -/
theorem ofText?_eq_some_iff : ofText? raw = some key ↔ key.WellFormed ∧
    ∃ ending ∈ endings, Text.trim raw = key.topic ++ "." ++ key.condition ++ ending := by
  have htrim : ∀ ending : String, Text.trimChars raw.toList = (key.text ++ ending).toList ↔
      Text.trim raw = key.topic ++ "." ++ key.condition ++ ending := by
    intro ending
    rw [← String.toList_inj, Text.trim, String.toList_ofList, text]
  rw [ofText?, ofChars?_eq_some_iff]
  simp only [htrim]

/-- A key is read from a text exactly if the text is one of its spellings: the topic, a point and
the condition, perhaps with a pair of brackets behind them, and blanks around the whole. A text
spells one key at most, and in one way. The text of a key that was read, with or without brackets
and with any blanks around, reads as that key again, and two keys that were read have the same text
only if they are the same. -/
theorem ofText?_reads_spellings :
    (∀ (raw : String) (key : FilterKey), ofText? raw = some key ↔ key.WellFormed ∧
      ∃ ending ∈ endings, Text.trim raw = key.topic ++ "." ++ key.condition ++ ending) ∧
    (∀ k l : FilterKey, k.WellFormed → l.WellFormed → ∀ e ∈ endings, ∀ f ∈ endings,
      k.topic ++ "." ++ k.condition ++ e = l.topic ++ "." ++ l.condition ++ f → k = l ∧ e = f) ∧
    (∀ (raw : String) (key : FilterKey), ofText? raw = some key →
      ∀ ending ∈ endings, ∀ front back : String,
        (∀ c ∈ front.toList, Text.isBlank c = true) → (∀ c ∈ back.toList, Text.isBlank c = true) →
        ofText? (front ++ (key.text ++ ending) ++ back) = some key) ∧
    ∀ (rawK rawL : String) (k l : FilterKey), ofText? rawK = some k → ofText? rawL = some l →
      k ≠ l → k.text ≠ l.text := by
  refine ⟨fun raw key => ofText?_eq_some_iff, ?_, ?_, ?_⟩
  · intro k l hk hl e he f hf h
    exact text_append_inj hk hl he hf h
  · intro raw key h ending hending front back hfront hback
    exact ofText?_margins (ofText?_eq_some_iff.1 h).1 hending hfront hback
  · intro rawK rawL k l hk hl hne htext
    have hwellK := (ofText?_eq_some_iff.1 hk).1
    have hwellL := (ofText?_eq_some_iff.1 hl).1
    have hempty : "" ∈ endings := by decide
    exact hne (text_append_inj hwellK hwellL hempty hempty (by rw [htext])).1

/-- The key of a text with brackets and with blanks of several kinds around. It reads again with
other blanks, and its text is not that of another key. -/
theorem ofText?_paddedRegion :
    let region : FilterKey := ⟨"region", "in"⟩
    let role : FilterKey := ⟨"role", "nin"⟩
    (∀ ending ∈ endings, Text.trim "\u2003region.in[]\n" = "region.in[]" ∧
      ofText? ("\u00a0" ++ (region.text ++ ending) ++ " \t") = some region) ∧
    ofText? "\u2003region.in[]\n" = some region ∧ ofText? "role.nin" = some role ∧
    region.text ≠ role.text := by
  intro region role
  obtain ⟨hread, -, hagain, hdistinct⟩ := ofText?_reads_spellings
  have hwell : region.WellFormed :=
    ⟨⟨'r', "egion".toList, by decide, by decide, List.all_iff_forall_prop.1 (by decide)⟩,
      by decide, List.all_iff_forall_prop.1 (by decide)⟩
  have hwell' : role.WellFormed :=
    ⟨⟨'r', "ole".toList, by decide, by decide, List.all_iff_forall_prop.1 (by decide)⟩,
      by decide, List.all_iff_forall_prop.1 (by decide)⟩
  have htrim : Text.trim "\u2003region.in[]\n" = "region.in[]" := by decide
  have hregion : ofText? "\u2003region.in[]\n" = some region :=
    (hread _ _).2 ⟨hwell, "[]", by decide, htrim⟩
  have hrole : ofText? "role.nin" = some role := (hread _ _).2 ⟨hwell', "", by decide, by decide⟩
  refine ⟨fun ending hending => ⟨htrim, ?_⟩, hregion, hrole, ?_⟩
  · exact hagain _ _ hregion ending hending _ _ (List.all_eq_true.1 (by decide))
      (List.all_eq_true.1 (by decide))
  · exact hdistinct _ _ _ _ hregion hrole (by decide)

end FilterKey

end RowScope
