import RowScope.Proofs.Filter.Readings
import RowScope.Proofs.Memory.Pattern

/-!
# Free text with literal wildcards

Where wildcards in free text are made literal, the patterns of a value find the texts that contain
one of its texts, in letters of either case (`escaped_patterns_contain`). Each character of the
text, escaped or not, is read back as an element that stands for itself, whatever precedes and
follows it (`patternItems_escaped`), so only the two percent signs around the text are wildcards.
-/

namespace RowScope

/-! ## Elements of escaped texts -/

/-- A character without a meaning of its own stands for itself. -/
theorem patternItems_plain {c : Char} (h : ¬(c = '%' ∨ c = '_' ∨ c = '\\')) (rest : List Char) :
    patternItems (c :: rest) = .literal c :: patternItems rest := by
  obtain ⟨hpercent, hunderscore, hbackslash⟩ : c ≠ '%' ∧ c ≠ '_' ∧ c ≠ '\\' := by
    simpa only [not_or] using h
  rw [patternItems]
  · exact hpercent
  · exact hunderscore
  · exact fun heq _ => hbackslash heq
  · exact fun _ _ heq _ => hbackslash heq

/-- Escaped characters are read back as elements that stand for them. -/
theorem patternItems_escaped (cs rest : List Char) :
    patternItems (cs.flatMap escapedChar ++ rest) =
      cs.map PatternItem.literal ++ patternItems rest := by
  induction cs with
  | nil => rfl
  | cons c cs ih =>
    rw [List.flatMap_cons, List.append_assoc, List.map_cons, List.cons_append, ← ih]
    unfold escapedChar
    split
    · rfl
    · next hplain => exact patternItems_plain hplain _

/-- Literal elements and then any text take the texts that begin with the literal characters. -/
theorem takesAll_literals_anyText {cs text : List Char} :
    TakesAll (cs.map PatternItem.literal ++ [.anyText]) text ↔ cs.map Text.lowerFirst <+: text := by
  induction cs generalizing text with
  | nil => simp [TakesAll, PatternItem.Takes]
  | cons c cs ih =>
    rw [List.map_cons, List.cons_append, takesAll_literal, List.map_cons]
    simp only [ih]
    constructor
    · rintro ⟨rest, rfl, h⟩
      exact (List.prefix_cons_inj _).2 h
    · rintro ⟨rest, rfl⟩
      exact ⟨_, rfl, rest, rfl⟩

/-- The pattern of a text with literal wildcards matches the texts that contain it, NUL aside. -/
theorem matchesPattern_containsPattern (t s : String) :
    matchesPattern t (containsPattern true s) = true ↔
      (stripNul s).toList.map Text.lowerFirst <:+: t.toList.map Text.lowerFirst := by
  have hitems : patternItems (containsPattern true s).toList =
      .anyText :: ((stripNul s).toList.map PatternItem.literal ++ [.anyText]) := by
    rw [containsPattern, String.toList_ofList, patternBody, if_pos rfl, List.cons_append,
      patternItems, patternItems_escaped]
    rfl
  unfold matchesPattern
  rw [matchesItems_iff, hitems, TakesAll]
  simp only [takesAll_literals_anyText, PatternItem.Takes, true_and]
  constructor
  · rintro ⟨before, rest, heq, after, rfl⟩
    exact ⟨before, after, by rw [heq, List.append_assoc]⟩
  · rintro ⟨before, after, heq⟩
    exact ⟨before, _, by rw [← heq, List.append_assoc], after, rfl⟩

/-! ## Patterns of a value -/

/-- The inside of a pattern is empty only if the text has nothing but NUL. -/
theorem patternBody_eq_nil (escapeWildcards : Bool) (s : String) :
    patternBody escapeWildcards s = [] ↔ stripNul s = "" := by
  rw [← String.toList_eq_nil_iff, patternBody]
  cases escapeWildcards with
  | false => exact Iff.rfl
  | true =>
    rw [if_pos rfl]
    cases (stripNul s).toList with
    | nil => exact iff_of_true rfl rfl
    | cons c cs =>
      -- An escaped character takes room.
      rw [List.flatMap_cons, escapedChar]
      split <;> simp

/-- The pattern of a text has nothing inside only if the text has nothing but NUL. -/
theorem containsPattern_eq_empty {escapeWildcards : Bool} {s : String} :
    containsPattern escapeWildcards s = "%%" ↔ stripNul s = "" := by
  rw [← patternBody_eq_nil escapeWildcards, ← String.toList_inj, containsPattern,
    String.toList_ofList]
  show '%' :: patternBody escapeWildcards s ++ ['%'] = ['%'] ++ ['%'] ↔ _
  simp

/-- A text has a pattern unless it consists of blanks and NUL. -/
theorem patternOf_eq_some {escapeWildcards : Bool} {e p : String} :
    patternOf escapeWildcards e = some p ↔
      stripNul (Text.trim e) ≠ "" ∧ containsPattern escapeWildcards (Text.trim e) = p := by
  unfold patternOf trimmed?
  split
  · next hblank =>
    rw [String.isEmpty_iff.1 hblank]
    simp [stripNul]
  · simp [containsPattern_eq_empty]

/-- With literal wildcards a value is taken unless all of its texts consist of blanks and NUL, and a
text then matches one of its patterns exactly if it contains one of the other texts of the value, in
letters of either case. -/
theorem escaped_patterns_contain (value : FilterValue) :
    ((∃ safe, sanitize value (.freeText true) = .ok safe) ↔
      ∃ e ∈ value.entries, stripNul (Text.trim e) ≠ "") ∧
    ∀ safe, sanitize value (.freeText true) = .ok safe → ∃ patterns, safe = .patterns patterns ∧
      ∀ t : String, (∃ p ∈ patterns, matchesPattern t p = true) ↔
        ∃ e ∈ value.entries, stripNul (Text.trim e) ≠ "" ∧
          (stripNul (Text.trim e)).toList.map Text.lowerFirst <:+:
            t.toList.map Text.lowerFirst := by
  have hread := readsEach_patterns true
  have hsafe : ∀ safe, sanitize value (.freeText true) = .ok safe ↔
      ∃ patterns, value.patterns true = .ok patterns ∧ .patterns patterns = safe :=
    fun _ => Traversal.map_eq_ok
  have hpattern : (∃ e ∈ value.entries, ∃ p, patternOf true e = some p) ↔
      ∃ e ∈ value.entries, stripNul (Text.trim e) ≠ "" := by
    simp [patternOf_eq_some]
  constructor
  · rw [← hpattern, ← hread.accepts value]
    constructor
    · rintro ⟨safe, h⟩
      obtain ⟨patterns, hpatterns, -⟩ := (hsafe safe).1 h
      exact ⟨patterns, hpatterns⟩
    · rintro ⟨patterns, hpatterns⟩
      exact ⟨_, (hsafe _).2 ⟨patterns, hpatterns, rfl⟩⟩
  · intro safe h
    obtain ⟨patterns, hpatterns, rfl⟩ := (hsafe safe).1 h
    refine ⟨patterns, rfl, fun t => ?_⟩
    constructor
    · rintro ⟨p, hp, hmatch⟩
      obtain ⟨e, he, hpattern⟩ := (hread.mem hpatterns p).1 hp
      obtain ⟨hne, rfl⟩ := patternOf_eq_some.1 hpattern
      exact ⟨e, he, hne, (matchesPattern_containsPattern t _).1 hmatch⟩
    · rintro ⟨e, he, hne, hcontains⟩
      have hp := (hread.mem hpatterns _).2 ⟨e, he, patternOf_eq_some.2 ⟨hne, rfl⟩⟩
      exact ⟨_, hp, (matchesPattern_containsPattern t _).2 hcontains⟩

/-- A percent sign and a backslash at the end of a text stand for themselves. -/
theorem escaped_patterns_percent :
    sanitize (.many ["50%", " \\ ", " "]) (.freeText true) =
        .ok (.patterns ["%50\\%%", "%\\\\%"]) ∧
      ∀ t : String, (∃ p ∈ ["%50\\%%", "%\\\\%"], matchesPattern t p = true) ↔
        ∃ e ∈ ["50%", " \\ ", " "], stripNul (Text.trim e) ≠ "" ∧
          (stripNul (Text.trim e)).toList.map Text.lowerFirst <:+:
            t.toList.map Text.lowerFirst := by
  have htaken : sanitize (.many ["50%", " \\ ", " "]) (.freeText true) =
      .ok (.patterns ["%50\\%%", "%\\\\%"]) := rfl
  obtain ⟨patterns, hpatterns, hcontain⟩ := (escaped_patterns_contain _).2 _ htaken
  cases hpatterns
  exact ⟨htaken, hcontain⟩

end RowScope
