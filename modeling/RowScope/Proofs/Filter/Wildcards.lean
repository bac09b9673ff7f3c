import RowScope.Proofs.Filter.FreeText

/-!
# Free text with live wildcards

Where wildcards in free text keep their meaning, the pattern of a text is that text between two
percent signs. It finds the texts with a part that the text matches as a pattern of its own, unless
the text ends in an odd number of backslashes: then the last of them makes the closing percent sign
stand for itself, and what is found are the texts that end in a percent sign after such a part
(`unescaped_pattern_contains`). The elements of two patterns put together are those of the one and
then those of the other, as long as no backslash is left open at the seam (`patternItems_append`).
-/

namespace RowScope

/-! ## Pieces taken one after the other -/

/-- Elements and then others take a text that falls into a piece for the ones and a piece for the
others. -/
theorem takesAll_append {items others : List PatternItem} {text : List Char} :
    TakesAll (items ++ others) text ↔
      ∃ before after, text = before ++ after ∧ TakesAll items before ∧ TakesAll others after := by
  induction items generalizing text with
  | nil =>
    constructor
    · exact fun h => ⟨[], text, rfl, rfl, h⟩
    · rintro ⟨_, after, rfl, rfl, h⟩
      exact h
  | cons item items ih =>
    simp only [List.cons_append, TakesAll, ih]
    constructor
    · rintro ⟨piece, _, rfl, hpiece, before, after, rfl, hbefore, hafter⟩
      exact ⟨piece ++ before, after, by simp, ⟨piece, before, rfl, hpiece, hbefore⟩, hafter⟩
    · rintro ⟨_, after, rfl, ⟨piece, before, rfl, hpiece, hbefore⟩, hafter⟩
      exact ⟨piece, before ++ after, by simp, hpiece, before, after, rfl, hbefore, hafter⟩

/-- Elements of a pattern take a text as a whole, in letters of either case. -/
def FitsItems (items : List PatternItem) (text : String) : Prop :=
  TakesAll items (text.toList.map Text.lowerFirst)

/-- A text matches a pattern if it fits its elements. -/
theorem matchesPattern_iff_fitsItems {text pattern : String} :
    matchesPattern text pattern = true ↔ FitsItems (patternItems pattern.toList) text :=
  matchesItems_iff _ _

/-- A text fits elements and then others if it falls into a part that fits the ones and a part that
fits the others. -/
theorem fitsItems_append {items others : List PatternItem} {t : String} :
    FitsItems (items ++ others) t ↔
      ∃ a b : String, t = a ++ b ∧ FitsItems items a ∧ FitsItems others b := by
  unfold FitsItems
  rw [takesAll_append]
  constructor
  · rintro ⟨before, after, heq, hbefore, hafter⟩
    obtain ⟨as, bs, hchars, rfl, rfl⟩ := List.map_eq_append_iff.1 heq
    refine ⟨String.ofList as, String.ofList bs, ?_, ?_, ?_⟩
    · rw [← String.ofList_append, ← hchars, String.ofList_toList]
    · rwa [String.toList_ofList]
    · rwa [String.toList_ofList]
  · rintro ⟨a, b, rfl, ha, hb⟩
    exact ⟨_, _, by rw [String.toList_append, List.map_append], ha, hb⟩

/-- Every text fits an element that takes any text. -/
theorem fitsItems_anyText (t : String) : FitsItems [.anyText] t :=
  ⟨t.toList.map Text.lowerFirst, [], (List.append_nil _).symm, trivial, rfl⟩

/-- Some text fits given elements. -/
theorem exists_fitsItems (items : List PatternItem) : ∃ t : String, FitsItems items t := by
  induction items with
  | nil => exact ⟨"", rfl⟩
  | cons item items ih =>
    obtain ⟨t, ht⟩ := ih
    have hitem : ∃ s : String, FitsItems [item] s := by
      cases item with
      | anyText => exact ⟨"", fitsItems_anyText ""⟩
      | anyChar => exact ⟨"a", ['a'], [], rfl, ⟨'a', rfl⟩, rfl⟩
      | literal c => exact ⟨String.singleton c, takesAll_literal.2 ⟨[], by simp, rfl⟩⟩
    obtain ⟨s, hs⟩ := hitem
    exact ⟨s ++ t, fitsItems_append.2 ⟨s, t, rfl, hs, ht⟩⟩

/-! ## Open backslashes -/

/-- The number of backslashes at the end of a text. -/
def trailingBackslashes (cs : List Char) : Nat := (cs.reverse.takeWhile (· == '\\')).length

/-- Whether the last backslash at the end of a text has no character behind it that it makes stand
for itself: every other one does so for the next. -/
def EndsOpen (cs : List Char) : Prop := trailingBackslashes cs % 2 = 1

instance (cs : List Char) : Decidable (EndsOpen cs) := inferInstanceAs (Decidable (_ = _))

/-- A character in front counts only if all characters are backslashes. -/
theorem trailingBackslashes_cons (c : Char) (cs : List Char) :
    trailingBackslashes (c :: cs) =
      if trailingBackslashes cs = cs.length ∧ c = '\\' then cs.length + 1
      else trailingBackslashes cs := by
  unfold trailingBackslashes
  rw [List.reverse_cons, List.takeWhile_append, List.length_reverse]
  by_cases hall : (cs.reverse.takeWhile (· == '\\')).length = cs.length
  · by_cases hc : c = '\\' <;> simp [hall, hc]
  · simp [hall]

/-- A backslash at the end is counted. -/
theorem trailingBackslashes_concat (cs : List Char) :
    trailingBackslashes (cs ++ ['\\']) = trailingBackslashes cs + 1 := by
  simp [trailingBackslashes]

/-- A text with backslashes at its end ends in a backslash. -/
theorem exists_concat_of_trailingBackslashes {cs : List Char} (h : trailingBackslashes cs ≠ 0) :
    ∃ front, cs = front ++ ['\\'] := by
  rcases List.eq_nil_or_concat cs with rfl | ⟨front, c, rfl⟩
  · exact absurd rfl h
  · by_cases hc : c = '\\'
    · exact ⟨front, by rw [hc, List.concat_eq_append]⟩
    · simp [trailingBackslashes, hc] at h

/-- A character in front that is not a backslash opens nothing. -/
theorem endsOpen_cons_of_ne {c : Char} (h : c ≠ '\\') (cs : List Char) :
    EndsOpen (c :: cs) ↔ EndsOpen cs := by
  unfold EndsOpen
  rw [trailingBackslashes_cons, if_neg fun hc => h hc.2]

/-- A backslash in front is spent on the character behind it. -/
theorem endsOpen_escaped (c : Char) (cs : List Char) :
    EndsOpen ('\\' :: c :: cs) ↔ EndsOpen cs := by
  have hle : trailingBackslashes cs ≤ cs.length := by
    unfold trailingBackslashes
    exact Nat.le_trans (List.takeWhile_prefix _).length_le (Nat.le_of_eq List.length_reverse)
  unfold EndsOpen
  rw [trailingBackslashes_cons, trailingBackslashes_cons, List.length_cons]
  by_cases hall : trailingBackslashes cs = cs.length ∧ c = '\\'
  · rw [if_pos hall, if_pos ⟨rfl, rfl⟩, hall.1]
    omega
  · rw [if_neg hall, if_neg fun h => by omega]

/-- A text with an open backslash is one without, and the backslash. -/
theorem endsOpen_iff {cs : List Char} :
    EndsOpen cs ↔ ∃ front, cs = front ++ ['\\'] ∧ ¬EndsOpen front := by
  unfold EndsOpen
  constructor
  · intro hopen
    have hsome : trailingBackslashes cs ≠ 0 := by omega
    obtain ⟨front, rfl⟩ := exists_concat_of_trailingBackslashes hsome
    rw [trailingBackslashes_concat] at hopen
    exact ⟨front, rfl, by omega⟩
  · rintro ⟨front, rfl, hclosed⟩
    rw [trailingBackslashes_concat]
    omega

/-- Behind a pattern without an open backslash a further one is read as it is on its own. -/
theorem patternItems_append {cs : List Char} (h : ¬EndsOpen cs) (rest : List Char) :
    patternItems (cs ++ rest) = patternItems cs ++ patternItems rest := by
  induction cs using patternItems.induct with
  | case1 => rfl
  | case2 cs ih =>
    rw [endsOpen_cons_of_ne (by decide)] at h
    rw [List.cons_append, patternItems, patternItems, ih h, List.cons_append]
  | case3 cs ih =>
    rw [endsOpen_cons_of_ne (by decide)] at h
    rw [List.cons_append, patternItems, patternItems, ih h, List.cons_append]
  | case4 => exact absurd (by decide) h
  | case5 c cs ih =>
    rw [endsOpen_escaped] at h
    rw [List.cons_append, List.cons_append, patternItems, patternItems, ih h, List.cons_append]
  | case6 c cs hpercent hunderscore hlone hescape ih =>
    have hbackslash : c ≠ '\\' := ne_backslash_of_unread hlone hescape
    have hplain : ¬(c = '%' ∨ c = '_' ∨ c = '\\') := by
      rintro (rfl | rfl | rfl)
      · exact hpercent rfl
      · exact hunderscore rfl
      · exact hbackslash rfl
    rw [endsOpen_cons_of_ne hbackslash] at h
    rw [List.cons_append, patternItems_plain hplain, patternItems_plain hplain, ih h,
      List.cons_append]

/-! ## The percent sign -/

/-- The percent sign stands before the character 97. -/
theorem ofNat_ne_percent {n : Nat} (h : 97 ≤ n) : Char.ofNat n ≠ '%' := by
  intro heq
  by_cases hvalid : n.isValidChar
  · rw [Char.ofNat, dif_pos hvalid] at heq
    have hcode : n = 37 := congrArg Char.toNat heq
    omega
  · rw [Char.ofNat, dif_neg hvalid] at heq
    exact absurd heq (by decide)

/-- Only the percent sign is a percent sign in lower case. -/
theorem lowerFirst_eq_percent {c : Char} : Text.lowerFirst c = '%' ↔ c = '%' := by
  constructor
  · intro h
    unfold Text.lowerFirst at h
    split at h
    · next run hrun =>
      -- A run of letters leads to lower-case letters, which begin at the character 97.
      have hletter : ∀ run ∈ Text.lowercaseRuns, 97 ≤ run.first + run.offset := by
        decide +kernel
      have hfirst := hletter run (List.mem_of_find?_eq_some hrun)
      have hholds : run.holds c.toNat = true := by simpa using List.find?_some hrun
      simp only [Text.LowercaseRun.holds, Bool.and_eq_true, decide_eq_true_eq] at hholds
      exact absurd h (ofNat_ne_percent (by omega))
    · exact h
  · rintro rfl
    decide

/-- Only the percent sign fits an element that stands for it. -/
theorem fitsItems_percent {t : String} : FitsItems [.literal '%'] t ↔ t = "%" := by
  unfold FitsItems
  rw [takesAll_literal]
  constructor
  · rintro ⟨rest, heq, rfl⟩
    obtain ⟨c, hchars, hc⟩ := List.map_eq_singleton_iff.1 heq
    rw [lowerFirst_eq_percent.2 rfl, lowerFirst_eq_percent] at hc
    rw [← String.toList_inj, hchars, hc]
    rfl
  · rintro rfl
    exact ⟨[], rfl, rfl⟩

/-! ## Parts that match -/

/-- The elements of the pattern of a text without NUL. -/
theorem patternItems_containsPattern {e : String} (hnul : '\x00' ∉ e.toList) :
    patternItems (containsPattern false e).toList =
      [.anyText] ++ patternItems (e.toList ++ ['%']) := by
  rw [containsPattern, String.toList_ofList, patternBody, stripNul_eq_self hnul]
  rfl

/-- The pattern of a text without an open backslash finds the texts with a part that matches the
text. -/
theorem matchesPattern_unescaped {e : String} (hnul : '\x00' ∉ e.toList)
    (hclosed : ¬EndsOpen e.toList) (t : String) :
    matchesPattern t (containsPattern false e) = true ↔
      ∃ a b c : String, t = a ++ b ++ c ∧ matchesPattern b e = true := by
  have hitems : patternItems (containsPattern false e).toList =
      [.anyText] ++ patternItems e.toList ++ [.anyText] := by
    rw [patternItems_containsPattern hnul, patternItems_append hclosed, List.append_assoc]
    rfl
  simp only [matchesPattern_iff_fitsItems, hitems, fitsItems_append]
  constructor
  · rintro ⟨_, c, rfl, ⟨a, b, rfl, -, hb⟩, -⟩
    exact ⟨a, b, c, rfl, hb⟩
  · rintro ⟨a, b, c, rfl, hb⟩
    exact ⟨a ++ b, c, rfl, ⟨a, b, rfl, fitsItems_anyText a, hb⟩, fitsItems_anyText c⟩

/-- The pattern of a text whose last backslash is open finds the texts that end in a percent sign
after a part that matches what stands before the backslash. -/
theorem matchesPattern_open {front : String} (hnul : '\x00' ∉ (front ++ "\\").toList)
    (hclosed : ¬EndsOpen front.toList) (t : String) :
    matchesPattern t (containsPattern false (front ++ "\\")) = true ↔
      ∃ a b : String, t = a ++ b ++ "%" ∧ matchesPattern b front = true := by
  have hitems : patternItems (containsPattern false (front ++ "\\")).toList =
      [.anyText] ++ patternItems front.toList ++ [.literal '%'] := by
    rw [patternItems_containsPattern hnul, String.toList_append, List.append_assoc,
      patternItems_append hclosed, List.append_assoc]
    rfl
  simp only [matchesPattern_iff_fitsItems, hitems, fitsItems_append, fitsItems_percent]
  constructor
  · rintro ⟨_, _, rfl, ⟨a, b, rfl, -, hb⟩, rfl⟩
    exact ⟨a, b, rfl, hb⟩
  · rintro ⟨a, b, rfl, hb⟩
    exact ⟨a ++ b, "%", rfl, ⟨a, b, rfl, fitsItems_anyText a, hb⟩, rfl⟩

/-- A text with an open backslash ends in it. -/
theorem exists_front_of_endsOpen {e : String} (hopen : EndsOpen e.toList) :
    ∃ front : String, e = front ++ "\\" ∧ ¬EndsOpen front.toList := by
  obtain ⟨front, hchars, hclosed⟩ := endsOpen_iff.1 hopen
  refine ⟨String.ofList front, ?_, by rwa [String.toList_ofList]⟩
  rw [← String.toList_inj, hchars, String.toList_append, String.toList_ofList]
  rfl

/-- A text with an open backslash is matched by some text that its pattern does not find. -/
theorem exists_not_found {e : String} (hnul : '\x00' ∉ e.toList) (hopen : EndsOpen e.toList) :
    ∃ t : String, matchesPattern t e = true ∧
      matchesPattern t (containsPattern false e) = false := by
  obtain ⟨front, rfl, hclosed⟩ := exists_front_of_endsOpen hopen
  obtain ⟨s, hs⟩ := exists_fitsItems (patternItems front.toList)
  refine ⟨s ++ "\\", ?_, ?_⟩
  · have hlone : FitsItems (patternItems "\\".toList) "\\" :=
      matchesPattern_iff_fitsItems.1 (show matchesPattern "\\" "\\" = true by decide)
    rw [matchesPattern_iff_fitsItems, String.toList_append, patternItems_append hclosed]
    exact fitsItems_append.2 ⟨s, "\\", rfl, hs, hlone⟩
  · -- What is found ends in a percent sign.
    rw [← Bool.not_eq_true, matchesPattern_open hnul hclosed]
    rintro ⟨a, b, heq, -⟩
    have hlast := congrArg (fun t : String => t.toList.getLast?) heq
    simp at hlast

/-- Where wildcards keep their meaning, the pattern of a text without NUL finds the texts with a
part that matches the text as a pattern of its own, exactly if the text does not end in an odd
number of backslashes. If it does, the last backslash makes the closing percent sign stand for
itself: what is found are the texts that end in a percent sign after a part that matches the
rest. -/
theorem unescaped_pattern_contains {e : String} (hnul : '\x00' ∉ e.toList) :
    ((∀ t : String, matchesPattern t (containsPattern false e) = true ↔
        ∃ a b c : String, t = a ++ b ++ c ∧ matchesPattern b e = true) ↔ ¬EndsOpen e.toList) ∧
      (EndsOpen e.toList → ∃ front : String, e = front ++ "\\" ∧
        ∀ t : String, matchesPattern t (containsPattern false e) = true ↔
          ∃ a b : String, t = a ++ b ++ "%" ∧ matchesPattern b front = true) := by
  refine ⟨⟨fun hcontains hopen => ?_, matchesPattern_unescaped hnul⟩, fun hopen => ?_⟩
  · obtain ⟨t, hmatch, hmissed⟩ := exists_not_found hnul hopen
    have hfound := (hcontains t).2 ⟨"", t, "", by simp, hmatch⟩
    rw [hmissed] at hfound
    cases hfound
  · obtain ⟨front, rfl, hclosed⟩ := exists_front_of_endsOpen hopen
    exact ⟨front, rfl, matchesPattern_open hnul hclosed⟩

/-- Two backslashes and a wildcard find a part that a text may have, and a wildcard with an open
backslash finds a percent sign at the end. -/
theorem unescaped_patterns_wildcard :
    '\x00' ∉ "\\\\_".toList ∧ '\x00' ∉ "_\\".toList ∧
      (∀ t : String, matchesPattern t (containsPattern false "\\\\_") = true ↔
        ∃ a b c : String, t = a ++ b ++ c ∧ matchesPattern b "\\\\_" = true) ∧
      ∃ front : String, "_\\" = front ++ "\\" ∧
        ∀ t : String, matchesPattern t (containsPattern false "_\\") = true ↔
          ∃ a b : String, t = a ++ b ++ "%" ∧ matchesPattern b front = true := by
  have hwild : '\x00' ∉ "\\\\_".toList := by decide
  have hopen : '\x00' ∉ "_\\".toList := by decide
  refine ⟨hwild, hopen, (unescaped_pattern_contains hwild).1.2 (by decide), ?_⟩
  exact (unescaped_pattern_contains hopen).2 (by decide)

/-- A backslash alone is taken as free text, and a backslash has a part that matches it, but its
pattern does not find the backslash. It finds a percent sign in its stead. -/
theorem lone_backslash_not_found :
    sanitize (.single "\\") (.freeText false) = .ok (.patterns [containsPattern false "\\"]) ∧
      ¬(matchesPattern "\\" (containsPattern false "\\") = true ↔
        ∃ a b c : String, "\\" = a ++ b ++ c ∧ matchesPattern b "\\" = true) ∧
      matchesPattern "%" (containsPattern false "\\") = true := by
  refine ⟨rfl, fun hcontains => ?_, by decide⟩
  have hfound := hcontains.2 ⟨"", "\\", "", rfl, by decide⟩
  exact absurd hfound (by decide)

end RowScope
