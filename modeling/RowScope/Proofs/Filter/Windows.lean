import RowScope.Proofs.Calendar.Hyphens
import RowScope.Proofs.Compiler
import RowScope.Proofs.Filter.Dates
import RowScope.Proofs.Text.Trim

/-!
# Texts of windows

The text of a window is taken apart at its first hyphen (`FilterValue.dates_split`), so two dates
make a window where the text of the first one has none. That is so in every format whose pieces take
no hyphens. The check of a configuration looks for a hyphen in the format itself and lets pass the
letters that stand for several pieces with hyphens between them, and those for offsets and names of
time zones, which may have hyphens. Under a format of the first kind no value is taken for a window
(`hyphenated_dates_not_joined`). Under one of the second kind the window is that of the dates before
and after the first hyphen, if there are any, and these need not be the dates of the two texts.
`windows_of_dates` says all of this.
-/

namespace RowScope

open RowScope.Calendar (Date HyphenFree formatItems readDate?)

variable {format s₁ s₂ : String} {d₁ d₂ : Date}

/-- A text without hyphens, a hyphen and any text are taken apart again. -/
theorem splitWindow_append {a : List Char} (h : '-' ∉ a) (b : List Char) :
    splitWindow (a ++ '-' :: b) = some (a, b) := by
  have hplain : ∀ c ∈ a, (c != '-') = true := by
    intro c hc
    exact bne_iff_ne.2 fun he => h (he ▸ hc)
  unfold splitWindow
  rw [List.dropWhile_append_of_pos hplain, List.takeWhile_append_of_pos hplain]
  simp

/-- The first half of a window has no hyphens. -/
theorem not_mem_hyphen_of_splitWindow {cs : List Char} {halves : List Char × List Char}
    (h : splitWindow cs = some halves) : '-' ∉ halves.1 := by
  unfold splitWindow at h
  split at h
  · cases h
  · cases h
    intro hmem
    have hplain := List.mem_takeWhile_imp hmem
    exact bne_iff_ne.1 hplain rfl

namespace FilterValue

/-- A single text with a character that is not blank is trimmed. -/
theorem trimmed_single {s : String} {c : Char} (h : c ∈ s.toList)
    (hblank : Text.isBlank c = false) : (single s).trimmed = [Text.trim s] := by
  have hsome : (Text.trim s).isEmpty = false := by
    rw [Bool.eq_false_iff]
    intro hempty
    have hchars : Text.trimChars s.toList = [] := by
      rw [← String.toList_ofList (l := Text.trimChars s.toList)]
      exact congrArg String.toList (String.isEmpty_iff.1 hempty)
    rw [← Text.mem_trimChars hblank, hchars] at h
    exact List.not_mem_nil h
  simp [trimmed, entries, hsome]

/-- A single text that is taken for the date of a bound has that date, without the blanks around
it. -/
theorem readDate_of_before (h : (single s₁).dates .before format = .ok (.before d₁)) :
    readDate? format (Text.trim s₁) = some d₁ := by
  obtain ⟨text, rest, htrimmed, hread⟩ := dates_eq_ok.1 h
  have htext : text = Text.trim s₁ := by
    have hmem : text ∈ (single s₁).trimmed := htrimmed ▸ List.mem_cons_self
    simpa [trimmed, entries] using (List.mem_filter.1 hmem).1
  obtain ⟨d, hd, he⟩ := Option.map_eq_some_iff.1 hread
  cases he
  -- What has been trimmed is trimmed once more before it is read.
  unfold readTrimmedDate? at hd
  rw [htext, Text.trim, String.toList_ofList, Text.trimChars_trimChars] at hd
  exact hd

/-- A text without hyphens, a hyphen and any text are taken for the window of the dates of the two
texts, and for no other. -/
theorem dates_split {first rest : String} (h : '-' ∉ first.toList) {window : DateWindow} :
    (single (first ++ "-" ++ rest)).dates .window format = .ok window ↔
      ∃ d₁ d₂, readDate? format (Text.trim first) = some d₁ ∧
        readDate? format (Text.trim rest) = some d₂ ∧ window = .between d₁ d₂ := by
  have hchars : (first ++ "-" ++ rest).toList = first.toList ++ '-' :: rest.toList := by simp
  have hhyphen : '-' ∈ (first ++ "-" ++ rest).toList := by simp [hchars]
  have hfront : '-' ∉ Text.dropBlank first.toList :=
    fun hmem => h ((List.dropWhile_suffix _).subset hmem)
  -- The halves are read without the blanks around them, and so are the two texts.
  have hread : readWindow? .window format (Text.trim (first ++ "-" ++ rest)).toList =
      (readDate? format (Text.trim first)).bind fun d₁ =>
        (readDate? format (Text.trim rest)).bind fun d₂ => some (.between d₁ d₂) := by
    unfold readWindow? readTrimmedDate? Text.trim
    rw [String.toList_ofList, hchars, Text.trimChars_append_cons rfl, splitWindow_append hfront]
    simp only [bind, Option.bind_some, pure, Text.trimChars_dropBlank, Text.trimChars_dropBlankEnd]
  have hdates : (single (first ++ "-" ++ rest)).dates .window format = .ok window ↔
      readWindow? .window format (Text.trim (first ++ "-" ++ rest)).toList = some window := by
    rw [dates_eq_ok, trimmed_single hhyphen rfl]
    simp
  rw [hdates, hread]
  simp only [Option.bind_eq_some_iff, Option.some.injEq, exists_and_left, @eq_comm _ window]

/-- No value is taken for a window in a format with a piece that stands for a hyphen. -/
theorem dates_window_ne_ok (h : .literal '-' ∈ formatItems format.toList) (value : FilterValue)
    (window : DateWindow) : value.dates .window format ≠ .ok window := by
  intro hdates
  obtain ⟨text, rest, -, hread⟩ := dates_eq_ok.1 hdates
  obtain ⟨halves, hhalves, hread⟩ := Option.bind_eq_some_iff.1 hread
  obtain ⟨d, hd, -⟩ := Option.bind_eq_some_iff.1 hread
  -- The first half would have to have a hyphen, but ends before the first one.
  have hmem := Calendar.mem_hyphen_of_readDate h hd
  rw [String.toList_ofList, Text.mem_trimChars rfl] at hmem
  exact not_mem_hyphen_of_splitWindow hhalves hmem

end FilterValue

/-- A text of a date of a positive year has no hyphens if no piece of the format takes any. -/
theorem not_mem_hyphen_of_free {s : String} {d : Date} (h : HyphenFree format)
    (hread : readDate? format (Text.trim s) = some d) (hyear : 1 ≤ d.year) : '-' ∉ s.toList := by
  have hnone := Calendar.not_mem_hyphen_of_readDate h hread hyear
  rwa [Text.trim, String.toList_ofList, Text.mem_trimChars rfl] at hnone

/-- A text without hyphens, a hyphen and any text are sanitized to the window from the earlier to
the later of the dates of the two texts, and to nothing else. -/
theorem sanitize_window_iff {first rest : String} (h : '-' ∉ first.toList) {safe : SafeValue} :
    sanitize (.single (first ++ "-" ++ rest)) (.dates .window format) = .ok safe ↔
      ∃ e₁ e₂, readDate? format (Text.trim first) = some e₁ ∧
        readDate? format (Text.trim rest) = some e₂ ∧
        safe = .dates (.within (e₁.earlier e₂) (e₁.later e₂)) := by
  simp only [sanitize_dates_eq_ok, FilterValue.dates_split h, DateWindow.between_eq]
  constructor
  · rintro ⟨_, ⟨e₁, e₂, hread₁, hread₂, rfl⟩, rfl⟩
    exact ⟨e₁, e₂, hread₁, hread₂, rfl⟩
  · rintro ⟨e₁, e₂, hread₁, hread₂, rfl⟩
    exact ⟨_, ⟨e₁, e₂, hread₁, hread₂, rfl⟩, rfl⟩

/-- Two texts of dates of positive years, with a hyphen between them, are taken for the window from
the earlier to the later date, in either order, if no piece of the format takes hyphens or the text
that comes first has none. If it has some, what is taken is the window of the dates before and after
the first one of them, where there are such dates. Where a piece of the format stands for a hyphen,
no value is taken for a window. -/
theorem windows_of_dates
    (hfirst : sanitize (.single s₁) (.dates .before format) = .ok (.dates (.before d₁)))
    (hsecond : sanitize (.single s₂) (.dates .before format) = .ok (.dates (.before d₂)))
    (hyear₁ : 1 ≤ d₁.year) (hyear₂ : 1 ≤ d₂.year) :
    (HyphenFree format ∨ '-' ∉ s₁.toList →
      sanitize (.single (s₁ ++ "-" ++ s₂)) (.dates .window format) =
        .ok (.dates (.within (d₁.earlier d₂) (d₁.later d₂)))) ∧
    (HyphenFree format ∨ '-' ∉ s₂.toList →
      sanitize (.single (s₂ ++ "-" ++ s₁)) (.dates .window format) =
        .ok (.dates (.within (d₁.earlier d₂) (d₁.later d₂)))) ∧
    (∀ first rest, s₁ = first ++ "-" ++ rest → '-' ∉ first.toList → ∀ safe,
      sanitize (.single (s₁ ++ "-" ++ s₂)) (.dates .window format) = .ok safe ↔
        ∃ e₁ e₂, readDate? format (Text.trim first) = some e₁ ∧
          readDate? format (Text.trim (rest ++ "-" ++ s₂)) = some e₂ ∧
          safe = .dates (.within (e₁.earlier e₂) (e₁.later e₂))) ∧
    (.literal '-' ∈ formatItems format.toList →
      ∀ value safe, sanitize value (.dates .window format) ≠ .ok safe) := by
  obtain ⟨_, hdates₁, he⟩ := sanitize_dates_eq_ok.1 hfirst
  cases he
  obtain ⟨_, hdates₂, he⟩ := sanitize_dates_eq_ok.1 hsecond
  cases he
  have hread₁ := FilterValue.readDate_of_before hdates₁
  have hread₂ := FilterValue.readDate_of_before hdates₂
  refine ⟨fun hplain => ?_, fun hplain => ?_, fun first rest hs hfree safe => ?_,
    fun hitem value safe hsafe => ?_⟩
  · have hnone := hplain.elim (fun hfree => not_mem_hyphen_of_free hfree hread₁ hyear₁) id
    exact (sanitize_window_iff hnone).2 ⟨d₁, d₂, hread₁, hread₂, rfl⟩
  · have hnone := hplain.elim (fun hfree => not_mem_hyphen_of_free hfree hread₂ hyear₂) id
    rw [← DateWindow.between_eq, DateWindow.between_comm, DateWindow.between_eq]
    exact (sanitize_window_iff hnone).2 ⟨d₂, d₁, hread₂, hread₁, rfl⟩
  · subst hs
    have hassoc : first ++ "-" ++ rest ++ "-" ++ s₂ = first ++ "-" ++ (rest ++ "-" ++ s₂) := by
      simp only [String.append_assoc]
    rw [hassoc]
    exact sanitize_window_iff hfree
  · obtain ⟨window, hdates, -⟩ := sanitize_dates_eq_ok.1 hsafe
    exact FilterValue.dates_window_ne_ok hitem value window hdates

/-- The last day of July and the second day of August 1997. -/
def summer1997 : Date × Date := (⟨1997, 7, 31, by decide⟩, ⟨1997, 8, 2, by decide⟩)

/-- Two days in the common format make a window in either order, blanks around the later one
aside. In the format that has years, months and days with hyphens between them the days are taken
too, but nothing is taken for a window. In one that has names of time zones, two texts of one day
make a window that begins on another day, which is written in the name of a zone. -/
theorem windows_of_summer1997 :
    sanitize (.single (" 1997/08/02 " ++ "-" ++ "1997/07/31"))
        (.dates .window Config.common.dateFormat) =
      .ok (.dates (.within summer1997.1 summer1997.2)) ∧
    sanitize (.single ("1997/07/31" ++ "-" ++ " 1997/08/02 "))
        (.dates .window Config.common.dateFormat) =
      .ok (.dates (.within summer1997.1 summer1997.2)) ∧
    (∀ value safe, sanitize value (.dates .window "%F") ≠ .ok safe) ∧
    sanitize (.single "1997/08/02A-1997/07/31") (.dates .before "%Y/%m/%d%Z") =
      .ok (.dates (.before summer1997.2)) ∧
    sanitize (.single "1997/08/02") (.dates .before "%Y/%m/%d%Z") =
      .ok (.dates (.before summer1997.2)) ∧
    sanitize (.single ("1997/08/02A-1997/07/31" ++ "-" ++ "1997/08/02"))
        (.dates .window "%Y/%m/%d%Z") =
      .ok (.dates (.within summer1997.1 summer1997.2)) := by
  have hfree : HyphenFree Config.common.dateFormat :=
    Calendar.takesHyphen_formatItems (by simp [Calendar.hyphenMarks, Config.common])
  have hfirst : sanitize (.single " 1997/08/02 ") (.dates .before Config.common.dateFormat) =
      .ok (.dates (.before summer1997.2)) := rfl
  have hsecond : sanitize (.single "1997/07/31") (.dates .before Config.common.dateFormat) =
      .ok (.dates (.before summer1997.1)) := rfl
  have hlater : sanitize (.single "1997-08-02") (.dates .before "%F") =
      .ok (.dates (.before summer1997.2)) := rfl
  have hearlier : sanitize (.single "1997-07-31") (.dates .before "%F") =
      .ok (.dates (.before summer1997.1)) := rfl
  have hzone : sanitize (.single "1997/08/02A-1997/07/31") (.dates .before "%Y/%m/%d%Z") =
      .ok (.dates (.before summer1997.2)) := rfl
  have hplain : sanitize (.single "1997/08/02") (.dates .before "%Y/%m/%d%Z") =
      .ok (.dates (.before summer1997.2)) := rfl
  obtain ⟨hforth, hback, -⟩ := windows_of_dates hfirst hsecond (by decide) (by decide)
  obtain ⟨-, -, -, hnone⟩ := windows_of_dates hlater hearlier (by decide) (by decide)
  obtain ⟨-, -, htorn, -⟩ := windows_of_dates hzone hplain (by decide) (by decide)
  refine ⟨hforth (.inl hfree), hback (.inl hfree), hnone (by decide), hzone, hplain, ?_⟩
  exact (htorn "1997/08/02A" "1997/07/31" rfl (by decide) _).2
    ⟨summer1997.2, summer1997.1, rfl, rfl, rfl⟩

/-- A configuration without faults may have any format of dates that is not blank and has no
hyphens. -/
theorem Config.fault?_dateFormat {config : Config} (h : config.fault? = none) {format : String}
    (hformat : (Text.trimChars format.toList).isEmpty = false)
    (hhyphen : format.toList.contains '-' = false) :
    Config.fault? { config with dateFormat := format } = none := by
  unfold Config.fault? at h ⊢
  split at h
  · cases h
  · split at h
    · cases h
    · rw [hformat, hhyphen]
      exact h

/-- The common configuration with years, months and days, which one letter of the format stands for
with hyphens between them. -/
def Config.hyphenated : Config := { Config.common with dateFormat := "%F" }

/-- The second and the third day of the year 2020. -/
def newYear2020 : Date × Date := (⟨2020, 1, 2, by decide⟩, ⟨2020, 1, 3, by decide⟩)

/-- The configuration has no faults and two days are taken in its format, but no window of them. -/
theorem hyphenated_dates_not_joined :
    Config.hyphenated.fault? = none ∧
      sanitize (.single "2020-01-02") (.dates .before Config.hyphenated.dateFormat) =
        .ok (.dates (.before newYear2020.1)) ∧
      sanitize (.single "2020-01-03") (.dates .before Config.hyphenated.dateFormat) =
        .ok (.dates (.before newYear2020.2)) ∧
      sanitize (.single ("2020-01-02" ++ "-" ++ "2020-01-03"))
        (.dates .window Config.hyphenated.dateFormat) = .error ⟨.malformed, 1⟩ :=
  ⟨Config.fault?_dateFormat Config.fault?_common (by decide) (by decide), rfl, rfl, rfl⟩

end RowScope
