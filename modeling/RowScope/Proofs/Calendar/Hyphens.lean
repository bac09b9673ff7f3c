import Mathlib.Data.List.TakeWhile
import RowScope.Calendar.Reader

/-!
# Hyphens in the texts of dates

Most pieces of a format take no hyphens (`Item.takesHyphen`), the sign of a year aside, which no
date of a positive year has. So the texts that a format of such pieces reads as dates of positive
years have no hyphens (`not_mem_hyphen_of_readDate`), while a piece that stands for a hyphen has one
in all of its texts (`mem_hyphen_of_readDate`). Both are properties of what one piece takes
(`Item.passes_take`), carried along the pieces of a format (`passes_takeItems`).
-/

namespace RowScope.Calendar

/-! ## Texts without hyphens -/

/-- A text goes on with another one after a beginning without hyphens. -/
def Skips (cs rest : List Char) : Prop := ∃ piece, piece ++ rest = cs ∧ '-' ∉ piece

namespace Skips

variable {cs rest more : List Char}

/-- An empty beginning has no hyphens. -/
theorem refl (cs : List Char) : Skips cs cs := ⟨[], rfl, List.not_mem_nil⟩

/-- Two beginnings without hyphens, one after the other, have none together. -/
theorem trans (h : Skips cs rest) (hmore : Skips rest more) : Skips cs more := by
  obtain ⟨piece, rfl, hpiece⟩ := h
  obtain ⟨next, rfl, hnext⟩ := hmore
  exact ⟨piece ++ next, List.append_assoc .., by simp [hpiece, hnext]⟩

/-- What is skipped to stands at the end. -/
theorem suffix (h : Skips cs rest) : rest <:+ cs := by
  obtain ⟨piece, he, -⟩ := h
  exact ⟨piece, he⟩

/-- No hyphen is skipped. -/
theorem mem_hyphen (h : Skips cs rest) (hcs : '-' ∈ cs) : '-' ∈ rest := by
  obtain ⟨piece, rfl, hpiece⟩ := h
  exact (List.mem_append.1 hcs).resolve_left hpiece

/-- A character other than a hyphen may be skipped. -/
theorem cons {c : Char} (hc : c ≠ '-') (cs : List Char) : Skips (c :: cs) cs :=
  ⟨[c], rfl, by simpa using hc.symm⟩

/-- A beginning of known length is skipped if it has no hyphens. -/
theorem drop {n : Nat} (h : '-' ∉ cs.take n) : Skips cs (cs.drop n) :=
  ⟨cs.take n, List.take_append_drop n cs, h⟩

/-- Characters of a class that the hyphen is not in may be skipped. -/
theorem dropWhile {p : Char → Bool} (hp : p '-' = false) (cs : List Char) :
    Skips cs (cs.dropWhile p) := by
  refine ⟨cs.takeWhile p, List.takeWhile_append_dropWhile, fun hmem => ?_⟩
  have htaken := List.mem_takeWhile_imp hmem
  rw [hp] at htaken
  cases htaken

/-- Blanks may be skipped. -/
theorem dropBlank (cs : List Char) : Skips cs (Text.dropBlank cs) := dropWhile rfl cs

/-- Digits may be skipped. -/
theorem digits {piece : List Char} (h : piece <+: cs) (hdigits : ∀ c ∈ piece, c.isDigit = true) :
    Skips cs (cs.drop piece.length) := by
  obtain ⟨rest, rfl⟩ := h
  rw [List.drop_left]
  exact ⟨piece, rfl, fun hmem => by cases hdigits _ hmem⟩

end Skips

/-! ## Fields that have been read -/

namespace Fields

variable {fields later last : Fields}

/-- Components that have been read are still there. -/
def Kept (fields later : Fields) : Prop :=
  ∀ c v, fields.get? c = some v → later.get? c = some v

/-- A year has been read that is not positive. -/
def HasOldYear (fields : Fields) : Prop :=
  ∃ c ∈ [Component.year, .isoYear], ∃ year ≤ 0, fields.get? c = some year

/-- What is kept for longer is kept. -/
theorem Kept.trans (h : fields.Kept later) (hlast : later.Kept last) : fields.Kept last :=
  fun c v hv => hlast c v (h c v hv)

/-- A year that has been read is kept. -/
theorem HasOldYear.kept (h : fields.HasOldYear) (hkept : fields.Kept later) : later.HasOldYear := by
  obtain ⟨c, hc, year, hyear, hget⟩ := h
  exact ⟨c, hc, year, hyear, hkept c year hget⟩

/-- A component is there when it has been added, and the others are kept. -/
theorem get?_add {c : Component} {v : Int} (h : fields.add c v = some later) :
    later.get? c = some v ∧ fields.Kept later := by
  unfold add at h
  split at h
  · next hnew =>
    cases h
    have hfirst : get? ((c, v) :: fields) c = some v := by simp [get?]
    refine ⟨hfirst, fun other w hw => ?_⟩
    -- The component that has been put in front was not there before.
    have hne : c ≠ other := by
      rintro rfl
      rw [hnew] at hw
      cases hw
    simpa [get?, hne] using hw
  · next earlier hearlier =>
    split at h
    · next he =>
      cases h
      exact ⟨he ▸ hearlier, fun _ _ hw => hw⟩
    · cases h

/-- A component is there when it has been added within bounds, and the others are kept. -/
theorem get?_addWithin {c : Component} {low high v : Int}
    (h : fields.addWithin c low high v = some later) :
    later.get? c = some v ∧ fields.Kept later := by
  unfold addWithin at h
  split at h
  · exact get?_add h
  · cases h

end Fields
variable {fields later last : Fields} {cs rest more : List Char} {free : Prop}

/-! ## What a piece takes -/

/-- Whether a piece of a format may take a hyphen that is not the sign of a year. -/
def Item.takesHyphen : Item → Bool
  | .literal c => c == '-'
  | .zoneName | .offset _ | .offsetOrUtc => true
  | .blanks | .number _ | .monthName _ | .weekdayName _ | .halfDay | .fraction
  | .pointedFraction _ | .bareFraction _ | .timeMark | .unknown => false

/-- A step keeps what has been read and leaves the end of the text. If it is free of hyphens, a
hyphen in the text is left as well, unless a year has been read that is not positive. -/
structure Passes (free : Prop) (fields : Fields) (cs : List Char) (later : Fields)
    (rest : List Char) : Prop where
  /-- What has been read is kept. -/
  kept : fields.Kept later
  /-- What is left is the end of the text. -/
  suffix : rest <:+ cs
  /-- A step free of hyphens takes none but the sign of a year. -/
  hyphens : free → '-' ∈ cs → '-' ∈ rest ∨ later.HasOldYear

namespace Passes

/-- A step over a beginning without hyphens. -/
theorem of_skips (hkept : fields.Kept later) (h : Skips cs rest) :
    Passes free fields cs later rest :=
  ⟨hkept, h.suffix, fun _ hcs => .inl (h.mem_hyphen hcs)⟩

/-- A step that adds what stands in a beginning without hyphens. -/
theorem of_add {c : Component} {v : Int} (hskips : Skips cs more)
    (h : (do return (← fields.add c v, more)) = some (later, rest)) :
    Passes free fields cs later rest := by
  obtain ⟨_, hadd, h⟩ := Option.bind_eq_some_iff.1 h
  cases h
  exact .of_skips (Fields.get?_add hadd).2 hskips

/-- A step that is not free of hyphens. -/
theorem of_not (hfree : ¬ free) (hkept : fields.Kept later) (hsuffix : rest <:+ cs) :
    Passes free fields cs later rest :=
  ⟨hkept, hsuffix, fun h => absurd h hfree⟩

/-- Steps one after the other, the first of which is free of hyphens if both together are. -/
theorem trans {first : Prop} (himp : free → first) (h : Passes first fields cs later rest)
    (hrest : Passes free later rest last more) : Passes free fields cs last more where
  kept := h.kept.trans hrest.kept
  suffix := hrest.suffix.trans h.suffix
  hyphens hfree hcs := by
    rcases h.hyphens (himp hfree) hcs with hmem | hold
    · exact hrest.hyphens hfree hmem
    · exact .inr (hold.kept hrest.kept)

end Passes

/-! ### Numbers -/

/-- A number has no hyphens. -/
theorem skips_takeNumber {width : Option Nat} {n : Nat}
    (h : takeNumber width cs = some (n, rest)) : Skips cs rest := by
  cases width <;> unfold takeNumber at h <;> dsimp only at h <;> split at h <;> cases h
  case none =>
    exact .digits (List.takeWhile_prefix _) fun c => List.mem_takeWhile_imp
  case some w _ =>
    exact .digits ((List.take_prefix w _).trans (List.takeWhile_prefix _))
      fun c hc => List.mem_takeWhile_imp (List.mem_of_mem_take hc)

/-- A number has no hyphens but the sign of a number that is not positive. -/
theorem hyphens_takeSigned {signed : Bool} {width : Option Nat} {n : Int}
    (h : takeSigned signed width cs = some (n, rest)) :
    rest <:+ cs ∧ ('-' ∈ cs → '-' ∈ rest ∨ signed = true ∧ n ≤ 0) := by
  have hblank := Skips.dropBlank cs
  unfold takeSigned at h
  split at h
  · next after hafter =>
    obtain ⟨⟨m, _⟩, hfound, he⟩ := Option.map_eq_some_iff.1 h
    cases he
    have hskips := skips_takeNumber hfound
    refine ⟨?_, fun _ => .inr ⟨rfl, by omega⟩⟩
    exact (hskips.suffix.trans (List.suffix_cons '-' after)).trans (hafter ▸ hblank.suffix)
  · next after hafter =>
    obtain ⟨⟨m, _⟩, hfound, he⟩ := Option.map_eq_some_iff.1 h
    cases he
    have hskips := hblank.trans (hafter ▸ (Skips.cons (by decide) after).trans
      (skips_takeNumber hfound))
    exact ⟨hskips.suffix, fun hcs => .inl (hskips.mem_hyphen hcs)⟩
  · obtain ⟨⟨m, _⟩, hfound, he⟩ := Option.map_eq_some_iff.1 h
    cases he
    have hskips := hblank.trans (skips_takeNumber hfound)
    exact ⟨hskips.suffix, fun hcs => .inl (hskips.mem_hyphen hcs)⟩

/-- What has been read is kept when a number is added, and a number that may be signed is added as a
year. -/
theorem Numeric.addTo_spec {component : Numeric} {n : Int}
    (h : component.addTo fields n = some later) :
    fields.Kept later ∧ (component.signed = true → n ≤ 0 → later.HasOldYear) := by
  cases component with
  | year | isoYear =>
    obtain ⟨hget, hkept⟩ := Fields.get?_addWithin h
    exact ⟨hkept, fun _ hn => ⟨_, by simp, n, hn, hget⟩⟩
  | century | yearOfCentury | isoYearOfCentury | nanosecond | timestamp =>
    exact ⟨(Fields.get?_add h).2, Bool.noConfusion⟩
  | quarter | month | day | weekFromSunday | weekFromMonday | isoWeek | ordinal | minute
  | second =>
    exact ⟨(Fields.get?_addWithin h).2, Bool.noConfusion⟩
  | weekdayFromSunday | weekdayFromMonday | hourOfHalf =>
    rw [addTo] at h
    split at h
    · exact ⟨(Fields.get?_add h).2, Bool.noConfusion⟩
    · cases h
  | hour =>
    rw [addTo] at h
    split at h
    · obtain ⟨_, hhalf, hhour⟩ := Option.bind_eq_some_iff.1 h
      exact ⟨(Fields.get?_add hhalf).2.trans (Fields.get?_add hhour).2, Bool.noConfusion⟩
    · cases h

/-! ### Names and fractions -/

/-- A word without hyphens is taken from a text without hyphens. -/
theorem skips_takeWord {word : List Char} (hword : '-' ∉ word)
    (h : takeWord word cs = some rest) : Skips cs rest := by
  unfold takeWord at h
  split at h
  · next he =>
    cases h
    -- The hyphen is its own lower case.
    exact .drop fun hmem => hword (he ▸ List.mem_map.2 ⟨'-', hmem, rfl⟩)
  · cases h

/-- One of some names without hyphens is taken from a text without hyphens. -/
theorem skips_takeName {whole : Bool} {names : List (List Char × List Char)}
    (hnames : ∀ name ∈ names, '-' ∉ name.1 ∧ '-' ∉ name.2) {place : Nat}
    (h : takeName whole names cs = some (place, rest)) : Skips cs rest := by
  obtain ⟨_, -, h⟩ := Option.bind_eq_some_iff.1 h
  obtain ⟨name, hname, h⟩ := Option.bind_eq_some_iff.1 h
  obtain ⟨after, hafter, h⟩ := Option.bind_eq_some_iff.1 h
  cases h
  obtain ⟨hfirst, hmore⟩ := hnames name (List.mem_of_getElem? hname)
  refine (skips_takeWord hfirst hafter).trans ?_
  split
  · cases hword : takeWord name.2 after with
    | none => exact .refl after
    | some _ => exact skips_takeWord hmore hword
  · exact .refl after

/-- A fraction of known length has no hyphens. -/
theorem passes_takeFraction {digits : Nat} (h : takeFraction digits fields cs = some (later, rest)) :
    Passes free fields cs later rest := by
  unfold takeFraction at h
  split at h
  · next hdigits =>
    refine .of_add (.drop fun hmem => ?_) h
    cases List.all_eq_true.1 hdigits.2 _ hmem
  · cases h

/-- A fraction has no hyphens. -/
theorem passes_takeAnyFraction (h : takeAnyFraction fields cs = some (later, rest)) :
    Passes free fields cs later rest := by
  unfold takeAnyFraction at h
  dsimp only at h
  split at h
  · cases h
  · exact .of_add (.dropWhile rfl cs) h

/-! ### Distances from universal time -/

/-- Takes the hours and the minutes of a distance from universal time whose sign is known. -/
def takeUnsignedOffset (lax : Bool) (sign : Int) (fields : Fields) (cs : List Char) : Step := do
  let hours := cs.take 2
  if hours.length = 2 ∧ hours.all Char.isDigit then
    let between := (cs.drop 2).dropWhile fun c => c == ':' || Text.isBlank c
    let (minutes, rest) ← takeOffsetMinutes lax between
    return (← fields.add .offset (sign * (Number.digitsValue hours * 3600 + minutes * 60)), rest)
  else none

/-- Minutes are taken from the beginning of a text. -/
theorem suffix_takeOffsetMinutes {lax : Bool} {minutes : Int}
    (h : takeOffsetMinutes lax cs = some (minutes, rest)) : rest <:+ cs := by
  unfold takeOffsetMinutes at h
  split at h
  · split at h
    · cases h
      exact (List.suffix_cons _ rest).trans (List.suffix_cons _ _)
    · cases h
  · split at h
    · cases h
      exact List.nil_suffix
    · cases h
  · cases h

/-- Hours and minutes are taken from the beginning of a text. -/
theorem suffix_takeUnsignedOffset {lax : Bool} {sign : Int}
    (h : takeUnsignedOffset lax sign fields cs = some (later, rest)) :
    fields.Kept later ∧ rest <:+ cs := by
  unfold takeUnsignedOffset at h
  dsimp only at h
  split at h
  · obtain ⟨⟨minutes, _⟩, hminutes, h⟩ := Option.bind_eq_some_iff.1 h
    obtain ⟨_, hadd, h⟩ := Option.bind_eq_some_iff.1 h
    cases h
    have hdigits := List.drop_suffix 2 cs
    exact ⟨(Fields.get?_add hadd).2,
      (suffix_takeOffsetMinutes hminutes).trans ((List.dropWhile_suffix _).trans hdigits)⟩
  · cases h

/-- A distance from universal time is taken from the beginning of a text. -/
theorem suffix_takeOffset {lax : Bool} (h : takeOffset lax fields cs = some (later, rest)) :
    fields.Kept later ∧ rest <:+ cs := by
  have sign : ∀ {c : Char} {unsigned : List Char} {sign : Int}, c :: unsigned = cs →
      takeUnsignedOffset lax sign fields unsigned = some (later, rest) →
        fields.Kept later ∧ rest <:+ cs := by
    rintro c unsigned sign rfl h
    obtain ⟨hkept, hsuffix⟩ := suffix_takeUnsignedOffset h
    exact ⟨hkept, hsuffix.trans (List.suffix_cons c unsigned)⟩
  unfold takeOffset at h
  dsimp only at h
  split at h
  · exact sign rfl h
  · exact sign rfl h
  · exact sign rfl h
  · cases h

/-- A distance from universal time, or a letter for none, is taken from the beginning of a text. -/
theorem suffix_takeOffsetOrZulu {lax : Bool}
    (h : takeOffsetOrZulu lax fields cs = some (later, rest)) :
    fields.Kept later ∧ rest <:+ cs := by
  unfold takeOffsetOrZulu at h
  split at h
  · next after hword =>
    have hpasses : Passes True fields cs later rest := .of_add (skips_takeWord (by decide) hword) h
    exact ⟨hpasses.kept, hpasses.suffix⟩
  · exact suffix_takeOffset h

/-! ## Pieces and formats -/

/-- A character that stands for itself takes itself. -/
theorem Item.take_literal_eq_some {c : Char} :
    (Item.literal c).take fields cs = some (later, rest) ↔ later = fields ∧ cs = c :: rest := by
  rw [Item.take.eq_def]
  cases cs with
  | nil => simp
  | cons d cs =>
    dsimp only
    split
    · next he =>
      subst he
      simp [eq_comm]
    · next hne => simp [Ne.symm hne]

/-- What a piece of a format takes has no hyphens but the sign of a year, unless the piece may take
others. -/
theorem Item.passes_take {item : Item} (h : item.take fields cs = some (later, rest)) :
    Passes (item.takesHyphen = false) fields cs later rest := by
  have keep : fields.Kept fields := fun _ _ hv => hv
  cases item with
  | literal c =>
    obtain ⟨rfl, rfl⟩ := take_literal_eq_some.1 h
    by_cases hc : c = '-'
    · exact .of_not (by simp [takesHyphen, hc]) keep (List.suffix_cons c rest)
    · exact .of_skips keep (.cons hc rest)
  | blanks =>
    cases h
    exact .of_skips keep (.dropBlank cs)
  | number component =>
    obtain ⟨⟨n, _⟩, hnumber, h⟩ := Option.bind_eq_some_iff.1 h
    obtain ⟨_, hadd, h⟩ := Option.bind_eq_some_iff.1 h
    cases h
    obtain ⟨hsuffix, hhyphens⟩ := hyphens_takeSigned hnumber
    obtain ⟨hkept, hold⟩ := Numeric.addTo_spec hadd
    -- A hyphen that is not left is the sign of a year.
    refine ⟨hkept, hsuffix, fun _ hcs => (hhyphens hcs).imp_right ?_⟩
    exact fun hsigned => hold hsigned.1 hsigned.2
  | monthName whole =>
    obtain ⟨⟨_, _⟩, hname, h⟩ := Option.bind_eq_some_iff.1 h
    exact .of_add (skips_takeName (by decide) hname) h
  | weekdayName whole =>
    obtain ⟨⟨_, _⟩, hname, h⟩ := Option.bind_eq_some_iff.1 h
    exact .of_add (skips_takeName (by decide) hname) h
  | halfDay =>
    rw [Item.take.eq_def] at h
    dsimp only at h
    split at h
    · next hword => exact .of_add (skips_takeWord (by decide) hword) h
    · next hword => exact .of_add (skips_takeWord (by decide) hword) h
    · cases h
  | fraction =>
    rw [Item.take.eq_def] at h
    dsimp only at h
    split at h
    · exact .trans id (.of_skips keep (.cons (by decide) _)) (passes_takeAnyFraction h)
    · cases h
      exact .of_skips keep (.refl _)
  | pointedFraction digits =>
    rw [Item.take.eq_def] at h
    dsimp only at h
    split at h
    · exact .trans id (.of_skips keep (.cons (by decide) _)) (passes_takeFraction h)
    · cases h
      exact .of_skips keep (.refl _)
  | bareFraction digits => exact passes_takeFraction h
  -- Zones may take hyphens, so nothing is claimed of them but that they leave the end of the text.
  | zoneName =>
    cases h
    exact .of_not Bool.noConfusion keep (List.dropWhile_suffix _)
  | offset lax =>
    have htaken : fields.Kept later ∧ rest <:+ Text.dropBlank cs := by
      cases lax with
      | true => exact suffix_takeOffsetOrZulu h
      | false => exact suffix_takeOffset h
    exact .of_not Bool.noConfusion htaken.1 (htaken.2.trans (Skips.dropBlank cs).suffix)
  | timeMark =>
    rw [Item.take.eq_def] at h
    dsimp only at h
    split at h
    · split at h
      · next hc =>
        cases h
        have hne : ∀ c : Char, c = 'T' ∨ c = 't' ∨ c = ' ' → c ≠ '-' := by
          rintro c (rfl | rfl | rfl) <;> decide
        exact .of_skips keep (.cons (hne _ hc) _)
      · cases h
    · cases h
  | offsetOrUtc =>
    rw [Item.take.eq_def] at h
    dsimp only at h
    split at h
    · next hword => exact .of_add (skips_takeWord (by decide) hword) h
    · obtain ⟨hkept, hsuffix⟩ := suffix_takeOffsetOrZulu h
      exact .of_not Bool.noConfusion hkept hsuffix
  | unknown => cases h

/-- What the pieces of a format take has no hyphens but the signs of years, unless one of them may
take others. -/
theorem passes_takeItems {items : List Item} (h : takeItems items fields cs = some (later, rest)) :
    Passes (∀ item ∈ items, item.takesHyphen = false) fields cs later rest := by
  induction items generalizing fields cs with
  | nil =>
    cases h
    exact .of_skips (fun _ _ hv => hv) (.refl _)
  | cons item items ih =>
    obtain ⟨⟨_, _⟩, hitem, h⟩ := Option.bind_eq_some_iff.1 h
    have htail := ih h
    refine .trans (fun hfree => hfree item List.mem_cons_self) (Item.passes_take hitem)
      ⟨htail.kept, htail.suffix, fun hfree => htail.hyphens ?_⟩
    exact fun other hother => hfree other (List.mem_cons_of_mem item hother)

/-- A text that the pieces of a format take has a hyphen if one of them stands for a hyphen. -/
theorem mem_hyphen_of_takeItems {items : List Item} (hitem : .literal '-' ∈ items)
    (h : takeItems items fields cs = some (later, rest)) : '-' ∈ cs := by
  induction items generalizing fields cs with
  | nil => exact absurd hitem List.not_mem_nil
  | cons item items ih =>
    obtain ⟨⟨_, _⟩, hhere, h⟩ := Option.bind_eq_some_iff.1 h
    rcases List.mem_cons.1 hitem with rfl | hlater
    · rw [(Item.take_literal_eq_some.1 hhere).2]
      exact List.mem_cons_self
    · exact (Item.passes_take hhere).suffix.subset (ih hlater h)

/-! ## Dates of positive years -/

/-- The week of a day of a positive year belongs to a positive year, for the first of January of the
year 1 is a Monday. -/
theorem Date.one_le_isoWeek {d : Date} (h : 1 ≤ d.year) : 1 ≤ d.isoWeek.1 := by
  unfold isoWeek
  dsimp only
  split
  · next hthursday =>
    -- No Thursday before the year 1 has days of that year in its week.
    have hnot : d.year ≠ 1 := by
      intro hyear
      have hordinal : 1 ≤ d.ordinal :=
        Nat.le_trans d.isDate.2.2.2.2.1 (Nat.le_add_left d.day _)
      unfold weekday weekdayOf daysBeforeYear at hthursday
      rw [hyear] at hthursday
      dsimp only at hthursday
      omega
    show 1 ≤ d.year - 1
    omega
  · split
    · show 1 ≤ d.year + 1
      omega
    · exact h

/-- A year that has been read is the one of the date. -/
theorem Fields.eq_of_agreesWithYear {whole hundreds more : Component} {year given : Int}
    (h : fields.agreesWithYear whole hundreds more year = true)
    (hgiven : fields.get? whole = some given) : given = year := by
  obtain ⟨hagrees, -⟩ := Bool.and_eq_true_iff.1 h
  unfold agrees at hagrees
  rw [hgiven] at hagrees
  exact of_decide_eq_true hagrees

/-- No years but positive ones are read for a date of a positive year. -/
theorem Fields.not_hasOldYear {d : Date} (h : fields.date? = some d) (hyear : 1 ≤ d.year) :
    ¬ fields.HasOldYear := by
  obtain ⟨_, -, h⟩ := Option.bind_eq_some_iff.1 h
  obtain ⟨_, -, h⟩ := Option.bind_eq_some_iff.1 h
  obtain ⟨_, -, h⟩ := Option.bind_eq_some_iff.1 h
  split at h
  · next hagrees =>
    cases h
    simp only [agreesWithParts, agreesWithIsoWeek, Bool.and_eq_true] at hagrees
    obtain ⟨⟨⟨⟨⟨hplain, -⟩, -⟩, -⟩, ⟨⟨hiso, -⟩, -⟩⟩, -⟩ := hagrees
    rintro ⟨c, hc, given, hgiven, hget⟩
    have hweek := Date.one_le_isoWeek hyear
    rcases List.mem_cons.1 hc with rfl | hc
    · have he := eq_of_agreesWithYear hplain hget
      omega
    · rw [List.mem_singleton.1 hc] at hget
      have he := eq_of_agreesWithYear hiso hget
      omega
  · cases h

/-! ## Texts of dates -/

variable {format text : String} {d : Date}

/-- A format without pieces that take hyphens. -/
def HyphenFree (format : String) : Prop :=
  ∀ item ∈ formatItems format.toList, item.takesHyphen = false

instance (format : String) : Decidable (HyphenFree format) :=
  inferInstanceAs (Decidable (∀ item ∈ formatItems format.toList, item.takesHyphen = false))

/-- The texts of dates of positive years in a format without hyphens have none. -/
theorem not_mem_hyphen_of_readDate (hfree : HyphenFree format)
    (h : readDate? format text = some d) (hyear : 1 ≤ d.year) : '-' ∉ text.toList := by
  obtain ⟨⟨fields, rest⟩, htake, h⟩ := Option.bind_eq_some_iff.1 h
  dsimp only at h
  split at h
  · next hrest =>
    rw [List.isEmpty_iff] at hrest
    intro hmem
    rcases (passes_takeItems htake).hyphens hfree hmem with hleft | hold
    · rw [hrest] at hleft
      exact List.not_mem_nil hleft
    · exact Fields.not_hasOldYear h hyear hold
  · cases h

/-- The texts of dates in a format with a piece that stands for a hyphen have one. -/
theorem mem_hyphen_of_readDate (hitem : .literal '-' ∈ formatItems format.toList)
    (h : readDate? format text = some d) : '-' ∈ text.toList := by
  obtain ⟨_, htake, -⟩ := Option.bind_eq_some_iff.1 h
  exact mem_hyphen_of_takeItems hitem htake

/-- The characters that stand in a format for a hyphen or a piece that may take hyphens. -/
def hyphenMarks : List Char := ['-', 'F', 'v', '+', 'Z', 'z']

/-- No other letter stands for a piece that takes hyphens. -/
theorem takesHyphen_itemsOf {c : Char} (h : c ∉ hyphenMarks) :
    ∀ item ∈ itemsOf c, item.takesHyphen = false := by
  unfold itemsOf
  split
  · exact fun item hitem => List.mem_singleton.1 hitem ▸ rfl
  · split <;> first | exact absurd (by decide) h | decide

/-- Only numbers are padded. -/
theorem takesHyphen_paddedItem (c : Char) : (paddedItem c).takesHyphen = false := by
  unfold paddedItem
  split <;> rfl

/-- A format without such characters has no pieces that take hyphens. -/
theorem takesHyphen_formatItems {cs : List Char} (h : ∀ c ∈ cs, c ∉ hyphenMarks) :
    ∀ item ∈ formatItems cs, item.takesHyphen = false := by
  fun_induction formatItems cs
  case case1 => exact fun item hitem => absurd hitem List.not_mem_nil
  all_goals simp only [List.forall_mem_cons, List.forall_mem_append] at h ⊢
  case case2 => exact ⟨rfl, fun item hitem => absurd hitem List.not_mem_nil⟩
  -- A zone, whatever marks stand before its letter.
  case case3 ih => exact absurd (by decide) h.2.2.2.2.1
  case case4 ih => exact absurd (by decide) h.2.2.2.1
  case case5 ih => exact absurd (by decide) h.2.2.1
  case case6 ih => exact absurd (by decide) h.2.2.1
  case case7 ih => exact ⟨rfl, ih h.2.2.2⟩
  case case8 ih | case9 ih | case10 ih => exact ⟨rfl, ih h.2.2.2.2⟩
  case case11 ih | case12 ih | case13 ih => exact ⟨rfl, ih h.2.2.2⟩
  case case14 ih | case15 ih | case16 ih => exact ⟨takesHyphen_paddedItem _, ih h.2.2.2⟩
  case case17 ih => exact ⟨takesHyphen_itemsOf h.2.1, ih h.2.2⟩
  case case18 ih =>
    refine ⟨?_, ih h.2⟩
    split
    · rfl
    · exact beq_eq_false_iff_ne.2 fun he => h.1 (he ▸ List.mem_cons_self)

end RowScope.Calendar
