import RowScope.Proofs.Compiler
import RowScope.Proofs.Rule.Bindings
import RowScope.Proofs.Rule.Entries
import RowScope.Proofs.Text.Letters

/-!
# Members of vocabularies as filter values

A rule that looks for members of a vocabulary trims a text before it looks the text up exactly. So
it takes a list of members as they are written, each of them bound unchanged, if and only if all of
them are bare, neither empty nor with blanks at their ends (`Text.IsBare`), and a member that is not
bare is bound by no value (`vocabulary_values_usable`). A vocabulary may have such members, since
its configuration is refused only if it has no members at all.

The rules in question read a value text by text (`Rule.Consults`), and what they make of a text is
its reading (`Vocabularies.reading`). Both are proved once for the rules that compare some fields
and once for the status of goals, and the rest follows from the readings alone.
-/

namespace RowScope

/-! ## Bare texts -/

/-- A text is not empty, and trimming leaves it as it is. -/
def Text.IsBare (s : String) : Prop := s ≠ "" ∧ Text.BareEnds s.toList

instance (s : String) : Decidable (Text.IsBare s) := inferInstanceAs (Decidable (_ ∧ _))

/-- A text has a trimmed text, itself, exactly if it is bare. -/
theorem Text.isBare_iff {s : String} : IsBare s ↔ trim s = s ∧ s ≠ "" := by
  rw [IsBare, trim_eq_self_iff, and_comm]

/-- A trimmed text that is not empty is bare. -/
theorem Text.isBare_trim {s : String} (h : trim s ≠ "") : IsBare (trim s) := by
  refine ⟨h, ?_⟩
  rw [trim, String.toList_ofList]
  exact bareEnds_trimChars s.toList

/-! ## The readings of a vocabulary -/

/-- Whether a member of a vocabulary asks for the lack of a value. -/
def VocabularyName.meansUnset : VocabularyName → String → Bool
  | goalStatuses, text => Text.sameLetters text needsStatus
  | roles, _ | topics, _ | reasons, _ => false

/-- What a text asks for: a member of a vocabulary, or the lack of a value. -/
def Vocabularies.reading (v : Vocabularies) (name : VocabularyName) (e : String) :
    Option (Option String) :=
  if name.meansUnset (Text.trim e) = true then some none else (memberOf (v.get name) e).map some

variable {v : Vocabularies} {name : VocabularyName} {e text : String}

/-- A member that asks for the lack of a value is bare. -/
theorem VocabularyName.isBare_of_meansUnset (h : name.meansUnset text = true) :
    Text.IsBare text := by
  cases name with
  | roles | topics | reasons => cases h
  | goalStatuses =>
    refine ⟨?_, Text.bareEnds_of_sameLetters h (by decide)⟩
    rintro rfl
    exact absurd h (by decide)

namespace Vocabularies

/-- The texts that ask for the lack of a value. -/
theorem reading_eq_unset : v.reading name e = some none ↔ name.meansUnset (Text.trim e) = true := by
  unfold reading
  split
  · next h => simp [h]
  · next h => simp [h]

/-- The texts that ask for a member. -/
theorem reading_eq_member : v.reading name e = some (some text) ↔
    Text.trim e = text ∧ name.meansUnset text = false ∧ text ≠ "" ∧
      (v.get name).contains text = true := by
  unfold reading
  split
  · next h =>
    constructor
    · rintro ⟨⟩
    · rintro ⟨rfl, hunset, -⟩
      rw [h] at hunset
      cases hunset
  · next h =>
    rw [Option.map_eq_some_iff]
    simp only [Option.some.injEq, exists_eq_right, memberOf_eq_some]
    constructor
    · rintro ⟨rfl, hmember⟩
      exact ⟨rfl, Bool.eq_false_iff.2 h, hmember⟩
    · rintro ⟨htrim, -, hmember⟩
      exact ⟨htrim, hmember⟩

/-- The texts that ask for nothing. -/
theorem reading_eq_none : v.reading name e = none ↔ name.meansUnset (Text.trim e) = false ∧
    (Text.trim e = "" ∨ (v.get name).contains (Text.trim e) = false) := by
  have hmember : memberOf (v.get name) e = none ↔
      Text.trim e = "" ∨ (v.get name).contains (Text.trim e) = false := by
    simp only [Option.eq_none_iff_forall_ne_some, ne_eq, memberOf_eq_some, not_and, forall_eq',
      Bool.not_eq_true, or_iff_not_imp_left]
  unfold reading
  split
  · next h => simp [h]
  · next h => simp [h, hmember]

/-- A bare member asks for itself, or for the lack of a value. -/
theorem reading_of_isBare (hbare : Text.IsBare text) (hin : (v.get name).contains text = true) :
    v.reading name text = some (if name.meansUnset text = true then none else some text) := by
  obtain ⟨htrim, hne⟩ := Text.isBare_iff.1 hbare
  split
  · next h => exact reading_eq_unset.2 (by rwa [htrim])
  · next h => exact reading_eq_member.2 ⟨htrim, Bool.eq_false_iff.2 h, hne, hin⟩

end Vocabularies

/-! ## Rules that look for members -/

/-- The column of the status of a goal. -/
def ReadPaths.goalStatus (paths : ReadPaths) : ColumnRef :=
  (paths.get .goal).terminalColumn "status"

/-- A rule reads a value text by text for what its texts ask of a vocabulary. -/
structure Rule.Consults (rule : Rule) (ctx : RuleContext) (condition : Condition)
    (name : VocabularyName) : Prop where
  /-- The value is taken if one of its texts asks for something. -/
  accepts : ∀ value, rule.Accepts ctx condition value ↔
    ∃ e ∈ value.entries, ∃ x, ctx.config.vocabularies.reading name e = some x
  /-- The members that its texts ask for are bound, and the status is tested for NULL if one of them
  asks for the lack of a value. -/
  binds : ∀ {value a}, rule.apply ctx condition value = .ok a → a.predicate.Binds
    (fun text => ∃ e ∈ value.entries,
      ctx.config.vocabularies.reading name e = some (some text))
    (fun column => column = ctx.paths.goalStatus ∧
      ∃ e ∈ value.entries, ctx.config.vocabularies.reading name e = some none)
  /-- The policy of the vocabulary holds of a rejected value unless all its texts are blank. -/
  policy : ∀ {value rejection}, rule.apply ctx condition value = .error rejection →
    rejection.policy = if value.trimmed.isEmpty then .ignore
      else (ctx.config.vocabularies.get name).onReject

/-- The policy of a vocabulary holds of a value without members unless all its texts are blank. -/
theorem Vocabulary.policy_of_admitted {vocabulary : Vocabulary} {value : FilterValue}
    {rejection : Rejection} (h : vocabulary.admitted value = .error rejection) :
    rejection.policy = if value.trimmed.isEmpty then .ignore else vocabulary.onReject := by
  rw [admitted, FilterValue.members, FilterValue.usable] at h
  cases htrimmed : value.trimmed with
  | nil =>
    rw [htrimmed] at h
    cases h
    rfl
  | cons first others =>
    -- Texts are left to be looked up, so it is the look-up that fails.
    rw [htrimmed] at h
    change Except.mapError _ (keptOr .notInVocabulary _ _) = _ at h
    unfold keptOr at h
    split at h
    · cases h
      rfl
    · cases h

section Consults

variable {ctx : RuleContext} {condition : Condition}

/-- The admitted texts of a value are the members that its texts write. -/
theorem exists_admitted_iff {vocabulary : Vocabulary} {value : FilterValue} :
    (∃ texts, vocabulary.admitted value = .ok texts ∧ text ∈ texts) ↔
      ∃ e ∈ value.entries, memberOf vocabulary e = some text := by
  have hread := readsEach_admitted vocabulary
  constructor
  · rintro ⟨texts, htexts, htext⟩
    exact (hread.mem htexts text).1 htext
  · rintro ⟨e, he, hmember⟩
    obtain ⟨texts, htexts⟩ := (hread.accepts value).2 ⟨e, he, text, hmember⟩
    exact ⟨texts, htexts, (hread.mem htexts text).2 ⟨e, he, hmember⟩⟩

/-- What a rule about related rows rejects is rejected by its criterion. -/
theorem Rule.targets_of_error {criterion : Criterion} {value : FilterValue} {rejection : Rejection}
    (h : (Rule.related criterion).apply ctx condition value = .error rejection) :
    criterion.targets ctx condition value = .error rejection := by
  obtain h | ⟨_, -, ⟨⟩⟩ := Traversal.bind_eq_error.1 h
  exact h

/-- A rule that compares some fields with members of a vocabulary looks for members, if none of them
asks for the lack of a value. -/
theorem Rule.consults_member (hname : name ≠ .goalStatuses) {fields : List Field}
    (hfields : fields ≠ []) : (Rule.member name fields).Consults ctx condition name := by
  have hreading : ∀ e, ctx.config.vocabularies.reading name e =
      (memberOf (ctx.config.vocabularies.get name) e).map some := by
    intro e
    cases name with
    | goalStatuses => exact absurd rfl hname
    | roles | topics | reasons => rfl
  constructor
  · intro value
    rw [Rule.member, Rule.accepts_related]
    have htaken : (∃ targets, Criterion.targets ctx condition value (.member name fields) =
        .ok targets) ↔
          ∃ texts, (ctx.config.vocabularies.get name).admitted value = .ok texts := by
      simp only [Criterion.targets, Traversal.bind_eq_ok]
      constructor
      · rintro ⟨targets, texts, htexts, -⟩
        exact ⟨texts, htexts⟩
      · rintro ⟨texts, htexts⟩
        exact ⟨_, texts, htexts, rfl⟩
    rw [htaken, (readsEach_admitted _).accepts]
    simp [hreading]
  · intro value a happly
    obtain ⟨targets, htargets, rfl⟩ := Rule.apply_related.1 happly
    have hasFields : (Criterion.member name fields).fields ≠ [] := hfields
    have hsome := Criterion.targets_ne_nil hasFields htargets
    have hreduced := Criterion.reduced_targets htargets
    obtain ⟨texts, htexts, h⟩ := Traversal.bind_eq_ok.1 htargets
    cases h
    have hbinds := existsAlongAny_binds hsome hreduced
      (List.forall_mem_map.2 fun f _ => f.binds_hasText ctx.paths texts) condition.mode
    refine hbinds.congr (fun text => ?_) fun column => ?_
    · rw [(readsEach_admitted _).mem htexts]
      simp only [hreading, Option.map_eq_some_iff, Option.some.injEq, exists_eq_right]
    · simp [hreading]
  · intro value rejection happly
    obtain hadmitted | ⟨_, -, ⟨⟩⟩ := Traversal.bind_eq_error.1 (Rule.targets_of_error happly)
    exact Vocabulary.policy_of_admitted hadmitted

/-- A value without the text that asks for the lack of a status is left as it is. -/
theorem FilterValue.trimmed_without {unset : String} (value : FilterValue)
    (h : value.hasName unset = false) : (value.without unset).trimmed = value.trimmed := by
  have hkept : (value.without unset).entries = value.entries := by
    refine List.filter_eq_self.2 fun e he => ?_
    rw [Bool.not_eq_true', Bool.eq_false_iff]
    intro hunset
    rw [hasName_iff_asksUnset.2 ⟨e, he, hunset⟩] at h
    cases h
  rw [trimmed, hkept, trimmed]

/-- A field that has one of some texts or nothing binds the members among the texts of a value that
do not ask for the lack of one, and is tested for NULL if one of them does. -/
theorem Field.binds_hasTextOrNothing {f : Field} {vocabulary : Vocabulary} {unset : String}
    {value : FilterValue} {t : RelationPath × Predicate}
    (h : f.hasTextOrNothing ctx vocabulary unset value = .ok t) :
    t.2.Binds
      (fun text => ∃ texts, vocabulary.admitted (value.without unset) = .ok texts ∧ text ∈ texts)
      (fun column => column = f.columnRef ctx.paths ∧ value.hasName unset = true) := by
  have hnull := Predicate.binds_isNull (f.columnRef ctx.paths)
  obtain ⟨-, ⟨hname, hnone, he⟩ | ⟨texts, htexts, hasks⟩⟩ := f.hasTextOrNothing_cases h
  · rw [he]
    exact hnull.congr (by simp [hnone]) (by simp [hname])
  · have hsome : texts.map Value.text ≠ [] :=
      mt List.map_eq_nil_iff.1 ((readsEach_admitted vocabulary).ne_nil htexts)
    have hamong := (f.columnRef ctx.paths).binds_amongTexts texts
    rcases hasks with ⟨hname, he⟩ | ⟨hname, he⟩
    · rw [he]
      exact (hnull.disj_pair (.leaf rfl rfl) (ColumnRef.reduced_among _ hsome) hamong).congr
        (by simp [htexts]) (by simp [hname])
    · rw [he]
      exact hamong.congr (by simp [htexts]) (by simp [hname])

/-- The rule about the statuses of goals looks for statuses and for the lack of one. -/
theorem Rule.consults_memberOrUnset :
    (Rule.related (.memberOrUnset .goalStatuses needsStatus (.one .goal "status"))).Consults ctx
      condition .goalStatuses := by
  constructor
  · intro value
    rw [Rule.accepts_related]
    exact targets_memberOrUnset_accepts
  · intro value a happly
    obtain ⟨targets, htargets, rfl⟩ := Rule.apply_related.1 happly
    have hreduced := Criterion.reduced_targets htargets
    obtain ⟨t, ht, rfl⟩ := targets_memberOrUnset_eq_ok.1 htargets
    have hbinds := existsAlongAny_binds (List.cons_ne_nil t []) hreduced
      (List.forall_mem_singleton.2 (Field.binds_hasTextOrNothing ht)) condition.mode
    refine hbinds.congr (fun text => ?_) fun column => ?_
    · rw [exists_admitted_iff]
      simp only [mem_without, memberOf_eq_some, Vocabularies.reading_eq_member]
      constructor
      · rintro ⟨e, ⟨he, hunset⟩, rfl, hmember⟩
        exact ⟨e, he, rfl, hunset, hmember⟩
      · rintro ⟨e, he, rfl, hunset, hmember⟩
        exact ⟨e, ⟨he, hunset⟩, rfl, hmember⟩
    · simp only [hasName_iff_asksUnset, Vocabularies.reading_eq_unset]
      exact Iff.rfl
  · intro value rejection happly
    obtain hfield | ⟨_, -, ⟨⟩⟩ := Traversal.bind_eq_error.1 (Rule.targets_of_error happly)
    unfold Field.hasTextOrNothing at hfield
    dsimp only at hfield
    rw [← FilterValue.without] at hfield
    split at hfield
    · cases hfield
    · next hname =>
      -- No text asks for the lack of a status, so all of them are looked up.
      rw [← value.trimmed_without (Bool.eq_false_iff.2 hname)]
      exact Vocabulary.policy_of_admitted (Traversal.map_eq_error.1 hfield)

end Consults

/-! ## Members as they are written -/

/-- A rule takes a list of texts as they are written: each text is bound unchanged or, if it asks
for the lack of a value, has the status tested for NULL instead, and nothing else is bound. -/
def Rule.TakesAsWritten (rule : Rule) (ctx : RuleContext) (condition : Condition)
    (name : VocabularyName) (values : List String) : Prop :=
  ∃ a, rule.apply ctx condition (.many values) = .ok a ∧ a.predicate.Binds
    (fun text => text ∈ values ∧ name.meansUnset text = false)
    (fun column => column = ctx.paths.goalStatus ∧ ∃ v ∈ values, name.meansUnset v = true)

namespace Rule.Consults

variable {rule : Rule} {ctx : RuleContext} {condition : Condition} {values : List String}

/-- Some members are taken as they are written exactly if all of them are bare. -/
theorem takesAsWritten_iff (h : rule.Consults ctx condition name) (hsome : values ≠ [])
    (hin : ∀ v ∈ values, (ctx.config.vocabularies.get name).contains v = true) :
    rule.TakesAsWritten ctx condition name values ↔ ∀ v ∈ values, Text.IsBare v := by
  constructor
  · rintro ⟨a, ha, hwritten⟩ v hv
    cases hunset : name.meansUnset v with
    | true => exact VocabularyName.isBare_of_meansUnset hunset
    | false =>
      -- Whatever is bound has been trimmed.
      obtain ⟨e, -, hreading⟩ := ((h.binds ha).texts v).1 ((hwritten.texts v).2 ⟨hv, hunset⟩)
      obtain ⟨rfl, -, hne, -⟩ := Vocabularies.reading_eq_member.1 hreading
      exact Text.isBare_trim hne
  · intro hbare
    have hreading : ∀ v ∈ values, ctx.config.vocabularies.reading name v =
        some (if name.meansUnset v = true then none else some v) :=
      fun v hv => Vocabularies.reading_of_isBare (hbare v hv) (hin v hv)
    obtain ⟨v, hv⟩ := List.exists_mem_of_ne_nil values hsome
    obtain ⟨a, ha⟩ := Rule.accepts_iff.1 ((h.accepts (.many values)).2 ⟨v, hv, _, hreading v hv⟩)
    refine ⟨a, ha, (h.binds ha).congr (fun text => ?_) fun column => ?_⟩
    · constructor
      · rintro ⟨e, he, hmember⟩
        obtain ⟨htrim, hunset, -⟩ := Vocabularies.reading_eq_member.1 hmember
        rw [← htrim, (Text.isBare_iff.1 (hbare e he)).1] at hunset ⊢
        exact ⟨he, hunset⟩
      · rintro ⟨htext, hunset⟩
        refine ⟨text, htext, ?_⟩
        rw [hreading text htext, hunset]
        rfl
    · refine and_congr_right fun _ => exists_congr fun e => and_congr_right fun he => ?_
      rw [Vocabularies.reading_eq_unset, (Text.isBare_iff.1 (hbare e he)).1]

/-- A list of texts is rejected if none of them, when it is trimmed, is a member or asks for the
lack of a value. -/
theorem rejects_iff (h : rule.Consults ctx condition name) :
    (∃ rejection, rule.apply ctx condition (.many values) = .error rejection) ↔
      ∀ v ∈ values, name.meansUnset (Text.trim v) = false ∧
        (Text.trim v = "" ∨ (ctx.config.vocabularies.get name).contains (Text.trim v) = false) := by
  have hnot : (∃ rejection, rule.apply ctx condition (.many values) = .error rejection) ↔
      ¬ rule.Accepts ctx condition (.many values) := by
    rw [Rule.accepts_iff]
    cases rule.apply ctx condition (.many values) <;> simp
  rw [hnot, h.accepts]
  simp only [← Vocabularies.reading_eq_none, not_exists, not_and,
    Option.eq_none_iff_forall_ne_some]
  exact Iff.rfl

/-- A text that is not bare is never bound. -/
theorem isBare_of_bound (h : rule.Consults ctx condition name) {value : FilterValue}
    {a : Association} (ha : rule.apply ctx condition value = .ok a)
    (htext : text ∈ a.predicate.boundTexts) : Text.IsBare text := by
  obtain ⟨e, -, hreading⟩ := ((h.binds ha).texts text).1 htext
  obtain ⟨rfl, -, hne, -⟩ := Vocabularies.reading_eq_member.1 hreading
  exact Text.isBare_trim hne

end Rule.Consults

/-! ## The standard rules -/

/-- The vocabulary that a rule looks for members of. -/
def Rule.vocabulary? : Rule → Option VocabularyName
  | related (.member name _) | related (.memberOrUnset name _ _) => some name
  | related (.contains _) | related (.integer _) | related (.text _) | related (.date _)
  | related (.period _ _) | related (.groupInteger _) | related (.groupText _) | related (.user _)
  | related (.combination _ _) | related (.flag _ _) | count _ _ => none

/-- Whether a rule that looks for members of a vocabulary has fields to compare, and asks for the
lack of a value just where the vocabulary is that of the statuses of goals. -/
def Rule.consultsProperly : Rule → Bool
  | related (.member name fields) => name != .goalStatuses && !fields.isEmpty
  | related (.memberOrUnset name unset field) =>
    name == .goalStatuses && unset == needsStatus && field == .one .goal "status"
  | related (.contains _) | related (.integer _) | related (.text _) | related (.date _)
  | related (.period _ _) | related (.groupInteger _) | related (.groupText _) | related (.user _)
  | related (.combination _ _) | related (.flag _ _) | count _ _ => true

/-- The filters whose values are members of a vocabulary: the domain and the topic of each. -/
def VocabularyName.filters : VocabularyName → List (Domain × Topic)
  | roles => [(.activityReport, .role)]
  | topics => [(.activityReport, .reportTopic), (.goal, .reportTopic)]
  | reasons => [(.activityReport, .reason), (.goal, .reason)]
  | goalStatuses => [(.goal, .status)]

/-- A rule that consults a vocabulary properly reads a value text by text. -/
theorem Rule.consults_of_properly {rule : Rule} (h : rule.consultsProperly = true)
    (hname : rule.vocabulary? = some name) (ctx : RuleContext) (condition : Condition) :
    rule.Consults ctx condition name := by
  unfold Rule.vocabulary? at hname
  split at hname
  · next other fields =>
    cases hname
    rw [consultsProperly, Bool.and_eq_true, bne_iff_ne] at h
    exact Rule.consults_member h.1 (by simpa using h.2)
  · next other unset field =>
    cases hname
    simp only [consultsProperly, Bool.and_eq_true, beq_iff_eq] at h
    obtain ⟨⟨rfl, rfl⟩, rfl⟩ := h
    exact Rule.consults_memberOrUnset
  all_goals cases hname

namespace Domain

/-- The standard rules consult vocabularies properly. -/
theorem consults_standardRules (d : Domain) :
    ∀ r ∈ d.standardRules, r.rule.consultsProperly = true := by
  cases d <;> decide

/-- The standard rules that consult a vocabulary are for its filters, under conditions on membership
in a list. -/
theorem filters_standardRules (d : Domain) : ∀ r ∈ d.standardRules,
    ∀ name ∈ r.rule.vocabulary?, (d, r.topic) ∈ name.filters ∧ r.conditions = listConditions := by
  cases d <;> decide

end Domain

/-- Each filter of a vocabulary has a standard rule. -/
theorem VocabularyName.exists_standardRule (name : VocabularyName) : ∀ filter ∈ name.filters,
    ∃ r ∈ filter.1.standardRules, r.topic = filter.2 ∧ r.conditions = listConditions ∧
      r.rule.vocabulary? = some name := by
  cases name <;> decide

/-- The standard rules that consult a vocabulary are those for its filters. -/
theorem RuleTable.standard_vocabulary_iff {t : RuleTable} (h : RuleTable.standard = .ok t)
    {domain : Domain} {topic : Topic} {condition : Condition} :
    (∃ rule, t.resolve ⟨domain, topic, condition⟩ = some rule ∧ rule.vocabulary? = some name) ↔
      (domain, topic) ∈ name.filters ∧ condition ∈ listConditions := by
  simp only [standard_resolve h]
  constructor
  · rintro ⟨_, ⟨r, hr, rfl, hcondition, rfl⟩, hname⟩
    obtain ⟨hfilter, hconditions⟩ := domain.filters_standardRules r hr name hname
    exact ⟨hfilter, hconditions ▸ hcondition⟩
  · rintro ⟨hfilter, hcondition⟩
    obtain ⟨r, hr, htopic, hconditions, hname⟩ := name.exists_standardRule _ hfilter
    exact ⟨r.rule, ⟨r, hr, htopic, hconditions ▸ hcondition, rfl⟩, hname⟩

/-- The filters of a vocabulary are those whose rules look for its members. Such a rule, for any
user, takes some members as they are written exactly if all of them are bare. It rejects them if
none, when it is trimmed, is a member or asks for the lack of a value, and then the policy of the
vocabulary holds, unless all of them are blank. A member that is not bare is bound by no value at
all. -/
theorem vocabulary_values_usable {c : Compiler} (h : c.Lawful) (user : Option Int64)
    (name : VocabularyName) (domain : Domain) (topic : Topic) (condition : Condition) :
    ((∃ rule, c.table.resolve ⟨domain, topic, condition⟩ = some rule ∧
        rule.vocabulary? = some name) ↔
      (domain, topic) ∈ name.filters ∧ condition ∈ listConditions) ∧
    ∀ rule, c.table.resolve ⟨domain, topic, condition⟩ = some rule →
      rule.vocabulary? = some name →
      (∀ values, values ≠ [] →
        (∀ v ∈ values, (c.config.vocabularies.get name).contains v = true) →
        (rule.TakesAsWritten (c.context user) condition name values ↔
          ∀ v ∈ values, Text.IsBare v)) ∧
      (∀ values, (∃ rejection,
          rule.apply (c.context user) condition (.many values) = .error rejection) ↔
        ∀ v ∈ values, name.meansUnset (Text.trim v) = false ∧
          (Text.trim v = "" ∨
            (c.config.vocabularies.get name).contains (Text.trim v) = false)) ∧
      (∀ value rejection, rule.apply (c.context user) condition value = .error rejection →
        rejection.policy = if value.trimmed.isEmpty then .ignore
          else (c.config.vocabularies.get name).onReject) ∧
      ∀ v, ¬ Text.IsBare v → ∀ value a,
        rule.apply (c.context user) condition value = .ok a → v ∉ a.predicate.boundTexts := by
  refine ⟨RuleTable.standard_vocabulary_iff h.table, fun rule hrule hname => ?_⟩
  obtain ⟨r, hr, -, -, rfl⟩ := (RuleTable.standard_resolve h.table).1 hrule
  have hconsults := Rule.consults_of_properly (domain.consults_standardRules r hr) hname
    (c.context user) condition
  exact ⟨fun values hsome hin => hconsults.takesAsWritten_iff hsome hin,
    fun values => hconsults.rejects_iff, fun value rejection => hconsults.policy,
    fun v hbare value a ha hbound => hbare (hconsults.isBare_of_bound ha hbound)⟩

/-! ## A vocabulary with a padded member -/

/-- A configuration without faults may have any vocabularies that are not empty. -/
theorem Config.fault?_vocabularies {config : Config} (h : config.fault? = none) {v : Vocabularies}
    (hsome : ∀ name, (v.get name).values.isEmpty = false) :
    Config.fault? { config with vocabularies := v } = none := by
  have hvalues : (VocabularyName.all.find? fun name => (v.get name).values.isEmpty) = none := by
    simp [hsome]
  unfold Config.fault? at h ⊢
  split at h
  case isTrue => cases h
  next hformat =>
    split at h
    case isTrue => cases h
    next hhyphen =>
      split at h
      case h_1 => cases h
      next hkeys =>
        dsimp only
        rw [if_neg hformat, if_neg hhyphen, hkeys, hvalues]
        rfl

/-- The common configuration with a blank before one of the reasons, and with the status that asks
for the lack of one in letters of its own. -/
def Config.padded : Config :=
  { Config.common with
    vocabularies :=
      { Vocabularies.common with
        reasons := ⟨OrderedSet.ofList [" Complaint", "New Staff"], .matchNothing⟩
        goalStatuses := ⟨OrderedSet.ofList ["Closed", "NEEDS status"], .ignore⟩ } }

/-- The configuration has no faults. -/
theorem Config.fault?_padded : Config.padded.fault? = none := by
  refine Config.fault?_vocabularies Config.fault?_common fun name => ?_
  cases name <;> exact OrderedSet.isEmpty_ofList_cons _ _

/-- Two statuses are taken as they are written, one of them as a test for the lack of a status. Two
reasons are not taken so, since one of them is not bare, though they are not rejected. That one is
rejected when it is alone, under the policy of the vocabulary. -/
theorem paddedMembers_usable :
    ∃ c status reason, Compiler.ofConfig .padded = .ok c ∧
      c.table.resolve ⟨.goal, .status, .noneOf⟩ = some status ∧
      status.TakesAsWritten (c.context (some 7)) .noneOf .goalStatuses ["NEEDS status", "Closed"] ∧
      c.table.resolve ⟨.activityReport, .reason, .oneOf⟩ = some reason ∧
      ¬ reason.TakesAsWritten (c.context none) .oneOf .reasons ["New Staff", " Complaint"] ∧
      (¬ ∃ rejection, reason.apply (c.context none) .oneOf (.many ["New Staff", " Complaint"]) =
        .error rejection) ∧
      ∃ rejection, reason.apply (c.context none) .oneOf (.many [" Complaint"]) = .error rejection ∧
        rejection.policy = .matchNothing := by
  obtain ⟨c, hc, hconfig⟩ := Compiler.exists_ofConfig Config.fault?_padded rfl
  have hlawful := (Compiler.lawful_ofConfig hc).1
  obtain ⟨hresolve, hstatuses⟩ :=
    vocabulary_values_usable hlawful (some 7) .goalStatuses .goal .status .noneOf
  obtain ⟨hresolve', hreasons⟩ :=
    vocabulary_values_usable hlawful none .reasons .activityReport .reason .oneOf
  obtain ⟨status, hstatus, hname⟩ := hresolve.2 (by decide)
  obtain ⟨reason, hreason, hname'⟩ := hresolve'.2 (by decide)
  obtain ⟨hwritten, -⟩ := hstatuses status hstatus hname
  obtain ⟨hwritten', hrejects, hpolicy, -⟩ := hreasons reason hreason hname'
  rw [hconfig] at hwritten hwritten' hrejects hpolicy
  obtain ⟨rejection, hrejection⟩ := (hrejects [" Complaint"]).2 (by decide +kernel)
  refine ⟨c, status, reason, hc, hstatus, ?_, hreason, ?_, ?_, rejection, hrejection, ?_⟩
  · exact (hwritten _ (by decide) (by decide +kernel)).2 (by decide)
  · exact mt (hwritten' _ (by decide) (by decide +kernel)).1 (by decide)
  · exact mt (hrejects _).1 (by decide +kernel)
  · rw [hpolicy _ _ hrejection]
    decide +kernel

/-- A reason with a blank before it is a member of its vocabulary in a configuration that is
accepted. A filter for it alone is rejected as outside of the vocabulary, and hides all reports. -/
theorem paddedReason_rejected :
    ∃ c rule, Config.padded.validate = .ok () ∧ Compiler.ofConfig .padded = .ok c ∧
      (c.config.vocabularies.get .reasons).contains " Complaint" = true ∧
      c.table.resolve ⟨.activityReport, .reason, .oneOf⟩ = some rule ∧
      rule.vocabulary? = some .reasons ∧
      rule.apply (c.context none) .oneOf (.many [" Complaint"]) =
        .error ⟨⟨.notInVocabulary, 1⟩, .matchNothing⟩ ∧
      c.compileDomain .activityReport
        (.only (FilterKey.named .reason .oneOf, .many [" Complaint"])) none = .ok ⟨.never, []⟩ := by
  obtain ⟨c, hc, hconfig⟩ := Compiler.exists_ofConfig Config.fault?_padded rfl
  have hvalid : Config.padded.validate = .ok () := by
    rw [Config.validate, Config.fault?_padded]
  have hrule : c.table.resolve ⟨.activityReport, .reason, .oneOf⟩ =
      some (.member .reasons [.many .report "reason"]) := by
    rw [RuleTable.standard_resolve (Compiler.lawful_ofConfig hc).1.table]
    exact ⟨⟨.reason, listConditions, _⟩,
      by simp [Domain.standardRules, activityReportRules, Rule.member], rfl, by decide, rfl⟩
  have hadmitted : (Config.padded.vocabularies.get .reasons).admitted (.many [" Complaint"]) =
      .error ⟨⟨.notInVocabulary, 1⟩, .matchNothing⟩ := by
    decide +kernel
  have happly : (Rule.member .reasons [.many .report "reason"]).apply (c.context none) .oneOf
      (.many [" Complaint"]) = .error ⟨⟨.notInVocabulary, 1⟩, .matchNothing⟩ := by
    rw [Rule.member, Rule.apply, Criterion.targets, Compiler.context, hconfig, hadmitted]
    rfl
  have hmandatory : c.config.isMandatory (FilterKey.named .reason .oneOf) = false := by
    rw [hconfig]
    rfl
  refine ⟨c, _, hvalid, hc, ?_, hrule, rfl, happly, ?_⟩
  · rw [hconfig]
    decide +kernel
  · have hfilter : c.rule? .activityReport (FilterKey.named .reason .oneOf) =
        some (.oneOf, .member .reasons [.many .report "reason"]) := by
      rw [Compiler.rule?_named, hrule]
      rfl
    exact Compiler.compileDomain_contribution (Compiler.contribution_eq_some.2
      ⟨.oneOf, _, hfilter, .inr ⟨_, happly, hmandatory, rfl, rfl⟩⟩)

end RowScope
