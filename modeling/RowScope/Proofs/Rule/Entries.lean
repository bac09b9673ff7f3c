import RowScope.Proofs.Filter.Readings
import RowScope.Proofs.OrderedMap
import RowScope.Proofs.Rule.Targets

/-!
# Rules read text by text

A list of texts means what its texts mean one by one (`ReadByText`): it is taken if one of its texts
is taken alone, and a row is reached by what it gives if the row is reached by what one of these
texts gives. Every criterion is read so under a condition without dates
(`Criterion.readByText`), for all its ways to bring several texts into one condition.
-/

namespace RowScope

variable {α β ε : Type}

/-! ## Conditions with alternatives -/

/-- A condition on the terminal row with some alternatives is met if one of the alternatives is. -/
def Splits (p : RelationPath) (v : List α → Predicate) : Prop :=
  ∀ (db : Database) (part : Option Row) (xs : List α),
    db.Meets [(p.terminalAlias, part)] (v xs) ↔
      ∃ x ∈ xs, db.Meets [(p.terminalAlias, part)] (v [x])

/-- Some image of a list has a property if the image of some member has it. -/
theorem exists_mem_map {f : α → β} {xs : List α} {P : β → Prop} :
    (∃ y ∈ xs.map f, P y) ↔ ∃ x ∈ xs, P (f x) := by
  induction xs <;> simp_all

section Alternatives

variable {p : RelationPath} {column : String}

/-- A disjunction of comparisons splits into them. -/
theorem splits_disj (a : α → Predicate) (h : ∀ x, Reads (p, a x)) :
    Splits p fun xs => .disj (xs.map a) := by
  intro db part xs
  have heval : ∀ xs : List α, ∀ q ∈ xs.map a, db.Evaluates [(p.terminalAlias, part)] q := by
    intro xs q hq
    obtain ⟨x, -, rfl⟩ := List.mem_map.1 hq
    exact (h x).evaluates db part
  simp only [Database.meets_disj (heval _), exists_mem_map]
  simp

/-- A row meets the membership in a list of values if its value equals one of them. -/
theorem meets_among {db : Database} {row : JoinedRow} {c : ColumnRef}
    (hc : c.aliasName ∈ row.aliases) (values : List Value) :
    db.Meets row (c.among values) ↔
      ∃ v ∈ values, CompareOp.eq.truth (row.read c) v = some true := by
  have hread := JoinedRow.value_eq_read hc
  unfold ColumnRef.among Database.Meets
  split
  · rw [Database.truth_equals, hread]
    simp [bind, Except.bind, pure, Except.pure]
  · rw [Database.truth_oneOf, hread]
    simp [bind, Except.bind, pure, Except.pure, Truth.any_eq_true]

/-- Membership in a list of values splits into equalities. -/
theorem splits_among (f : α → Value) :
    Splits p fun xs => (p.terminalColumn column).among (xs.map f) := by
  intro db part xs
  have hbound : (p.terminalColumn column).aliasName ∈
      JoinedRow.aliases [(p.terminalAlias, part)] := List.mem_singleton_self p.terminalAlias
  simp only [meets_among hbound, exists_mem_map]
  simp

/-- Overlap with a list of texts splits into overlaps with one. -/
theorem splits_overlaps : Splits p fun xs => .overlaps (p.terminalColumn column) xs := by
  intro db part xs
  have hbound : (p.terminalColumn column).aliasName ∈
      JoinedRow.aliases [(p.terminalAlias, part)] := List.mem_singleton_self p.terminalAlias
  have hmeets : ∀ texts : List String,
      db.Meets [(p.terminalAlias, part)] (.overlaps (p.terminalColumn column) texts) ↔
        Database.overlapTruth texts
          (JoinedRow.read [(p.terminalAlias, part)] (p.terminalColumn column)) = some true := by
    intro texts
    unfold Database.Meets
    rw [Database.truth_overlaps, JoinedRow.value_eq_read hbound]
    simp [bind, Except.bind, pure, Except.pure]
  simp only [hmeets]
  -- Only an array shares elements with a list, and any other value makes both sides false.
  cases JoinedRow.read [(p.terminalAlias, part)] (p.terminalColumn column) <;>
    simp [Database.overlapTruth]
  constructor
  · rintro ⟨t, ht, hx⟩
    exact ⟨t, hx, ht⟩
  · rintro ⟨t, hx, ht⟩
    exact ⟨t, ht, hx⟩

/-- Lists with the same members stand for the same alternatives. -/
theorem Splits.of_same_members {v : List α → Predicate} (h : Splits p v) {list : List α → List α}
    (hlist : ∀ (xs : List α) (x : α), x ∈ list xs ↔ x ∈ xs) : Splits p fun xs => v (list xs) := by
  intro db part xs
  have hlists : ∀ xs, db.Meets [(p.terminalAlias, part)] (v (list xs)) ↔
      ∃ x ∈ xs, db.Meets [(p.terminalAlias, part)] (v [x]) := by
    intro xs
    rw [h db part (list xs)]
    simp only [hlist]
  simp only [hlists]
  simp

/-- The visibility of a group does not concern the alternatives. -/
theorem splits_visibleGroup {user : Option Int64} {v : List α → Predicate} (h : Splits p v)
    (hv : ∀ xs, Reads (p, v xs)) : Splits p fun xs => visibleGroup p user (v xs) := by
  intro db part xs
  simp only [meets_visibleGroup (hv _)]
  rw [h db part xs]
  -- The visibility is the same for all alternatives, so it comes out of them.
  constructor
  · rintro ⟨⟨x, hx, hm⟩, hvisible⟩
    exact ⟨x, hx, hm, hvisible⟩
  · rintro ⟨x, hx, hm, hvisible⟩
    exact ⟨⟨x, hx, hm⟩, hvisible⟩

/-- Having one of some texts splits into having one. -/
theorem splits_hasText (f : Field) (paths : ReadPaths) :
    Splits (paths.get f.path) fun texts => (f.hasText paths texts).2 := by
  unfold Field.hasText Field.target
  cases f.shape with
  | single => exact splits_among Value.text
  | array => exact splits_overlaps

end Alternatives

/-- A row that a path leads to meets a condition with alternatives if it meets one of them. -/
theorem Splits.reaches {p : RelationPath} {v : List α → Predicate} (h : Splits p v) (db : Database)
    (r : Row) (xs : List α) : db.Reaches (p, v xs) r ↔ ∃ x ∈ xs, db.Reaches (p, v [x]) r := by
  unfold Database.Reaches
  simp only [h db _ xs]
  constructor
  · rintro ⟨last, hlast, x, hx, hm⟩
    exact ⟨x, hx, last, hlast, hm⟩
  · rintro ⟨x, hx, last, hlast, hm⟩
    exact ⟨last, hlast, x, hx, hm⟩

/-! ## Values and their texts -/

/-- A value means what its texts mean one by one. -/
structure ReadByText (targets : FilterValue → Except Rejection (List (RelationPath × Predicate))) :
    Prop where
  /-- The value is taken if one of its texts is taken alone. -/
  accepts : ∀ value, (∃ ts, targets value = .ok ts) ↔
    ∃ e ∈ value.entries, ∃ us, targets (.single e) = .ok us
  /-- The value reaches a row if one of its texts does alone. -/
  reaches : ∀ {value ts}, targets value = .ok ts → ∀ (db : Database) (r : Row),
    (∃ t ∈ ts, db.Reaches t r) ↔
      ∃ e ∈ value.entries, ∃ us, targets (.single e) = .ok us ∧ ∃ u ∈ us, db.Reaches u r

variable {targets : FilterValue → Except Rejection (List (RelationPath × Predicate))}

/-- A value means what its texts mean one by one if each of them has a reading by itself, which says
what it reaches. -/
theorem readByText_of_reading (reading : String → Option β) (hit : β → Database → Row → Prop)
    (haccepts : ∀ value, (∃ ts, targets value = .ok ts) ↔
      ∃ e ∈ value.entries, ∃ x, reading e = some x)
    (hreaches : ∀ value ts, targets value = .ok ts → ∀ (db : Database) (r : Row),
      (∃ t ∈ ts, db.Reaches t r) ↔ ∃ e ∈ value.entries, ∃ x, reading e = some x ∧ hit x db r) :
    ReadByText targets := by
  -- What holds of some text of a single text holds of that text.
  have haccepts' : ∀ e, (∃ us, targets (.single e) = .ok us) ↔ ∃ x, reading e = some x := by
    intro e
    rw [haccepts]
    simp [FilterValue.entries]
  have hreaches' : ∀ e us, targets (.single e) = .ok us → ∀ (db : Database) (r : Row),
      (∃ u ∈ us, db.Reaches u r) ↔ ∃ x, reading e = some x ∧ hit x db r := by
    intro e us hus db r
    rw [hreaches _ us hus]
    simp [FilterValue.entries]
  constructor
  · intro value
    rw [haccepts value]
    simp only [haccepts']
  · intro value ts hts db r
    rw [hreaches value ts hts]
    constructor
    · rintro ⟨e, he, x, hx, hhit⟩
      obtain ⟨us, hus⟩ := (haccepts' e).2 ⟨x, hx⟩
      exact ⟨e, he, us, hus, (hreaches' e us hus db r).2 ⟨x, hx, hhit⟩⟩
    · rintro ⟨e, he, us, hus, hreach⟩
      exact ⟨e, he, (hreaches' e us hus db r).1 hreach⟩

/-- Alternatives that are read text by text, on some fields, mean what they mean one by one. -/
theorem readByText_of_readsEach {read : FilterValue → Except Rejection (List α)}
    {reading : String → Option α} (hread : ReadsEach read reading) (fields : List Field)
    (path : Field → RelationPath) (v : Field → List α → Predicate)
    (hsplits : ∀ f, Splits (path f) (v f)) :
    ReadByText fun value => do
      let xs ← read value
      return fields.map fun f => (path f, v f xs) := by
  apply readByText_of_reading reading fun x db r => ∃ f ∈ fields, db.Reaches (path f, v f [x]) r
  · intro value
    rw [← hread.accepts value]
    constructor
    · rintro ⟨ts, hts⟩
      obtain ⟨xs, hxs, -⟩ := Traversal.bind_eq_ok.1 hts
      exact ⟨xs, hxs⟩
    · rintro ⟨xs, hxs⟩
      exact ⟨_, Traversal.bind_eq_ok.2 ⟨xs, hxs, rfl⟩⟩
  · intro value ts hts db r
    obtain ⟨xs, hxs, h⟩ := Traversal.bind_eq_ok.1 hts
    cases h
    rw [exists_mem_map]
    simp only [(hsplits _).reaches db r xs]
    -- Fields and alternatives change places.
    constructor
    · rintro ⟨f, hf, x, hx, hreach⟩
      obtain ⟨e, he, hreading⟩ := (hread.mem hxs x).1 hx
      exact ⟨e, he, x, hreading, f, hf, hreach⟩
    · rintro ⟨e, he, x, hreading, f, hf, hreach⟩
      exact ⟨f, hf, x, (hread.mem hxs x).2 ⟨e, he, hreading⟩, hreach⟩

/-- Where nothing is taken, there is nothing to mean. -/
theorem readByText_of_rejected (h : ∀ value ts, targets value ≠ .ok ts) : ReadByText targets where
  accepts value := by simp [h]
  reaches hts := absurd hts (h _ _)

/-! ## Criteria -/

section Criteria

variable {ctx : RuleContext}

/-- A condition without dates takes no value for dates. -/
theorem dates_rejected {condition : Condition} (h : condition.isDated = false) (format : String)
    (value : FilterValue) (window : DateWindow) : value.dates condition format ≠ .ok window := by
  unfold FilterValue.dates
  simp only [readWindow_of_undated h]
  intro hok
  obtain ⟨texts, -, hok⟩ := Traversal.bind_eq_ok.1 hok
  cases texts <;> cases hok

/-- The parts of a user that a text is the name of. -/
def partsNamed (parts : List (String × Field)) (e : String) : List (String × Field) :=
  parts.filter fun part => Text.sameLetters (Text.trim e) part.1

/-- The rows of a part of a user. -/
def partTarget (ctx : RuleContext) (id : Int64) (part : String × Field) :
    RelationPath × Predicate :=
  part.2.target ctx.paths fun column => .equals column (.int id)

/-- A value names a part if one of its texts does. -/
theorem mem_partsNamed {value : FilterValue} {parts : List (String × Field)}
    {part : String × Field} :
    part ∈ parts.filter (fun part => value.hasName part.1) ↔
      ∃ e ∈ value.entries, part ∈ partsNamed parts e := by
  simp only [partsNamed, List.mem_filter, FilterValue.hasName, List.any_eq_true]
  constructor
  · rintro ⟨hpart, e, he, hname⟩
    exact ⟨e, he, hpart, hname⟩
  · rintro ⟨e, he, hpart, hname⟩
    exact ⟨hpart, e, he, hname⟩

/-- A value is taken for a known user if it names some parts, and asks for the user in them. -/
theorem targets_user_eq_ok {condition : Condition} {id : Int64} (huser : ctx.user = some id)
    {value : FilterValue} {parts : List (String × Field)} {ts : List (RelationPath × Predicate)} :
    Criterion.targets ctx condition value (.user parts) = .ok ts ↔
      (parts.filter fun part => value.hasName part.1) ≠ [] ∧
        ts = (parts.filter fun part => value.hasName part.1).map (partTarget ctx id) := by
  rw [Criterion.targets, huser]
  cases parts.filter fun part => value.hasName part.1 with
  | nil => simp
  | cons first others =>
    show Except.ok ((first :: others).map (partTarget ctx id)) = .ok ts ↔ _
    simp [eq_comm]

/-- The parts of a user are named text by text. -/
theorem readByText_user (condition : Condition) (parts : List (String × Field)) :
    ReadByText fun value => Criterion.targets ctx condition value (.user parts) := by
  cases huser : ctx.user with
  | none =>
    apply readByText_of_rejected
    intro value ts h
    rw [Criterion.targets, huser] at h
    cases h
  | some id =>
    -- A text that names no part is not taken.
    apply readByText_of_reading
      (fun e => if partsNamed parts e = [] then none else some (partsNamed parts e))
      fun found db r => ∃ part ∈ found, db.Reaches (partTarget ctx id part) r
    · intro value
      simp only [targets_user_eq_ok huser, exists_and_left, exists_eq, and_true]
      constructor
      · intro hne
        obtain ⟨part, hpart⟩ := List.exists_mem_of_ne_nil _ hne
        obtain ⟨e, he, hnamed⟩ := mem_partsNamed.1 hpart
        exact ⟨e, he, partsNamed parts e, if_neg (List.ne_nil_of_mem hnamed)⟩
      · rintro ⟨e, he, found, hfound⟩
        split at hfound
        · cases hfound
        · next hne =>
          obtain ⟨part, hpart⟩ := List.exists_mem_of_ne_nil _ hne
          exact List.ne_nil_of_mem (mem_partsNamed.2 ⟨e, he, hpart⟩)
    · intro value ts hts db r
      obtain ⟨-, rfl⟩ := (targets_user_eq_ok huser).1 hts
      rw [exists_mem_map]
      constructor
      · rintro ⟨part, hpart, hreach⟩
        obtain ⟨e, he, hnamed⟩ := mem_partsNamed.1 hpart
        exact ⟨e, he, partsNamed parts e, if_neg (List.ne_nil_of_mem hnamed), part, hnamed,
          hreach⟩
      · rintro ⟨e, he, found, hfound, part, hpart, hreach⟩
        split at hfound
        · cases hfound
        · cases hfound
          exact ⟨part, mem_partsNamed.2 ⟨e, he, hpart⟩, hreach⟩

/-! A status may be missing, and a text may ask for that. -/

section MissingStatus

variable {f : Field} {vocabulary : Vocabulary} {unset : String} {value : FilterValue}

/-- A value is taken if it asks for the lack of a status or names one. -/
theorem hasTextOrNothing_accepts :
    (∃ t, f.hasTextOrNothing ctx vocabulary unset value = .ok t) ↔
      value.hasName unset = true ∨
        ∃ texts, vocabulary.admitted (value.without unset) = .ok texts := by
  unfold Field.hasTextOrNothing
  split
  · next hname => simp [hname]
  · next hname =>
    simp only [Traversal.map_eq_ok, hname, Bool.false_eq_true, false_or]
    constructor
    · rintro ⟨t, texts, htexts, -⟩
      exact ⟨texts, htexts⟩
    · rintro ⟨texts, htexts⟩
      exact ⟨_, texts, htexts, rfl⟩

/-- A disjunction of conditions that evaluate at every terminal row reaches what they reach. -/
theorem Database.reaches_disj {db : Database} {p : RelationPath} {parts : List Predicate}
    (h : ∀ part, ∀ q ∈ parts, db.Evaluates [(p.terminalAlias, part)] q) (r : Row) :
    db.Reaches (p, .disj parts) r ↔ ∃ q ∈ parts, db.Reaches (p, q) r := by
  unfold Database.Reaches
  simp only [Database.meets_disj (h _)]
  constructor
  · rintro ⟨last, hlast, q, hq, hmeets⟩
    exact ⟨q, hq, last, hlast, hmeets⟩
  · rintro ⟨q, hq, last, hlast, hmeets⟩
    exact ⟨last, hlast, q, hq, hmeets⟩

/-- A row is reached if its status is missing and the value asks for that, or if it has one of the
statuses that the value names. -/
theorem hasTextOrNothing_reaches {t : RelationPath × Predicate}
    (h : f.hasTextOrNothing ctx vocabulary unset value = .ok t) (db : Database) (r : Row) :
    db.Reaches t r ↔
      (value.hasName unset = true ∧
        db.Reaches (ctx.paths.get f.path, .isNull (f.columnRef ctx.paths)) r) ∨
      ∃ texts, vocabulary.admitted (value.without unset) = .ok texts ∧
        db.Reaches (ctx.paths.get f.path, (f.columnRef ctx.paths).amongTexts texts) r := by
  obtain ⟨p, v⟩ := t
  obtain ⟨rfl, ⟨hname, hnone, rfl⟩ | ⟨texts, htexts, ⟨hname, rfl⟩ | ⟨hname, rfl⟩⟩⟩ :=
    f.hasTextOrNothing_cases h
  · -- The texts beside the one that asks for the lack of a status may all be unusable.
    simp only [hname, hnone, true_and, false_and, exists_false, or_false]
  · simp only [hname, htexts, true_and, Except.ok.injEq, exists_eq_left']
    rw [Database.reaches_disj]
    · simp
    · intro part q hq
      rcases List.mem_cons.1 hq with rfl | hq
      · refine Database.evaluates_of_columns (fun c hc => ?_) fun s hs => ?_
        · rw [List.mem_singleton.1 hc]
          exact List.mem_singleton_self _
        · exact absurd hs List.not_mem_nil
      · rw [List.mem_singleton.1 hq]
        exact (reads_among _).evaluates db part
  · simp only [hname, htexts, Bool.false_eq_true, false_and, false_or, Except.ok.injEq,
      exists_eq_left']

/-- Whether a text asks for the lack of a status. -/
def asksUnset (unset e : String) : Bool := Text.sameLetters (Text.trim e) unset

/-- A root row with a row at the end of a field's path that has a text or, for none, lacks one. -/
def Field.ReachesStatus (f : Field) (ctx : RuleContext) (db : Database) (r : Row) :
    Option String → Prop
  | none => db.Reaches (ctx.paths.get f.path, .isNull (f.columnRef ctx.paths)) r
  | some text => db.Reaches (ctx.paths.get f.path, (f.columnRef ctx.paths).amongTexts [text]) r

/-- What is left of a value has the texts that do not ask for the lack of a status. -/
theorem mem_without {e : String} :
    e ∈ (value.without unset).entries ↔ e ∈ value.entries ∧ asksUnset unset e = false := by
  simp [FilterValue.without, FilterValue.entries, asksUnset]

/-- A value is taken for a status if its field takes it, and asks what the field asks. -/
theorem targets_memberOrUnset_eq_ok {condition : Condition} {name : VocabularyName}
    {ts : List (RelationPath × Predicate)} :
    Criterion.targets ctx condition value (.memberOrUnset name unset f) = .ok ts ↔
      ∃ t, f.hasTextOrNothing ctx (ctx.config.vocabularies.get name) unset value = .ok t ∧
        ts = [t] := by
  rw [Criterion.targets, Traversal.bind_eq_ok]
  constructor
  · rintro ⟨t, ht, h⟩
    cases h
    exact ⟨t, ht, rfl⟩
  · rintro ⟨t, ht, rfl⟩
    exact ⟨t, ht, rfl⟩

/-- What a text asks of a status: the lack of one, or a member of a vocabulary. A text that asks for
the lack is not looked for in the vocabulary. -/
def statusReading (vocabulary : Vocabulary) (unset e : String) : Option (Option String) :=
  if asksUnset unset e = true then some none else (memberOf vocabulary e).map some

/-- A value has the text that asks for the lack of a status if one of its texts asks for it. -/
theorem hasName_iff_asksUnset :
    value.hasName unset = true ↔ ∃ e ∈ value.entries, asksUnset unset e = true :=
  List.any_eq_true

/-- A value is taken for a status if one of its texts asks for something. -/
theorem targets_memberOrUnset_accepts {condition : Condition} {name : VocabularyName} :
    (∃ ts, Criterion.targets ctx condition value (.memberOrUnset name unset f) = .ok ts) ↔
      ∃ e ∈ value.entries, ∃ x,
        statusReading (ctx.config.vocabularies.get name) unset e = some x := by
  have htaken : (∃ ts, Criterion.targets ctx condition value (.memberOrUnset name unset f) =
      .ok ts) ↔
        ∃ t, f.hasTextOrNothing ctx (ctx.config.vocabularies.get name) unset value = .ok t := by
    simp only [targets_memberOrUnset_eq_ok]
    constructor
    · rintro ⟨ts, t, ht, -⟩
      exact ⟨t, ht⟩
    · rintro ⟨t, ht⟩
      exact ⟨[t], t, ht, rfl⟩
  rw [htaken, hasTextOrNothing_accepts, hasName_iff_asksUnset, (readsEach_admitted _).accepts]
  unfold statusReading
  constructor
  · rintro (⟨e, he, hunset⟩ | ⟨e, he, text, htext⟩)
    · exact ⟨e, he, none, if_pos hunset⟩
    · obtain ⟨he, hunset⟩ := mem_without.1 he
      exact ⟨e, he, some text, by simp [hunset, htext]⟩
  · rintro ⟨e, he, x, hx⟩
    cases hunset : asksUnset unset e with
    | true => exact .inl ⟨e, he, hunset⟩
    | false =>
      simp only [hunset, Bool.false_eq_true, if_false, Option.map_eq_some_iff] at hx
      obtain ⟨text, htext, -⟩ := hx
      exact .inr ⟨e, mem_without.2 ⟨he, hunset⟩, text, htext⟩

/-- Statuses and the lack of one are named text by text. -/
theorem readByText_memberOrUnset (condition : Condition) (name : VocabularyName) (unset : String)
    (f : Field) : ReadByText fun value =>
      Criterion.targets ctx condition value (.memberOrUnset name unset f) := by
  have hadmitted := readsEach_admitted (ctx.config.vocabularies.get name)
  apply readByText_of_reading (statusReading (ctx.config.vocabularies.get name) unset)
    fun x db r => f.ReachesStatus ctx db r x
  · exact fun value => targets_memberOrUnset_accepts
  · intro value ts hts db r
    obtain ⟨t, ht, rfl⟩ := targets_memberOrUnset_eq_ok.1 hts
    have hsplits : Splits (ctx.paths.get f.path) (f.columnRef ctx.paths).amongTexts :=
      splits_among Value.text
    have hone : (∃ u ∈ [t], db.Reaches u r) ↔ db.Reaches t r := by simp
    rw [hone, hasTextOrNothing_reaches ht, hasName_iff_asksUnset]
    unfold statusReading
    constructor
    · rintro (⟨⟨e, he, hunset⟩, hreach⟩ | ⟨texts, htexts, hreach⟩)
      · exact ⟨e, he, none, if_pos hunset, hreach⟩
      · obtain ⟨text, htext, hreach⟩ := (hsplits.reaches db r texts).1 hreach
        obtain ⟨e, he, hmember⟩ := (hadmitted.mem htexts text).1 htext
        obtain ⟨he, hunset⟩ := mem_without.1 he
        exact ⟨e, he, some text, by simp [hunset, hmember], hreach⟩
    · rintro ⟨e, he, x, hx, hreach⟩
      cases hunset : asksUnset unset e with
      | true =>
        simp only [hunset, if_true, Option.some.injEq] at hx
        subst hx
        exact .inl ⟨⟨e, he, hunset⟩, hreach⟩
      | false =>
        simp only [hunset, Bool.false_eq_true, if_false, Option.map_eq_some_iff] at hx
        obtain ⟨text, hmember, rfl⟩ := hx
        have hwithin : e ∈ (value.without unset).entries := mem_without.2 ⟨he, hunset⟩
        obtain ⟨texts, htexts⟩ := (hadmitted.accepts _).2 ⟨e, hwithin, text, hmember⟩
        refine .inr ⟨texts, htexts, (hsplits.reaches db r texts).2 ⟨text, ?_, hreach⟩⟩
        exact (hadmitted.mem htexts text).2 ⟨e, hwithin, hmember⟩

end MissingStatus

/-- Under a condition without dates, every criterion takes a value for what its texts mean one by
one. -/
theorem Criterion.readByText (ctx : RuleContext) {condition : Condition}
    (h : condition.isDated = false) (criterion : Criterion) :
    ReadByText fun value => criterion.targets ctx condition value := by
  -- A case states how the values are read, on which fields, and why the condition splits.
  cases criterion with
  | contains fields =>
    exact readByText_of_readsEach
      ((readsEach_patterns ctx.config.escapeWildcards).mapError Rejection.ignored) fields
      (fun f => ctx.paths.get f.path) (fun f patterns => (f.columnRef ctx.paths).likeAny patterns)
      fun f => splits_disj _ fun _ => reads_comparison rfl
  | integer field =>
    exact readByText_of_readsEach (readsEach_integers.mapError Rejection.ignored) [field]
      (fun f => ctx.paths.get f.path)
      (fun f integers => (f.columnRef ctx.paths).amongInts integers) fun f => splits_among Value.int
  | text field =>
    exact readByText_of_readsEach (readsEach_exactTexts.mapError Rejection.ignored) [field]
      (fun f => ctx.paths.get f.path) (fun f texts => (f.hasText ctx.paths texts).2)
      fun f => splits_hasText f ctx.paths
  | member name fields =>
    exact readByText_of_readsEach (readsEach_admitted (ctx.config.vocabularies.get name)) fields
      (fun f => ctx.paths.get f.path) (fun f texts => (f.hasText ctx.paths texts).2)
      fun f => splits_hasText f ctx.paths
  | memberOrUnset name unset field => exact readByText_memberOrUnset condition name unset field
  | date field =>
    apply readByText_of_rejected
    intro value ts hok
    obtain ⟨window, hwindow, -⟩ := Traversal.bind_eq_ok.1 hok
    exact dates_rejected h _ value window (Traversal.mapError_eq_ok.1 hwindow)
  | period first last =>
    apply readByText_of_rejected
    intro value ts hok
    obtain ⟨window, hwindow, -⟩ := Traversal.bind_eq_ok.1 hok
    exact dates_rejected h _ value window (Traversal.mapError_eq_ok.1 hwindow)
  | groupInteger field =>
    exact readByText_of_readsEach (readsEach_integers.mapError Rejection.ignored) [field]
      (fun f => ctx.paths.get f.path)
      (fun f integers => visibleGroup (ctx.paths.get f.path) ctx.user
        ((f.columnRef ctx.paths).amongInts integers))
      fun f => splits_visibleGroup (splits_among Value.int) fun _ => reads_among _
  | groupText field =>
    exact readByText_of_readsEach (readsEach_exactTexts.mapError Rejection.ignored) [field]
      (fun f => ctx.paths.get f.path)
      (fun f texts => visibleGroup (ctx.paths.get f.path) ctx.user
        ((f.columnRef ctx.paths).amongTexts texts))
      fun f => splits_visibleGroup (splits_among Value.text) fun _ => reads_among _
  | user parts => exact readByText_user condition parts
  | combination field parts =>
    exact readByText_of_readsEach (readsEach_meanings (combination? parts)) [field]
      (fun f => ctx.paths.get f.path)
      (fun f combinations => .disj ((distinct [] combinations).map
        (Predicate.sameElements (f.columnRef ctx.paths))))
      fun f => (splits_disj _ fun _ => reads_comparison rfl).of_same_members
        fun _ _ => mem_distinct_nil
  | flag field flags =>
    exact readByText_of_readsEach (readsEach_meanings (meaning? flags)) [field]
      (fun f => ctx.paths.get f.path)
      (fun f found => (f.columnRef ctx.paths).amongTexts (OrderedSet.ofList found).toList)
      fun f => (splits_among Value.text).of_same_members
        fun _ _ => OrderedSet.mem_toList_ofList

end Criteria

end RowScope
