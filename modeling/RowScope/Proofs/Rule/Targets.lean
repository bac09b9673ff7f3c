import RowScope.Proofs.Association.Inspects
import RowScope.Proofs.Filter.Readings
import RowScope.Proofs.Relation.ReadPath

/-!
# What a rule reads

The conditions that a criterion states are built from comparisons of its columns, at the end of its
fields' paths, whatever the value of the filter is (`Criterion.inspects_targets`). They are
conditions on the rows there (`Criterion.reads_targets`), so those of a rule whose fields all begin
at one root table are sound conditions on that table (`Criterion.serves_targets`).
-/

namespace RowScope

/-! ## Comparisons of terminal columns -/

section Comparisons

variable {p : RelationPath} {read : String → Prop} {column : String}

/-- A search for patterns compares one column. -/
theorem inspects_likeAny (h : read column) (patterns : List String) :
    Inspects p read ((p.terminalColumn column).likeAny patterns) := by
  apply Inspects.disj
  intro part hpart
  obtain ⟨pattern, -, rfl⟩ := List.mem_map.1 hpart
  exact .comparison rfl rfl h

/-- Membership in a list of values is a condition on the terminal row. -/
theorem reads_among (values : List Value) :
    Reads (p, (p.terminalColumn column).among values) := by
  unfold ColumnRef.among
  split <;> exact reads_comparison rfl

/-- Membership in a list of some values compares one column. -/
theorem inspects_among (h : read column) {values : List Value} (hsome : values ≠ []) :
    Inspects p read ((p.terminalColumn column).among values) := by
  unfold ColumnRef.among
  split
  · exact .comparison rfl rfl h
  · refine .comparison rfl ?_ h
    rw [Predicate.isPlain, Bool.not_eq_true', List.isEmpty_eq_false_iff]
    exact hsome

/-- A window of dates compares one column. -/
theorem inspects_inWindow (h : read column) (window : DateWindow) :
    Inspects p read ((p.terminalColumn column).inWindow window) := by
  cases window <;> exact .comparison rfl rfl h

/-- The overlap of a period with a window compares its two columns. -/
theorem inspects_periodMeets {last : String} (h : read column) (hlast : read last)
    (window : DateWindow) :
    Inspects p read ((p.terminalColumn column).periodMeets (p.terminalColumn last) window) := by
  cases window with
  | before _ => exact .comparison rfl rfl h
  | after _ => exact .comparison rfl rfl hlast
  | within _ _ =>
    rw [ColumnRef.periodMeets]
    refine .conj (List.cons_ne_nil _ _) fun part hpart => ?_
    rcases List.mem_cons.1 hpart with rfl | hpart
    · exact .comparison rfl rfl h
    · rw [List.mem_singleton.1 hpart]
      exact .comparison rfl rfl hlast

/-- A group that the user may see: a public one or the user's own. -/
def groupVisible (p : RelationPath) (user : Option Int64) : Predicate :=
  match user with
  | some user => .disj [.equals (p.terminalColumn "userId") (.int user),
      .equals (p.terminalColumn "isPublic") (.bool true)]
  | none => .equals (p.terminalColumn "isPublic") (.bool true)

/-- A condition on groups is to be met together with their visibility. -/
theorem visibleGroup_eq (user : Option Int64) (matching : Predicate) :
    visibleGroup p user matching = .conj [matching, groupVisible p user] := rfl

/-- The visibility of a group compares its owner and its mark of being public. -/
theorem inspects_groupVisible (howner : read "userId") (hpublic : read "isPublic")
    (user : Option Int64) : Inspects p read (groupVisible p user) := by
  cases user with
  | none => exact .comparison rfl rfl hpublic
  | some user =>
    rw [groupVisible]
    refine .disj fun part hpart => ?_
    rcases List.mem_cons.1 hpart with rfl | hpart
    · exact .comparison rfl rfl howner
    · rw [List.mem_singleton.1 hpart]
      exact .comparison rfl rfl hpublic

/-- The visibility of a group is a condition on the terminal row. -/
theorem reads_groupVisible (user : Option Int64) : Reads (p, groupVisible p user) := by
  have hinspects : Inspects p (fun _ => True) (groupVisible p user) :=
    inspects_groupVisible True.intro True.intro user
  exact hinspects.reads

/-- A group meets a condition on visible groups if it meets the condition and is visible. -/
theorem meets_visibleGroup {user : Option Int64} {matching : Predicate} (h : Reads (p, matching))
    (db : Database) (part : Option Row) :
    db.Meets [(p.terminalAlias, part)] (visibleGroup p user matching) ↔
      db.Meets [(p.terminalAlias, part)] matching ∧
        db.Meets [(p.terminalAlias, part)] (groupVisible p user) := by
  rw [visibleGroup_eq, Database.meets_conj]
  · simp
  · intro q hq
    rcases List.mem_cons.1 hq with rfl | hq
    · exact h.evaluates db part
    · rw [List.mem_singleton.1 hq]
      exact (reads_groupVisible user).evaluates db part

/-- A condition on visible groups compares columns of the group. -/
theorem inspects_visibleGroup {user : Option Int64} {matching : Predicate} (howner : read "userId")
    (hpublic : read "isPublic") (h : Inspects p read matching) :
    Inspects p read (visibleGroup p user matching) := by
  rw [visibleGroup_eq]
  refine .conj (List.cons_ne_nil _ _) fun part hpart => ?_
  rcases List.mem_cons.1 hpart with rfl | hpart
  · exact h
  · rw [List.mem_singleton.1 hpart]
    exact inspects_groupVisible howner hpublic user

/-- Having one of some texts compares the column of a field. -/
theorem inspects_hasText {f : Field} (h : read f.column) (paths : ReadPaths) {texts : List String}
    (hsome : texts ≠ []) :
    Inspects (paths.get f.path) read (f.hasText paths texts).2 := by
  unfold Field.hasText Field.target
  cases f.shape with
  | single => exact inspects_among h (mt List.map_eq_nil_iff.1 hsome)
  | array => exact .comparison rfl rfl h

end Comparisons

/-! ## The fields of a criterion -/

/-- The fields that a criterion looks at. -/
def Criterion.fields : Criterion → List Field
  | contains fields | member _ fields => fields
  | integer field | text field | memberOrUnset _ _ field | date field | groupInteger field
  | groupText field | combination field _ | flag field _ => [field]
  | period first last => [first, last]
  | user parts => parts.map Prod.snd

/-- The columns that a criterion looks at, each with its path: those of its fields and, where only
visible groups count, what their visibility depends on. -/
def Criterion.columns (criterion : Criterion) : List (ReadPath × String) :=
  criterion.fields.map (fun f => (f.path, f.column)) ++
    match criterion with
    | groupInteger field | groupText field =>
      [(field.path, "userId"), (field.path, "isPublic")]
    | contains _ | integer _ | text _ | member _ _ | memberOrUnset _ _ _ | date _ | period _ _
    | user _ | combination _ _ | flag _ _ => []

/-- A criterion looks at the columns of its fields. -/
theorem Criterion.column_mem {criterion : Criterion} {f : Field} (h : f ∈ criterion.fields) :
    (f.path, f.column) ∈ criterion.columns :=
  List.mem_append_left _ (List.mem_map_of_mem h)

/-- Whether the fields of a criterion suit it: a missing value is sought on the root table only, and
a period stands in one row. -/
def Criterion.suits : Criterion → Bool
  | memberOrUnset _ _ field => field.path.hops.isEmpty
  | period first last => first.path = last.path
  | contains _ | integer _ | text _ | member _ _ | date _ | groupInteger _ | groupText _ | user _
  | combination _ _ | flag _ _ => true

/-- Whether a rule reads from one root table. -/
def Rule.readsFrom (root : String) : Rule → Bool
  | related criterion =>
    criterion.suits && criterion.fields.all fun field => field.path.root == root
  | count path _ => path.root == root && !path.hops.isEmpty

section Targets

variable {c : Catalog} {ctx : RuleContext} {condition : Condition} {value : FilterValue}
  {criterion : Criterion} {targets : List (RelationPath × Predicate)}

/-- The texts of a value without those that ask for the lack of a status. -/
def FilterValue.without (value : FilterValue) (unset : String) : FilterValue :=
  .many (value.entries.filter fun text => !Text.sameLetters (Text.trim text) unset)

/-- A field that takes a value for texts or the lack of one asks for the lack, for that or one of
the admitted texts, or for one of the admitted texts alone. -/
theorem Field.hasTextOrNothing_cases {f : Field} {vocabulary : Vocabulary} {unset : String}
    {target : RelationPath × Predicate}
    (h : f.hasTextOrNothing ctx vocabulary unset value = .ok target) :
    target.1 = ctx.paths.get f.path ∧
      ((value.hasName unset = true ∧
          (∀ texts, vocabulary.admitted (value.without unset) ≠ .ok texts) ∧
          target.2 = .isNull (f.columnRef ctx.paths)) ∨
        ∃ texts, vocabulary.admitted (value.without unset) = .ok texts ∧
          (value.hasName unset = true ∧
              target.2 = .disj [.isNull (f.columnRef ctx.paths),
                (f.columnRef ctx.paths).amongTexts texts] ∨
            value.hasName unset = false ∧
              target.2 = (f.columnRef ctx.paths).amongTexts texts)) := by
  unfold hasTextOrNothing at h
  dsimp only at h
  rw [← FilterValue.without] at h
  split at h
  · next hname =>
    cases h
    refine ⟨rfl, ?_⟩
    dsimp only [target]
    cases hadmitted : vocabulary.admitted (value.without unset) with
    | error rejection => exact .inl ⟨hname, by simp, rfl⟩
    | ok texts => exact .inr ⟨texts, rfl, .inl ⟨hname, rfl⟩⟩
  · next hname =>
    obtain ⟨texts, htexts, rfl⟩ := Traversal.map_eq_ok.1 h
    exact ⟨rfl, .inr ⟨texts, htexts, .inr ⟨Bool.eq_false_iff.2 hname, rfl⟩⟩⟩

/-- The conditions of a field that may have no value compare its column, if the field is one of the
root row. -/
theorem inspects_hasTextOrNothing (hpaths : ReadPaths.resolve c = .ok ctx.paths) {f : Field}
    (hf : f.path.hops = []) {read : String → Prop} (hread : read f.column)
    {vocabulary : Vocabulary} {unset : String} {target : RelationPath × Predicate}
    (h : f.hasTextOrNothing ctx vocabulary unset value = .ok target) :
    target.1 = ctx.paths.get f.path ∧ Inspects (ctx.paths.get f.path) read target.2 := by
  -- A missing value is met where there is no row, so the path must have no steps.
  have hnil := ReadPaths.hops_eq_nil hpaths hf
  have hlacks : Inspects (ctx.paths.get f.path) read (.isNull (f.columnRef ctx.paths)) :=
    .isNull hnil hread
  obtain ⟨hpath, ⟨-, -, he⟩ | ⟨texts, htexts, hasks⟩⟩ := f.hasTextOrNothing_cases h
  · exact ⟨hpath, he ▸ hlacks⟩
  · have hsome : texts ≠ [] := (readsEach_admitted vocabulary).ne_nil htexts
    have hamong : Inspects (ctx.paths.get f.path) read ((f.columnRef ctx.paths).amongTexts texts) :=
      inspects_among hread (mt List.map_eq_nil_iff.1 hsome)
    refine ⟨hpath, ?_⟩
    rcases hasks with ⟨-, he⟩ | ⟨-, he⟩
    · rw [he]
      exact .disj (List.forall_mem_cons.2 ⟨hlacks, List.forall_mem_singleton.2 hamong⟩)
    · exact he ▸ hamong

/-- What holds of all that is made of a value, as it has been read, holds of the conditions that are
stated. -/
theorem forall_targets {α : Type} {reading : Except Rejection α}
    {make : α → List (RelationPath × Predicate)} {motive : RelationPath × Predicate → Prop}
    (h : (do return make (← reading)) = Except.ok (ε := Rejection) targets)
    (hmake : ∀ x, reading = .ok x → ∀ t ∈ make x, motive t) : ∀ t ∈ targets, motive t := by
  obtain ⟨x, hx, h⟩ := Traversal.bind_eq_ok.1 h
  cases h
  exact hmake x hx

/-- What some fields ask, once a value has been read, is asked at the end of their paths. -/
theorem inspects_fields {α : Type} {reading : Except Rejection α} (fields : List Field)
    {read : Field → String → Prop} (target : α → Field → RelationPath × Predicate)
    (h : (do return fields.map (target (← reading))) = .ok targets)
    (hpath : ∀ x f, (target x f).1 = ctx.paths.get f.path)
    (hinspects : ∀ x, reading = .ok x → ∀ f ∈ fields,
      Inspects (ctx.paths.get f.path) (read f) (target x f).2) :
    ∀ t ∈ targets, ∃ f ∈ fields, t.1 = ctx.paths.get f.path ∧
      Inspects (ctx.paths.get f.path) (read f) t.2 :=
  forall_targets h fun x hx => List.forall_mem_map.2 fun f hf =>
    ⟨f, hf, hpath x f, hinspects x hx f hf⟩

/-- The conditions that a criterion states are built from comparisons of its columns at the end of
the paths of its fields. -/
theorem Criterion.inspects_targets (hpaths : ReadPaths.resolve c = .ok ctx.paths)
    (hsuits : criterion.suits = true)
    (h : criterion.targets ctx condition value = .ok targets) :
    ∀ t ∈ targets, ∃ f ∈ criterion.fields, t.1 = ctx.paths.get f.path ∧
      Inspects (ctx.paths.get f.path) (fun column => (f.path, column) ∈ criterion.columns) t.2 := by
  have own : ∀ f ∈ criterion.fields, (f.path, f.column) ∈ criterion.columns :=
    fun _ => Criterion.column_mem
  cases criterion with
  | contains fields =>
    exact inspects_fields fields
      (fun patterns f => f.target ctx.paths fun column => column.likeAny patterns) h
      (fun _ _ => rfl) fun patterns _ f hf => inspects_likeAny (own f hf) patterns
  | integer field =>
    exact inspects_fields [field]
      (fun integers f => f.target ctx.paths fun column => column.amongInts integers) h
      (fun _ _ => rfl) fun integers hread f hf => inspects_among (own f hf)
        (mt List.map_eq_nil_iff.1 ((readsEach_integers.mapError _).ne_nil hread))
  | text field =>
    exact inspects_fields [field] (fun texts f => f.hasText ctx.paths texts) h (fun _ _ => rfl)
      fun texts hread f hf => inspects_hasText (own f hf) ctx.paths
        ((readsEach_exactTexts.mapError _).ne_nil hread)
  | member vocabulary fields =>
    exact inspects_fields fields (fun texts f => f.hasText ctx.paths texts) h (fun _ _ => rfl)
      fun texts hread f hf => inspects_hasText (own f hf) ctx.paths
        ((readsEach_admitted _).ne_nil hread)
  | memberOrUnset vocabulary unset field =>
    obtain ⟨target, htarget, h⟩ := Traversal.bind_eq_ok.1 h
    cases h
    intro t ht
    rw [List.mem_singleton.1 ht]
    exact ⟨field, List.mem_singleton_self field,
      inspects_hasTextOrNothing hpaths (List.isEmpty_iff.1 hsuits)
        (own field (List.mem_singleton_self field)) htarget⟩
  | date field =>
    exact inspects_fields [field]
      (fun window f => f.target ctx.paths fun column => column.inWindow window) h
      (fun _ _ => rfl) fun window _ f hf => inspects_inWindow (own f hf) window
  | period first last =>
    obtain ⟨window, -, h⟩ := Traversal.bind_eq_ok.1 h
    cases h
    intro t ht
    cases List.mem_singleton.1 ht
    -- Both columns are of the row at the end of one path.
    have hpath : first.path = last.path := of_decide_eq_true hsuits
    have hlast := own last (List.mem_cons_of_mem first (List.mem_singleton_self last))
    refine ⟨first, List.mem_cons_self, rfl, ?_⟩
    unfold Field.target Field.columnRef
    rw [← hpath] at hlast ⊢
    exact inspects_periodMeets (own first List.mem_cons_self) hlast window
  | groupInteger field =>
    refine inspects_fields [field]
      (fun integers f => f.visibleTarget ctx fun column => column.amongInts integers) h
      (fun _ _ => rfl) fun integers hread f hf => ?_
    obtain rfl := List.mem_singleton.1 hf
    exact inspects_visibleGroup (by simp [columns]) (by simp [columns]) (inspects_among (own f hf)
      (mt List.map_eq_nil_iff.1 ((readsEach_integers.mapError _).ne_nil hread)))
  | groupText field =>
    refine inspects_fields [field]
      (fun texts f => f.visibleTarget ctx fun column => column.amongTexts texts) h
      (fun _ _ => rfl) fun texts hread f hf => ?_
    obtain rfl := List.mem_singleton.1 hf
    exact inspects_visibleGroup (by simp [columns]) (by simp [columns]) (inspects_among (own f hf)
      (mt List.map_eq_nil_iff.1
        ((readsEach_exactTexts.mapError _).ne_nil hread)))
  | user parts =>
    rw [Criterion.targets] at h
    split at h
    · next id first others _ hparts =>
      cases h
      intro t ht
      obtain ⟨part, hpart, rfl⟩ := List.mem_map.1 ht
      rw [← hparts] at hpart
      have hfield : part.2 ∈ (user parts).fields :=
        List.mem_map_of_mem (List.mem_filter.1 hpart).1
      exact ⟨part.2, hfield, rfl, .comparison rfl rfl (own part.2 hfield)⟩
    · cases h
  | combination field parts =>
    refine inspects_fields [field]
      (fun combinations f => f.target ctx.paths fun column =>
        .disj ((distinct [] combinations).map (Predicate.sameElements column))) h
      (fun _ _ => rfl) fun combinations _ f hf => .disj fun part hpart => ?_
    obtain ⟨texts, -, rfl⟩ := List.mem_map.1 hpart
    exact .comparison rfl rfl (own f hf)
  | flag field flags =>
    refine inspects_fields [field]
      (fun found f => f.target ctx.paths fun column =>
        column.amongTexts (OrderedSet.ofList found).toList) h
      (fun _ _ => rfl) fun found hread f hf => inspects_among (own f hf) ?_
    exact mt List.map_eq_nil_iff.1
      (OrderedSet.toList_ofList_ne_nil ((readsEach_meanings _).ne_nil hread))

/-- The conditions that a criterion states are conditions on the rows at the end of the paths of its
fields. -/
theorem Criterion.reads_targets (hpaths : ReadPaths.resolve c = .ok ctx.paths)
    (hsuits : criterion.suits = true)
    (h : criterion.targets ctx condition value = .ok targets) :
    ∀ t ∈ targets, ∃ f ∈ criterion.fields, t.1 = ctx.paths.get f.path ∧ Reads t := by
  rintro ⟨p, v⟩ ht
  obtain ⟨f, hf, rfl, hinspects⟩ := Criterion.inspects_targets hpaths hsuits h _ ht
  exact ⟨f, hf, rfl, hinspects.reads⟩

/-- The conditions of a rule on related rows of a root table serve that table. -/
theorem Criterion.serves_targets (hc : c.Coherent) (hpaths : ReadPaths.resolve c = .ok ctx.paths)
    {start : Table} {root : String} (hstart : c.table? root = some start)
    (hrule : (Rule.related criterion).readsFrom root = true)
    (h : criterion.targets ctx condition value = .ok targets) :
    ∀ t ∈ targets, c.Serves start t := by
  obtain ⟨hsuits, hfields⟩ := Bool.and_eq_true_iff.1 hrule
  rintro ⟨p, v⟩ ht
  obtain ⟨f, hf, hp, hreads⟩ := Criterion.reads_targets hpaths hsuits h _ ht
  have hroot : f.path.root = root := eq_of_beq (List.all_eq_true.1 hfields f hf)
  cases hp
  exact ReadPaths.serves hc hpaths (hroot ▸ hstart) hreads

/-- A condition on related rows comes from the conditions of its criterion. -/
theorem Rule.apply_related {a : Association} :
    (Rule.related criterion).apply ctx condition value = .ok a ↔
      ∃ targets, criterion.targets ctx condition value = .ok targets ∧
        a = existsAlongAny targets condition.mode := by
  rw [Rule.apply, Traversal.bind_eq_ok]
  constructor
  · rintro ⟨targets, htargets, h⟩
    cases h
    exact ⟨targets, htargets, rfl⟩
  · rintro ⟨targets, htargets, rfl⟩
    exact ⟨targets, htargets, rfl⟩

/-- A condition on the number of related rows is met if one of the numbers is right. -/
theorem Rule.apply_count {path : ReadPath} {sizes : List (String × CompareOp × Int64)}
    {a : Association} :
    (Rule.count path sizes).apply ctx condition value = .ok a ↔
      ∃ found, value.meanings (meaning? sizes) = .ok found ∧
        a = ⟨.disj (found.map fun size =>
          ((ctx.paths.get path).countAlong size.1 size.2).predicate), []⟩ := by
  rw [Rule.apply, Traversal.bind_eq_ok]
  constructor
  · rintro ⟨found, hfound, h⟩
    cases h
    exact ⟨found, hfound, by rw [List.map_map]; rfl⟩
  · rintro ⟨found, hfound, rfl⟩
    refine ⟨found, hfound, ?_⟩
    dsimp only
    rw [List.map_map]
    rfl

/-- A rule takes a value if it makes a condition of it. -/
def Rule.Accepts (rule : Rule) (ctx : RuleContext) (condition : Condition) (value : FilterValue) :
    Prop :=
  (rule.apply ctx condition value).isOk = true

instance (rule : Rule) (ctx : RuleContext) (condition : Condition) (value : FilterValue) :
    Decidable (rule.Accepts ctx condition value) :=
  inferInstanceAs (Decidable (_ = true))

/-- A rule takes the values that it has a result for. -/
theorem Rule.accepts_iff {rule : Rule} :
    rule.Accepts ctx condition value ↔ ∃ a, rule.apply ctx condition value = .ok a :=
  Traversal.isOk_iff

/-- A rule about related rows takes the values that its criterion takes. -/
theorem Rule.accepts_related :
    (Rule.related criterion).Accepts ctx condition value ↔
      ∃ targets, criterion.targets ctx condition value = .ok targets := by
  rw [Rule.accepts_iff]
  constructor
  · rintro ⟨a, ha⟩
    obtain ⟨targets, htargets, -⟩ := Rule.apply_related.1 ha
    exact ⟨targets, htargets⟩
  · rintro ⟨targets, htargets⟩
    exact ⟨_, Rule.apply_related.2 ⟨targets, htargets, rfl⟩⟩

/-- A rule about the number of related rows takes the values that mean some of its sizes. -/
theorem Rule.accepts_count {path : ReadPath} {sizes : List (String × CompareOp × Int64)} :
    (Rule.count path sizes).Accepts ctx condition value ↔
      ∃ found, value.meanings (meaning? sizes) = .ok found := by
  rw [Rule.accepts_iff]
  constructor
  · rintro ⟨a, ha⟩
    obtain ⟨found, hfound, -⟩ := Rule.apply_count.1 ha
    exact ⟨found, hfound⟩
  · rintro ⟨found, hfound⟩
    exact ⟨_, Rule.apply_count.2 ⟨found, hfound, rfl⟩⟩

/-- A count of rows that are related to a root table names that table only. -/
theorem Rule.closed_count (hc : c.Coherent) (hpaths : ReadPaths.resolve c = .ok ctx.paths)
    {root : String} {path : ReadPath} {sizes : List (String × CompareOp × Int64)}
    (hrule : (Rule.count path sizes).readsFrom root = true) (size : CompareOp × Int64)
    {aliases : List String} (hroot : root ∈ aliases) :
    ((ctx.paths.get path).countAlong size.1 size.2).predicate.Closed aliases := by
  obtain ⟨hfrom, hsteps⟩ := Bool.and_eq_true_iff.1 hrule
  apply RelationPath.closed_countAlong
  · rw [ReadPaths.root_eq hc hpaths, eq_of_beq hfrom]
    exact hroot
  · apply ReadPaths.hops_ne_nil hc hpaths
    simpa using hsteps

/-! ## Conditions without dates -/

/-- Whether a condition compares with dates. -/
def Condition.isDated : Condition → Bool
  | .before | .after | .window => true
  | .contains | .lacks | .oneOf | .noneOf => false

/-- No text gives a window of dates to a condition without dates. -/
theorem readWindow_of_undated (h : condition.isDated = false) (format : String) (cs : List Char) :
    readWindow? condition format cs = none := by
  cases condition <;> first | rfl | cases h

/-- What a criterion asks of related rows does not depend on a condition without dates. -/
theorem Criterion.targets_of_undated {condition other : Condition} (h : condition.isDated = false)
    (ho : other.isDated = false) (criterion : Criterion) :
    criterion.targets ctx condition value = criterion.targets ctx other value := by
  -- Only dates are read by the condition, and without dates none are found.
  have dates_eq : ∀ format, value.dates condition format = value.dates other format := by
    intro format
    unfold FilterValue.dates
    simp only [readWindow_of_undated h, readWindow_of_undated ho]
  cases criterion <;> simp only [Criterion.targets, dates_eq]

end Targets

end RowScope
