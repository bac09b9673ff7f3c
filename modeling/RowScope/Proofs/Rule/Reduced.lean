import RowScope.Proofs.Association.Existence
import RowScope.Proofs.Rule.Standard
import RowScope.Proofs.Sql.Reduced

/-!
# The conditions of rules are reduced

What a rule makes of a value that it takes is a reduced condition (`Rule.reduced_apply`), never a
constant that would drop the filter or hide all rows. The reason is that no list is empty on the
way: a value that is taken has a reading (`ReadsEach.ne_nil`), a combination lists parts, and a
standard rule has a field to ask (`Domain.hasFields_standardRules`).
-/

namespace RowScope

open Predicate (Reduced)

/-! ## Comparisons -/

namespace ColumnRef

variable (column : ColumnRef)

/-- A search for some patterns is reduced. -/
theorem reduced_likeAny {patterns : List String} (hsome : patterns ≠ []) :
    (column.likeAny patterns).Reduced :=
  .disj (mt List.map_eq_nil_iff.1 hsome) (List.forall_mem_map.2 fun _ _ => .leaf rfl rfl)

/-- Membership in a list of some values is reduced: one value is compared with as it is. -/
theorem reduced_among {values : List Value} (hsome : values ≠ []) :
    (column.among values).Reduced := by
  unfold among
  split
  · exact .leaf rfl rfl
  · next hone => exact .leaf rfl (decide_eq_true (two_le_length hsome hone))

/-- A window of dates is reduced. -/
theorem reduced_inWindow (window : DateWindow) : (column.inWindow window).Reduced := by
  cases window <;> exact .leaf rfl rfl

/-- The overlap of a period with a window is reduced. -/
theorem reduced_periodMeets (stop : ColumnRef) (window : DateWindow) :
    (column.periodMeets stop window).Reduced := by
  cases window with
  | before _ | after _ => exact .leaf rfl rfl
  | within _ _ =>
    rw [periodMeets]
    exact .conj_pair (.leaf rfl rfl) (.leaf rfl rfl)

end ColumnRef

/-- A condition on visible groups is reduced if the condition on groups is. -/
theorem reduced_visibleGroup {p : RelationPath} {user : Option Int64} {matching : Predicate}
    (h : matching.Reduced) : (visibleGroup p user matching).Reduced := by
  have hvisible : (groupVisible p user).Reduced := by
    cases user with
    | none => exact .leaf rfl rfl
    | some user =>
      rw [groupVisible]
      exact .disj_pair (.leaf rfl rfl) (.leaf rfl rfl)
  rw [visibleGroup_eq]
  exact .conj_pair h hvisible

variable {ctx : RuleContext} {condition : Condition} {value : FilterValue}

/-- Having one of some texts is reduced. -/
theorem Field.reduced_hasText (f : Field) (paths : ReadPaths) {texts : List String}
    (hsome : texts ≠ []) : (f.hasText paths texts).2.Reduced := by
  unfold hasText target
  cases f.shape with
  | single => exact ColumnRef.reduced_among _ (mt List.map_eq_nil_iff.1 hsome)
  | array => exact .leaf rfl (by simpa [Predicate.isReducedNode] using hsome)

/-- Having one of some texts or nothing is reduced. -/
theorem Field.reduced_hasTextOrNothing {f : Field} {vocabulary : Vocabulary} {unset : String}
    {target : RelationPath × Predicate}
    (h : f.hasTextOrNothing ctx vocabulary unset value = .ok target) : target.2.Reduced := by
  obtain ⟨-, ⟨-, -, he⟩ | ⟨texts, htexts, hasks⟩⟩ := f.hasTextOrNothing_cases h
  · rw [he]
    exact .leaf rfl rfl
  · have hamong : ((f.columnRef ctx.paths).amongTexts texts).Reduced :=
      ColumnRef.reduced_among _ (mt List.map_eq_nil_iff.1
        ((readsEach_admitted vocabulary).ne_nil htexts))
    rcases hasks with ⟨-, he⟩ | ⟨-, he⟩
    · rw [he]
      exact .disj_pair (.leaf rfl rfl) hamong
    · rw [he]
      exact hamong

/-- A text has one part at least. -/
theorem splitCommas_ne_nil (cs : List Char) : splitCommas cs ≠ [] := by
  fun_cases splitCommas cs <;> exact List.cons_ne_nil _ _

/-- A combination lists one part at least. -/
theorem combination_ne_nil {known texts : List String} {text : String}
    (h : combination? known text = some texts) : texts ≠ [] := by
  unfold combination? at h
  dsimp only at h
  split at h
  · cases h
    exact OrderedSet.toList_ofList_ne_nil (mt List.map_eq_nil_iff.1 (splitCommas_ne_nil _))
  · cases h

/-! ## Criteria and rules -/

/-- A criterion with fields states a condition at least. -/
theorem Criterion.targets_ne_nil {criterion : Criterion}
    {targets : List (RelationPath × Predicate)} (hfields : criterion.fields ≠ [])
    (h : criterion.targets ctx condition value = .ok targets) : targets ≠ [] := by
  cases criterion with
  | contains fields | member vocabulary fields =>
    obtain ⟨found, -, h⟩ := Traversal.bind_eq_ok.1 h
    cases h
    exact mt List.map_eq_nil_iff.1 hfields
  | integer _ | text _ | memberOrUnset _ _ _ | date _ | period _ _ | groupInteger _ | groupText _
  | combination _ _ | flag _ _ =>
    obtain ⟨found, -, h⟩ := Traversal.bind_eq_ok.1 h
    cases h
    exact List.cons_ne_nil _ _
  | user parts =>
    rw [Criterion.targets] at h
    split at h
    · cases h
      exact List.cons_ne_nil _ _
    · cases h

/-- The conditions that a criterion states are reduced. -/
theorem Criterion.reduced_targets {criterion : Criterion}
    {targets : List (RelationPath × Predicate)}
    (h : criterion.targets ctx condition value = .ok targets) : ∀ t ∈ targets, t.2.Reduced := by
  cases criterion with
  | contains fields =>
    exact forall_targets h fun patterns hread => List.forall_mem_map.2 fun f _ =>
      ColumnRef.reduced_likeAny _ (((readsEach_patterns _).mapError _).ne_nil hread)
  | integer field =>
    exact forall_targets h fun integers hread => List.forall_mem_singleton.2
      (ColumnRef.reduced_among _
        (mt List.map_eq_nil_iff.1 ((readsEach_integers.mapError _).ne_nil hread)))
  | text field =>
    exact forall_targets h fun texts hread => List.forall_mem_singleton.2
      (field.reduced_hasText _ ((readsEach_exactTexts.mapError _).ne_nil hread))
  | member vocabulary fields =>
    exact forall_targets h fun texts hread => List.forall_mem_map.2 fun f _ =>
      f.reduced_hasText _ ((readsEach_admitted _).ne_nil hread)
  | memberOrUnset vocabulary unset field =>
    exact forall_targets h fun target htarget => List.forall_mem_singleton.2
      (Field.reduced_hasTextOrNothing htarget)
  | date field =>
    exact forall_targets h fun window _ => List.forall_mem_singleton.2
      (ColumnRef.reduced_inWindow _ window)
  | period first last =>
    exact forall_targets h fun window _ => List.forall_mem_singleton.2
      (ColumnRef.reduced_periodMeets _ _ window)
  | groupInteger field =>
    exact forall_targets h fun integers hread => List.forall_mem_singleton.2
      (reduced_visibleGroup (ColumnRef.reduced_among _
        (mt List.map_eq_nil_iff.1 ((readsEach_integers.mapError _).ne_nil hread))))
  | groupText field =>
    exact forall_targets h fun texts hread => List.forall_mem_singleton.2
      (reduced_visibleGroup (ColumnRef.reduced_among _
        (mt List.map_eq_nil_iff.1 ((readsEach_exactTexts.mapError _).ne_nil hread))))
  | user parts =>
    rw [Criterion.targets] at h
    split at h
    · cases h
      exact List.forall_mem_map.2 fun part _ => .leaf rfl rfl
    · cases h
  | combination field parts =>
    refine forall_targets h fun combinations hread => List.forall_mem_singleton.2 ?_
    obtain ⟨texts, htexts⟩ := List.exists_mem_of_ne_nil combinations
      ((readsEach_meanings _).ne_nil hread)
    refine .disj (mt List.map_eq_nil_iff.1 (List.ne_nil_of_mem (mem_distinct_nil.2 htexts)))
      (List.forall_mem_map.2 fun listed hlisted => .leaf rfl ?_)
    -- Each of the combinations was read from a text.
    obtain ⟨e, -, he⟩ := ((readsEach_meanings _).mem hread listed).1 (mem_distinct_nil.1 hlisted)
    simpa [Predicate.isReducedNode] using combination_ne_nil he
  | flag field flags =>
    exact forall_targets h fun found hread => List.forall_mem_singleton.2
      (ColumnRef.reduced_among _ (mt List.map_eq_nil_iff.1
        (OrderedSet.toList_ofList_ne_nil ((readsEach_meanings _).ne_nil hread))))

/-! ## Associations -/

/-- A condition on related rows is reduced if what it asks of a row is. -/
theorem RelationPath.reduced_existsAlong (p : RelationPath) {v : Predicate} (h : v.Reduced)
    (mode : Mode) : (p.existsAlong v mode).predicate.Reduced := by
  unfold existsAlong
  split
  · cases mode with
    | including => exact .inSet (.inr h) nofun
    | excluding =>
      refine .inSet (.inl rfl) fun q hq => ?_
      cases hq
      exact h
  · cases mode with
    | including => exact h
    | excluding => exact h.negate

/-- Reduced conditions on rows at the end of paths are reduced together. -/
theorem reduced_existsAlongAny {targets : List (RelationPath × Predicate)} (hsome : targets ≠ [])
    (h : ∀ t ∈ targets, t.2.Reduced) (mode : Mode) :
    (existsAlongAny targets mode).predicate.Reduced := by
  have hparts : ∀ part ∈ targets.map fun t => (t.1.existsAlong t.2 mode).predicate, part.Reduced :=
    List.forall_mem_map.2 fun t ht => t.1.reduced_existsAlong (h t ht) mode
  rw [predicate_existsAlongAny]
  cases mode with
  | including => exact .disj (mt List.map_eq_nil_iff.1 hsome) hparts
  | excluding => exact .conj (mt List.map_eq_nil_iff.1 hsome) hparts

/-- Whether a rule has a field to ask, if it asks fields. -/
def Rule.hasFields : Rule → Bool
  | related criterion => !criterion.fields.isEmpty
  | count _ _ => true

/-- The standard rules have fields to ask. -/
theorem Domain.hasFields_standardRules (d : Domain) :
    ∀ r ∈ d.standardRules, r.rule.hasFields = true := by
  cases d <;> decide

/-- What a rule makes of a value is reduced. -/
theorem Rule.reduced_apply {rule : Rule} {a : Association} (hfields : rule.hasFields = true)
    (h : rule.apply ctx condition value = .ok a) : a.predicate.Reduced := by
  cases rule with
  | related criterion =>
    obtain ⟨targets, htargets, rfl⟩ := Rule.apply_related.1 h
    have hsome : criterion.fields ≠ [] := by
      rintro hnil
      rw [Rule.hasFields, hnil] at hfields
      cases hfields
    exact reduced_existsAlongAny (Criterion.targets_ne_nil hsome htargets)
      (Criterion.reduced_targets htargets) _
  | count path sizes =>
    obtain ⟨found, hfound, rfl⟩ := Rule.apply_count.1 h
    exact .disj (mt List.map_eq_nil_iff.1 ((readsEach_meanings _).ne_nil hfound))
      (List.forall_mem_map.2 fun size _ => .inSet (.inl rfl) nofun)

end RowScope
