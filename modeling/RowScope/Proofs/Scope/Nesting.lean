import RowScope.Proofs.Compiler
import RowScope.Proofs.Sql.Json
import RowScope.Scope.Json

/-!
# How deep compiled scopes nest

Compiled scopes nest at most twenty levels, whatever the filters are and however many
(`Compiler.depth_compile_le`). The conditions of a rule are built in a fixed number of steps, each
of which adds a few levels. The conditions of further filters do not add up, since a conjunction
opens the conjunctions among its parts: what the condition of a scope contributes to a further one
stays as shallow as the condition of one filter (`Scope.Shallow`).
-/

namespace RowScope

open RowScope.Json

/-! ## Values and joins -/

/-- A value nests at most two levels. -/
theorem Value.depth_le (v : Value) : v.toJson.depth ≤ 2 := by
  cases v with
  | null => exact Nat.zero_le 2
  | bool b => exact Nat.le_succ 1
  | int n => exact Nat.le_succ 1
  | text s => exact Nat.le_succ 1
  | date d => exact Nat.le_succ 1
  | textArray items =>
    rw [Value.toJson, depth_tagged]
    exact Nat.succ_le_succ (depth_strings_le items)

/-- Joins nest at most three levels. -/
theorem depth_joins_le (joins : List JoinClause) :
    (Json.arr (joins.map JoinClause.toJson)).depth ≤ 3 :=
  depth_arr_map_le fun _ _ => Nat.le_refl 2

/-! ## Connectives -/

namespace Predicate

variable {parts : List Predicate} {p : Predicate} {n : Nat}

/-- A conjunction nests two levels more than its parts. -/
theorem depth_all_le (h : ∀ part ∈ parts, part.toJson.depth ≤ n) :
    (all parts).toJson.depth ≤ n + 2 := by
  rw [toJson, depth_tagged, partsToJson_eq_map]
  exact Nat.succ_le_succ (depth_arr_map_le h)

/-- A disjunction nests two levels more than its parts. -/
theorem depth_any_le (h : ∀ part ∈ parts, part.toJson.depth ≤ n) :
    (any parts).toJson.depth ≤ n + 2 := by
  rw [toJson, depth_tagged, partsToJson_eq_map]
  exact Nat.succ_le_succ (depth_arr_map_le h)

/-- What a predicate contributes to a conjunction nests no deeper than the predicate. -/
theorem depth_conjunct_le {q : Predicate} (h : q ∈ p.conjuncts) :
    q.toJson.depth ≤ p.toJson.depth := by
  unfold conjuncts at h
  split at h
  · exact absurd h List.not_mem_nil
  · next parts =>
    rw [toJson, depth_tagged]
    exact Nat.le_succ_of_le (Nat.le_of_lt (depth_lt_parts h))
  · exact List.mem_singleton.1 h ▸ Nat.le_refl _

/-- What a predicate contributes to a disjunction nests no deeper than the predicate. -/
theorem depth_disjunct_le {q : Predicate} (h : q ∈ p.disjuncts) :
    q.toJson.depth ≤ p.toJson.depth := by
  unfold disjuncts at h
  split at h
  · exact absurd h List.not_mem_nil
  · next parts =>
    rw [toJson, depth_tagged]
    exact Nat.le_succ_of_le (Nat.le_of_lt (depth_lt_parts h))
  · exact List.mem_singleton.1 h ▸ Nat.le_refl _

/-- What a conjunction contributes to a further one nests no deeper than what its parts do, since
it opens the conjunctions among them. -/
theorem depth_conjunct_conj (h : ∀ part ∈ parts, ∀ q ∈ part.conjuncts, q.toJson.depth ≤ n) :
    ∀ q ∈ (conj parts).conjuncts, q.toJson.depth ≤ n := by
  have hflat : ∀ flat, conjParts parts = some flat → ∀ q ∈ flat, q.toJson.depth ≤ n := by
    intro flat hparts q hq
    rw [conjParts_eq_flatMap hparts] at hq
    obtain ⟨part, hpart, hq⟩ := List.mem_flatMap.1 hq
    exact h part hpart q hq
  unfold conj
  split
  · intro q hq
    rw [List.mem_singleton.1 hq]
    exact Nat.zero_le n
  · nofun
  · next part hp =>
    intro q hq
    exact Nat.le_trans (depth_conjunct_le hq) (hflat _ hp part (List.mem_singleton_self part))
  · next flat _ _ hp => exact hflat flat hp

/-- A predicate nests two levels more than what it contributes to a conjunction. -/
theorem depth_le_of_conjuncts (h : ∀ q ∈ p.conjuncts, q.toJson.depth ≤ n) :
    p.toJson.depth ≤ n + 2 := by
  unfold conjuncts at h
  split at h
  · exact Nat.zero_le _
  · exact depth_all_le h
  · exact Nat.le_trans (h _ (List.mem_singleton_self _)) (Nat.le_add_right n 2)

/-- A simplified conjunction nests two levels more than its parts. -/
theorem depth_conj_le (h : ∀ part ∈ parts, part.toJson.depth ≤ n) :
    (conj parts).toJson.depth ≤ n + 2 :=
  depth_le_of_conjuncts <| depth_conjunct_conj fun part hpart _ hq =>
    Nat.le_trans (depth_conjunct_le hq) (h part hpart)

/-- A simplified disjunction nests two levels more than its parts. -/
theorem depth_disj_le (h : ∀ part ∈ parts, part.toJson.depth ≤ n) :
    (disj parts).toJson.depth ≤ n + 2 := by
  have hflat : ∀ flat, disjParts parts = some flat → ∀ q ∈ flat, q.toJson.depth ≤ n := by
    intro flat hparts q hq
    rw [disjParts_eq_flatMap hparts] at hq
    obtain ⟨part, hpart, hq⟩ := List.mem_flatMap.1 hq
    exact Nat.le_trans (depth_disjunct_le hq) (h part hpart)
  unfold disj
  split
  · exact Nat.zero_le _
  · exact Nat.zero_le _
  · next part hp =>
    exact Nat.le_trans (hflat _ hp part (List.mem_singleton_self part)) (Nat.le_add_right n 2)
  · next flat _ _ hp => exact depth_any_le (hflat flat hp)

/-- A complement nests at most one level more than its part. -/
theorem depth_negate_le (p : Predicate) : p.negate.toJson.depth ≤ p.toJson.depth + 1 := by
  unfold negate
  split
  · exact Nat.zero_le _
  · exact Nat.zero_le _
  · exact Nat.le_of_eq (depth_tagged _ _)

/-- A test of a column without a subquery nests at most five levels. -/
theorem depth_test_le {column : ColumnRef} (h : p.column? = some column)
    (hflat : p.subquery? = none) : p.toJson.depth ≤ 5 := by
  have hcolumn : ∀ c : ColumnRef, c.toJson.depth = 1 := fun _ => rfl
  have hvalues : ∀ vs : List Value, (Json.arr (vs.map Value.toJson)).depth ≤ 3 :=
    fun _ => depth_arr_map_le fun v _ => v.depth_le
  cases p with
  | equals c v =>
    have hv := v.depth_le
    simp only [toJson, depth_tagged, depth_obj, membersDepth, hcolumn]
    omega
  | oneOf c vs =>
    have hvs := hvalues vs
    simp only [toJson, depth_tagged, depth_obj, membersDepth, hcolumn]
    omega
  | compare c op v =>
    have hv := v.depth_le
    simp only [toJson, depth_tagged, depth_obj, depth_str, membersDepth, hcolumn]
    omega
  | between c low high =>
    have hlow := low.depth_le
    have hhigh := high.depth_le
    simp only [toJson, depth_tagged, depth_obj, membersDepth, hcolumn]
    omega
  | like c pattern => exact Nat.le_add_right 3 2
  | overlaps c texts =>
    have htexts := depth_strings_le texts
    simp only [toJson, depth_tagged, depth_obj, membersDepth, hcolumn]
    omega
  | sameElements c texts =>
    have htexts := depth_strings_le texts
    simp only [toJson, depth_tagged, depth_obj, membersDepth, hcolumn]
    omega
  | isNull c => exact Nat.le_add_right 3 2
  | inSet c s => cases hflat
  | always | never | all _ | any _ | notTrue _ => cases h

end Predicate

/-! ## Conditions of rules -/

namespace ColumnRef

variable (column : ColumnRef)

/-- A condition of patterns nests at most seven levels. -/
theorem depth_likeAny_le (patterns : List String) : (column.likeAny patterns).toJson.depth ≤ 7 := by
  refine Predicate.depth_disj_le fun part hpart => ?_
  obtain ⟨pattern, -, rfl⟩ := List.mem_map.1 hpart
  exact Predicate.depth_test_le rfl rfl

/-- A choice among values nests at most five levels. -/
theorem depth_among_le (values : List Value) : (column.among values).toJson.depth ≤ 5 := by
  unfold among
  split <;> exact Predicate.depth_test_le rfl rfl

/-- A window of dates nests at most five levels. -/
theorem depth_inWindow_le (window : DateWindow) : (column.inWindow window).toJson.depth ≤ 5 := by
  cases window <;> exact Predicate.depth_test_le rfl rfl

/-- A period that meets a window nests at most seven levels. -/
theorem depth_periodMeets_le (stop : ColumnRef) (window : DateWindow) :
    (column.periodMeets stop window).toJson.depth ≤ 7 := by
  cases window with
  | before last => exact Nat.le_trans (Predicate.depth_test_le rfl rfl) (by decide)
  | after first => exact Nat.le_trans (Predicate.depth_test_le rfl rfl) (by decide)
  | within first last =>
    rw [periodMeets]
    exact Predicate.depth_conj_le (List.forall_mem_cons.2 ⟨Predicate.depth_test_le rfl rfl,
      List.forall_mem_singleton.2 (Predicate.depth_test_le rfl rfl)⟩)

end ColumnRef

/-- A condition on visible groups nests two levels more than the condition. -/
theorem depth_visibleGroup_le {p : RelationPath} {user : Option Int64} {matching : Predicate}
    (h : matching.toJson.depth ≤ 7) : (visibleGroup p user matching).toJson.depth ≤ 9 := by
  have hvisible : (groupVisible p user).toJson.depth ≤ 7 := by
    cases user with
    | none => exact Nat.le_trans (Predicate.depth_test_le rfl rfl) (by decide)
    | some user =>
      rw [groupVisible]
      exact Predicate.depth_disj_le (List.forall_mem_cons.2 ⟨Predicate.depth_test_le rfl rfl,
        List.forall_mem_singleton.2 (Predicate.depth_test_le rfl rfl)⟩)
  rw [visibleGroup_eq]
  exact Predicate.depth_conj_le (List.forall_mem_cons.2 ⟨h, List.forall_mem_singleton.2 hvisible⟩)

variable {ctx : RuleContext} {condition : Condition} {value : FilterValue}

/-- The condition that a field has one of some texts nests at most five levels. -/
theorem Field.depth_hasText_le (f : Field) (paths : ReadPaths) (texts : List String) :
    (f.hasText paths texts).2.toJson.depth ≤ 5 := by
  unfold hasText target
  dsimp only
  split
  · exact ColumnRef.depth_among_le _ _
  · exact Predicate.depth_test_le rfl rfl

/-- The condition that a field has one of some texts or nothing nests at most seven levels. -/
theorem Field.depth_hasTextOrNothing_le {f : Field} {vocabulary : Vocabulary} {unset : String}
    {target : RelationPath × Predicate}
    (h : f.hasTextOrNothing ctx vocabulary unset value = .ok target) :
    target.2.toJson.depth ≤ 7 := by
  obtain ⟨-, ⟨-, -, he⟩ | ⟨texts, -, ⟨-, he⟩ | ⟨-, he⟩⟩⟩ := f.hasTextOrNothing_cases h
  · rw [he]
    exact Nat.le_trans (Predicate.depth_test_le rfl rfl) (by decide)
  · rw [he]
    exact Predicate.depth_disj_le (List.forall_mem_cons.2 ⟨Predicate.depth_test_le rfl rfl,
      List.forall_mem_singleton.2 (ColumnRef.depth_among_le _ _)⟩)
  · rw [he]
    exact Nat.le_trans (ColumnRef.depth_among_le _ _) (by decide)

/-- The conditions that a criterion states nest at most nine levels. -/
theorem Criterion.depth_targets_le {criterion : Criterion}
    {targets : List (RelationPath × Predicate)}
    (h : criterion.targets ctx condition value = .ok targets) :
    ∀ t ∈ targets, t.2.toJson.depth ≤ 9 := by
  have hamong : ∀ column values, (ColumnRef.among column values).toJson.depth ≤ 9 :=
    fun column values => Nat.le_trans (column.depth_among_le values) (by decide)
  have hgroup : ∀ column values, (ColumnRef.among column values).toJson.depth ≤ 7 :=
    fun column values => Nat.le_trans (column.depth_among_le values) (by decide)
  have htext : ∀ f texts, (Field.hasText f ctx.paths texts).2.toJson.depth ≤ 9 :=
    fun f texts => Nat.le_trans (f.depth_hasText_le ctx.paths texts) (by decide)
  cases criterion with
  | contains fields =>
    exact forall_targets h fun patterns _ => List.forall_mem_map.2 fun f _ =>
      Nat.le_trans (ColumnRef.depth_likeAny_le _ patterns) (by decide)
  | integer field =>
    exact forall_targets h fun integers _ => List.forall_mem_singleton.2 (hamong _ _)
  | text field => exact forall_targets h fun texts _ => List.forall_mem_singleton.2 (htext _ _)
  | member vocabulary fields =>
    exact forall_targets h fun texts _ => List.forall_mem_map.2 fun f _ => htext f texts
  | memberOrUnset vocabulary unset field =>
    obtain ⟨target, htarget, h⟩ := Traversal.bind_eq_ok.1 h
    cases h
    exact List.forall_mem_singleton.2
      (Nat.le_trans (Field.depth_hasTextOrNothing_le htarget) (by decide))
  | date field =>
    exact forall_targets h fun window _ => List.forall_mem_singleton.2
      (Nat.le_trans (ColumnRef.depth_inWindow_le _ window) (by decide))
  | period first last =>
    exact forall_targets h fun window _ => List.forall_mem_singleton.2
      (Nat.le_trans (ColumnRef.depth_periodMeets_le _ _ window) (by decide))
  | groupInteger field =>
    exact forall_targets h fun integers _ => List.forall_mem_singleton.2
      (depth_visibleGroup_le (hgroup _ _))
  | groupText field =>
    exact forall_targets h fun texts _ => List.forall_mem_singleton.2
      (depth_visibleGroup_le (hgroup _ _))
  | user parts =>
    rw [Criterion.targets] at h
    split at h
    · cases h
      exact List.forall_mem_map.2 fun part _ =>
        Nat.le_trans (Predicate.depth_test_le rfl rfl) (by decide)
    · cases h
  | combination field parts =>
    refine forall_targets h fun combinations _ => List.forall_mem_singleton.2 ?_
    have hparts : ∀ part ∈ (distinct [] combinations).map
        (Predicate.sameElements (field.columnRef ctx.paths)), part.toJson.depth ≤ 5 :=
      List.forall_mem_map.2 fun texts _ => Predicate.depth_test_le rfl rfl
    exact Nat.le_trans (Predicate.depth_disj_le hparts) (by decide)
  | flag field flags =>
    exact forall_targets h fun found _ => List.forall_mem_singleton.2 (hamong _ _)

/-! ## Conditions of associations -/

namespace RelationPath

variable (p : RelationPath) {n : Nat}

/-- A subquery test nests three levels more than the joins and the conditions of the subquery. -/
theorem depth_keyAmong_le {kind : JoinKind} {filter : Predicate} {having : Having} (hn : 3 ≤ n)
    (hfilter : filter.toJson.depth ≤ n) (hhaving : having.toJson.depth ≤ n) :
    (p.keyAmong kind filter having).predicate.toJson.depth ≤ n + 3 := by
  have hjoins := depth_joins_le (p.joins subqueryRoot kind)
  have hcolumn : p.outerKey.toJson.depth = 1 := rfl
  simp only [keyAmong, Predicate.toJson, Subquery.toJson, depth_tagged, depth_obj, depth_str,
    membersDepth, hcolumn]
  omega

/-- A condition on related rows nests at most four levels more than what is asked of a row. -/
theorem depth_existsAlong_le {v : Predicate} (hn : 2 ≤ n) (hv : v.toJson.depth ≤ n) (mode : Mode) :
    (p.existsAlong v mode).predicate.toJson.depth ≤ n + 4 := by
  unfold existsAlong
  split
  · cases mode with
    | including =>
      exact p.depth_keyAmong_le (by omega) (Nat.le_succ_of_le hv) (Nat.zero_le _)
    | excluding =>
      refine p.depth_keyAmong_le (by omega) (Nat.zero_le _) ?_
      rw [Having.toJson, depth_tagged]
      exact Nat.succ_le_succ hv
  · cases mode with
    | including => exact Nat.le_trans hv (Nat.le_add_right n 4)
    | excluding => exact Nat.le_trans v.depth_negate_le (by omega)

/-- A condition on the number of related rows nests at most six levels. -/
theorem depth_countAlong_le (op : CompareOp) (m : Int64) :
    (p.countAlong op m).predicate.toJson.depth ≤ 6 :=
  p.depth_keyAmong_le (Nat.le_refl 3) (Nat.zero_le 3) (Nat.le_refl 3)

end RelationPath

/-- What a rule makes of a value nests at most fifteen levels. -/
theorem Rule.depth_apply_le {rule : Rule} {a : Association}
    (h : rule.apply ctx condition value = .ok a) : a.predicate.toJson.depth ≤ 15 := by
  cases rule with
  | related criterion =>
    obtain ⟨targets, htargets, rfl⟩ := Rule.apply_related.1 h
    have hparts : ∀ part ∈ targets.map fun t => (t.1.existsAlong t.2 condition.mode).predicate,
        part.toJson.depth ≤ 13 := List.forall_mem_map.2 fun t ht =>
      t.1.depth_existsAlong_le (by decide) (Criterion.depth_targets_le htargets t ht) condition.mode
    rw [predicate_existsAlongAny]
    generalize condition.mode = mode at hparts ⊢
    cases mode with
    | including => exact Predicate.depth_disj_le hparts
    | excluding => exact Predicate.depth_conj_le hparts
  | count path sizes =>
    obtain ⟨found, -, rfl⟩ := Rule.apply_count.1 h
    have hparts : ∀ part ∈ found.map fun size =>
        ((ctx.paths.get path).countAlong size.1 size.2).predicate, part.toJson.depth ≤ 6 :=
      List.forall_mem_map.2 fun size _ => RelationPath.depth_countAlong_le _ size.1 size.2
    exact Nat.le_trans (Predicate.depth_disj_le hparts) (by decide)

/-! ## Compiled scopes -/

/-- A scope is shallow if what its condition contributes to a further conjunction nests at most
fifteen levels. -/
def Scope.Shallow (s : Scope) : Prop := ∀ q ∈ s.predicate.conjuncts, q.toJson.depth ≤ 15

namespace Scope.Shallow

variable {s : Scope} {a : Association}

/-- The scope that leaves a query as it is has nothing to contribute. -/
theorem identity : Scope.identity.Shallow := fun _ h => absurd h List.not_mem_nil

/-- One more condition stands beside those of the scope, not around them. -/
theorem constrain (hs : s.Shallow) (ha : a.predicate.toJson.depth ≤ 15) :
    (s.constrain a).Shallow :=
  Predicate.depth_conjunct_conj <| List.forall_mem_cons.2 ⟨hs, List.forall_mem_singleton.2
    fun _ hq => Nat.le_trans (Predicate.depth_conjunct_le hq) ha⟩

/-- A shallow scope nests at most eighteen levels. -/
theorem depth_le (hs : s.Shallow) : s.toJson.depth ≤ 18 := by
  have hpredicate := Predicate.depth_le_of_conjuncts hs
  have hjoins := depth_joins_le s.extraJoins
  simp only [Scope.toJson, depth_obj, membersDepth]
  omega

end Scope.Shallow

namespace Compiler

variable {c : Compiler} {user : Option Int64} {domain : Domain} {filters : FilterSet}

/-- What a filter contributes nests at most fifteen levels. -/
theorem depth_contribution_le {filter : FilterKey × FilterValue} {a : Association}
    (h : c.contribution user domain filter = .ok (some a)) : a.predicate.toJson.depth ≤ 15 := by
  obtain ⟨condition, rule, -, happly | ⟨rejection, -, -, -, rfl⟩⟩ := contribution_eq_some.1 h
  · exact Rule.depth_apply_le happly
  · exact Nat.zero_le 15

/-- A filter keeps a scope shallow. -/
theorem shallow_addFilter {s t : Scope} {filter : FilterKey × FilterValue} (hs : s.Shallow)
    (h : c.addFilter user domain s filter = .ok t) : t.Shallow := by
  rw [addFilter_eq] at h
  obtain ⟨found, hfound, rfl⟩ := Traversal.map_eq_ok.1 h
  cases found with
  | none => exact hs
  | some a => exact hs.constrain (depth_contribution_le hfound)

/-- A compiled scope is shallow, however many filters it is made of. -/
theorem shallow_compileDomain {s : Scope} (h : c.compileDomain domain filters user = .ok s) :
    s.Shallow :=
  Traversal.foldlM_preserves (fun _ _ _ _ => shallow_addFilter) Scope.Shallow.identity h

/-- The scopes of a compilation nest at most twenty levels. -/
theorem depth_compile_le {scopes : Scopes} (h : c.compile filters user = .ok scopes) :
    scopes.toJson.depth ≤ 20 := by
  obtain ⟨found, hfound, hentries⟩ := compile_eq_ok.1 h
  have hscopes : membersDepth (scopes.entries.map fun e => (e.1.name, e.2.toJson)) ≤ 18 := by
    rw [hentries, membersDepth_le_iff, List.map_map]
    exact List.forall_mem_map.2 fun domain _ => (shallow_compileDomain (hfound domain)).depth_le
  simp only [Scopes.toJson, depth_obj, membersDepth]
  omega

end Compiler

end RowScope
