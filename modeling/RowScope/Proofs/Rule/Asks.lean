import RowScope.Proofs.Rule.Standard

/-!
# What the standard rules ask

What a standard rule asks at the end of a path compares columns that the path reads, and of groups
it is asked only together with their visibility (`Asks`). Both are facts about the table of rules,
checked once (`Domain.asks_standardRules`). A rule makes one of three associations of that
(`Contributes`): conditions on related rows along paths from the root table, counts of related rows,
or the condition that no row meets. All three are sound (`Contributes.sound`).
-/

namespace RowScope

/-- Whether a path leads to groups. -/
def ReadPath.readsGroups (p : ReadPath) : Bool := p.hops.contains "group"

/-- A condition on the rows at the end of a path, as a rule may state it for a user. -/
structure Asks (paths : ReadPaths) (user : Option Int64) (p : ReadPath) (v : Predicate) :
    Prop where
  /-- The condition compares columns that the path reads. -/
  inspects : Inspects (paths.get p) (· ∈ p.columns) v
  /-- Groups are to be visible. -/
  guarded : p.readsGroups = true → ∃ matching, Inspects (paths.get p) (· ∈ p.columns) matching ∧
    v = visibleGroup (paths.get p) user matching

/-- Whether a criterion asks for visible groups. -/
def Criterion.asksGroups : Criterion → Bool
  | groupInteger _ | groupText _ => true
  | contains _ | integer _ | text _ | member _ _ | memberOrUnset _ _ _ | date _ | period _ _
  | user _ | combination _ _ | flag _ _ => false

/-- Whether a rule looks at columns that its paths read and leaves groups to the criteria on visible
ones. -/
def Rule.asksProperly : Rule → Bool
  | related criterion =>
    (criterion.columns.all fun e => e.1.columns.contains e.2) &&
      (criterion.asksGroups || criterion.fields.all fun field => !field.path.readsGroups)
  | count path _ => !path.readsGroups

/-- The standard rules look at columns that their paths read and ask for visible groups only. -/
theorem Domain.asks_standardRules (d : Domain) :
    ∀ r ∈ d.standardRules, r.rule.asksProperly = true := by
  cases d <;> decide

section Criterion

variable {c : Catalog} {ctx : RuleContext} {condition : Condition} {value : FilterValue}
  {criterion : Criterion} {targets : List (RelationPath × Predicate)} {root : String}

/-- A criterion on groups asks for their visibility besides a comparison of its column. -/
theorem Criterion.visible_targets (hgroups : criterion.asksGroups = true)
    (h : criterion.targets ctx condition value = .ok targets) :
    ∀ t ∈ targets, ∀ f ∈ criterion.fields, ∃ matching,
      Inspects (ctx.paths.get f.path) (fun column => (f.path, column) ∈ criterion.columns)
        matching ∧
      t.2 = visibleGroup (ctx.paths.get f.path) ctx.user matching := by
  have own : ∀ f ∈ criterion.fields, (f.path, f.column) ∈ criterion.columns :=
    fun _ => Criterion.column_mem
  cases criterion with
  | groupInteger field =>
    obtain ⟨integers, hread, h⟩ := Traversal.bind_eq_ok.1 h
    cases h
    intro t ht f hf
    cases List.mem_singleton.1 ht
    obtain rfl := List.mem_singleton.1 hf
    exact ⟨_, inspects_among (own f hf)
      (mt List.map_eq_nil_iff.1 ((readsEach_integers.mapError _).ne_nil hread)), rfl⟩
  | groupText field =>
    obtain ⟨texts, hread, h⟩ := Traversal.bind_eq_ok.1 h
    cases h
    intro t ht f hf
    cases List.mem_singleton.1 ht
    obtain rfl := List.mem_singleton.1 hf
    exact ⟨_, inspects_among (own f hf)
      (mt List.map_eq_nil_iff.1 ((readsEach_exactTexts.mapError _).ne_nil hread)), rfl⟩
  | contains _ | integer _ | text _ | member _ _ | memberOrUnset _ _ _ | date _ | period _ _
  | user _ | combination _ _ | flag _ _ => cases hgroups

/-- The conditions of a criterion that reads from a root table and asks properly are asked along
paths from that table. -/
theorem Criterion.asks_targets (hpaths : ReadPaths.resolve c = .ok ctx.paths)
    (hfrom : (Rule.related criterion).readsFrom root = true)
    (hasks : (Rule.related criterion).asksProperly = true)
    (h : criterion.targets ctx condition value = .ok targets) :
    ∀ t ∈ targets, ∃ q : ReadPath, q.root = root ∧ t.1 = ctx.paths.get q ∧
      Asks ctx.paths ctx.user q t.2 := by
  obtain ⟨hsuits, hfields⟩ := Bool.and_eq_true_iff.1 hfrom
  obtain ⟨hcolumns, hgroups⟩ := Bool.and_eq_true_iff.1 hasks
  have listed : ∀ (q : ReadPath) (column : String), (q, column) ∈ criterion.columns →
      column ∈ q.columns := by
    intro q column hmem
    exact List.contains_iff_mem.1 (List.all_eq_true.1 hcolumns (q, column) hmem)
  intro t ht
  obtain ⟨f, hf, hpath, hinspects⟩ := Criterion.inspects_targets hpaths hsuits h t ht
  refine ⟨f.path, eq_of_beq (List.all_eq_true.1 hfields f hf), hpath,
    hinspects.mono (listed f.path), fun hread => ?_⟩
  -- Only the criteria on visible groups have fields on a path to groups.
  have hvisible : criterion.asksGroups = true := by
    rcases Bool.or_eq_true_iff.1 hgroups with hvisible | hnone
    · exact hvisible
    · have hfield := List.all_eq_true.1 hnone f hf
      rw [hread] at hfield
      cases hfield
  obtain ⟨matching, hmatching, he⟩ := Criterion.visible_targets hvisible h t ht f hf
  exact ⟨matching, hmatching.mono (listed f.path), he⟩

end Criterion

/-! ## Associations -/

/-- An association on a root table, as the standard rules make it for a user. -/
inductive Contributes (paths : ReadPaths) (user : Option Int64) (root : String) :
    Association → Prop where
  | related {targets : List (RelationPath × Predicate)} {mode : Mode} :
    (∀ t ∈ targets, ∃ q : ReadPath, q.root = root ∧ t.1 = paths.get q ∧
      Asks paths user q t.2) → Contributes paths user root (existsAlongAny targets mode)
  | count {q : ReadPath} {sizes : List (CompareOp × Int64)} :
    q.root = root → q.hops ≠ [] → q.readsGroups = false →
      Contributes paths user root
        ⟨.disj (sizes.map fun size => ((paths.get q).countAlong size.1 size.2).predicate), []⟩
  | never : Contributes paths user root ⟨.never, []⟩

/-- What a rule that reads from a root table and asks properly makes of a value. -/
theorem Rule.contributes {c : Catalog} {ctx : RuleContext} {condition : Condition}
    {value : FilterValue} {rule : Rule} {root : String} {a : Association}
    (hpaths : ReadPaths.resolve c = .ok ctx.paths) (hfrom : rule.readsFrom root = true)
    (hasks : rule.asksProperly = true) (h : rule.apply ctx condition value = .ok a) :
    Contributes ctx.paths ctx.user root a := by
  cases rule with
  | related criterion =>
    obtain ⟨targets, htargets, rfl⟩ := Rule.apply_related.1 h
    exact .related (Criterion.asks_targets hpaths hfrom hasks htargets)
  | count path sizes =>
    obtain ⟨found, -, rfl⟩ := Rule.apply_count.1 h
    obtain ⟨hroot, hsteps⟩ := Bool.and_eq_true_iff.1 hfrom
    exact .count (eq_of_beq hroot) (by simpa using hsteps) (by simpa [asksProperly] using hasks)

section Sound

variable {c : Catalog} {paths : ReadPaths} {user : Option Int64} {root : String} {start : Table}
  {a : Association}

/-- Conditions that are asked along paths from a root table serve that table. -/
theorem Asks.serves (hc : c.Coherent) (hpaths : ReadPaths.resolve c = .ok paths)
    (hstart : c.table? root = some start) {targets : List (RelationPath × Predicate)}
    (h : ∀ t ∈ targets, ∃ q : ReadPath, q.root = root ∧ t.1 = paths.get q ∧
      Asks paths user q t.2) : ∀ t ∈ targets, c.Serves start t := by
  rintro ⟨p, v⟩ ht
  obtain ⟨q, hroot, rfl, hasks⟩ := h _ ht
  exact ReadPaths.serves hc hpaths (hroot ▸ hstart) hasks.inspects.reads

/-- What the standard rules make of values is sound. -/
theorem Contributes.sound (hc : c.Coherent) (hpaths : ReadPaths.resolve c = .ok paths)
    (hstart : c.table? root = some start) (h : Contributes paths user root a) :
    Sound c start a.predicate a.extraJoins := by
  cases h with
  | related h => exact Sound.existsAlongAny hc (Asks.serves hc hpaths hstart h) _
  | count hroot hhops _ =>
    apply Sound.of_closed
    apply Predicate.closed_disj
    intro part hpart
    obtain ⟨size, -, rfl⟩ := List.mem_map.1 hpart
    apply RelationPath.closed_countAlong _ (ReadPaths.hops_ne_nil hc hpaths hhops)
    rw [ReadPaths.root_eq hc hpaths, hroot, hc.table_name hstart]
    exact List.mem_singleton_self root
  | never => exact Sound.never

end Sound

end RowScope
