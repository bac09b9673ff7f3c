import RowScope.Proofs.Association.Existence
import RowScope.Proofs.Filter.Dates
import RowScope.Proofs.Rule.Standard

/-!
# Rules on dates

A date in one column is a period that begins and ends there, so both kinds of criteria on dates
compare two values of a row with a window (`DateWindow.Covers`), by comparisons that hold of dates
only. The standard table has one rule for all conditions on dates of a topic, and it looks at the
root row itself (`RuleTable.standard_dated`), which therefore meets what is asked if its own values
are covered (`Criterion.targets_period`).
-/

namespace RowScope

open RowScope.Calendar (Date)

/-! ## Windows and values -/

/-- The value is a date, and not after `last`. -/
def Value.OnOrBefore (value : Value) (last : Date) : Prop :=
  ∃ day, value = .date day ∧ Ordered.cmp day last ≠ .gt

/-- The value is a date, and not before `first`. -/
def Value.OnOrAfter (value : Value) (first : Date) : Prop :=
  ∃ day, value = .date day ∧ Ordered.cmp day first ≠ .lt

/-- A period from one value to another has a date in common with the window: it begins before the
end of the window and ends after its beginning, as far as the window has them. -/
def DateWindow.Covers : DateWindow → Value → Value → Prop
  | before last, start, _ => start.OnOrBefore last
  | after first, _, stop => stop.OnOrAfter first
  | within first last, start, stop => start.OnOrBefore last ∧ stop.OnOrAfter first

/-- Only dates are known to be on or before a date. -/
theorem Value.truth_le_date {value : Value} {last : Date} :
    CompareOp.le.truth value (.date last) = some true ↔ value.OnOrBefore last := by
  unfold OnOrBefore
  cases value <;> simp [CompareOp.truth, Value.compare?, CompareOp.holds]

/-- Only dates are known to be on or after a date. -/
theorem Value.truth_ge_date {value : Value} {first : Date} :
    CompareOp.ge.truth value (.date first) = some true ↔ value.OnOrAfter first := by
  unfold OnOrAfter
  cases value <;> simp [CompareOp.truth, Value.compare?, CompareOp.holds]

section Meets

variable {db : Database} {row : JoinedRow} {column start stop : ColumnRef}

/-- A joined row meets a comparison of a column that it has if the comparison holds of the value
there. -/
theorem meets_compare (h : column.aliasName ∈ row.aliases) (op : CompareOp) (value : Value) :
    db.Meets row (.compare column op value) ↔ op.truth (row.read column) value = some true := by
  show (row.value column >>= fun v => pure (op.truth v value)) = _ ↔ _
  rw [JoinedRow.value_eq_read h]
  exact ⟨Except.ok.inj, congrArg Except.ok⟩

/-- A joined row meets the upper bound of a column that it has if the value there is within it. -/
theorem meets_onOrBefore (h : column.aliasName ∈ row.aliases) (last : Date) :
    db.Meets row (column.onOrBefore last) ↔ (row.read column).OnOrBefore last :=
  (meets_compare h .le (.date last)).trans Value.truth_le_date

/-- A joined row meets the lower bound of a column that it has if the value there is within it. -/
theorem meets_onOrAfter (h : column.aliasName ∈ row.aliases) (first : Date) :
    db.Meets row (column.onOrAfter first) ↔ (row.read column).OnOrAfter first :=
  (meets_compare h .ge (.date first)).trans Value.truth_ge_date

/-- A window of one column covers the period from the value there to itself. -/
theorem meets_inWindow (h : column.aliasName ∈ row.aliases) (window : DateWindow) :
    db.Meets row (column.inWindow window) ↔
      window.Covers (row.read column) (row.read column) := by
  cases window with
  | before last => exact meets_onOrBefore h last
  | after first => exact meets_onOrAfter h first
  | within first last =>
    rw [DateWindow.Covers, ← Value.truth_le_date, ← Value.truth_ge_date]
    show (row.value column >>= fun v => pure (Truth.all [CompareOp.ge.truth v (.date first),
      CompareOp.le.truth v (.date last)])) = _ ↔ _
    rw [JoinedRow.value_eq_read h]
    show Except.ok (Truth.all _) = _ ↔ _
    rw [Except.ok.injEq, Truth.all_eq_true]
    simp [and_comm]

/-- A window that a period from one column to another meets covers the values there. -/
theorem meets_periodMeets (hstart : start.aliasName ∈ row.aliases)
    (hstop : stop.aliasName ∈ row.aliases) (window : DateWindow) :
    db.Meets row (start.periodMeets stop window) ↔
      window.Covers (row.read start) (row.read stop) := by
  cases window with
  | before last => exact meets_onOrBefore hstart last
  | after first => exact meets_onOrAfter hstop first
  | within first last =>
    have evaluates : ∀ p ∈ [start.onOrBefore last, stop.onOrAfter first], db.Evaluates row p := by
      intro p hp
      rcases List.mem_cons.1 hp with rfl | hp
      · exact Database.evaluates_atom rfl hstart fun s hs => by cases hs
      · rw [List.mem_singleton.1 hp]
        exact Database.evaluates_atom rfl hstop fun s hs => by cases hs
    rw [ColumnRef.periodMeets, Database.meets_conj evaluates, DateWindow.Covers]
    simp only [List.forall_mem_cons, List.not_mem_nil, false_implies, implies_true, and_true,
      meets_onOrBefore hstart, meets_onOrAfter hstop]

end Meets

/-! ## Criteria -/

/-- The fields where a criterion on dates has a period begin and end, the same one twice for a
date. -/
def Criterion.period? : Criterion → Option (Field × Field)
  | date field => some (field, field)
  | period first last => some (first, last)
  | contains _ | integer _ | text _ | member _ _ | memberOrUnset _ _ _ | groupInteger _
  | groupText _ | user _ | combination _ _ | flag _ _ => none

/-- Whether a rule is about a period of the root row. -/
def Rule.isRootPeriod : Rule → Bool
  | related criterion =>
    match criterion.period? with
    | some (first, _) => first.path.hops.isEmpty
    | none => false
  | count _ _ => false

/-- A condition at the end of a path without steps is to be met by the root row. -/
theorem Database.reaches_root {p : RelationPath} (hp : p.hops = []) (db : Database)
    (v : Predicate) (r : Row) :
    db.Reaches (p, v) r ↔ db.Meets [(p.terminalAlias, some r)] v := by
  unfold Reaches
  rw [hp, related]
  simp

/-- A criterion on a period of the root row asks, once the dates of a value have been read, that
their window covers the period. -/
theorem Criterion.targets_period {catalog : Catalog} {ctx : RuleContext}
    (hpaths : ReadPaths.resolve catalog = .ok ctx.paths) {criterion : Criterion}
    (hsuits : criterion.suits = true) {first last : Field}
    (hperiod : criterion.period? = some (first, last)) (hroot : first.path.hops = [])
    {condition : Condition} {value : FilterValue} {window : DateWindow}
    (hvalue : value.dates condition ctx.config.dateFormat = .ok window) :
    ∃ targets, criterion.targets ctx condition value = .ok targets ∧
      ∀ (db : Database) (r : Row), (∃ t ∈ targets, db.Reaches t r) ↔
        window.Covers (r.value first.column) (r.value last.column) := by
  have hnil := ReadPaths.hops_eq_nil hpaths hroot
  have bound : ∀ (p : RelationPath) (r : Row) (column : String),
      (p.terminalColumn column).aliasName ∈ JoinedRow.aliases [(p.terminalAlias, some r)] :=
    fun p _ _ => List.mem_singleton_self p.terminalAlias
  have reading : ∀ (p : RelationPath) (r : Row) (column : String),
      JoinedRow.read [(p.terminalAlias, some r)] (p.terminalColumn column) = r.value column := by
    intro p r column
    unfold JoinedRow.read
    rw [RelationPath.terminalColumn, List.lookup_cons_self]
    rfl
  cases criterion with
  | date _ =>
    cases hperiod
    refine ⟨[first.target ctx.paths fun column => column.inWindow window], ?_, fun db r => ?_⟩
    · rw [Criterion.targets, hvalue]
      rfl
    · simp only [List.mem_singleton, exists_eq_left]
      rw [Field.target, Field.columnRef, Database.reaches_root hnil,
        meets_inWindow (bound _ r _), reading]
  | period _ _ =>
    cases hperiod
    have hpath : first.path = last.path := of_decide_eq_true hsuits
    refine ⟨[first.target ctx.paths fun start =>
      start.periodMeets (last.columnRef ctx.paths) window], ?_, fun db r => ?_⟩
    · rw [Criterion.targets, hvalue]
      rfl
    · simp only [List.mem_singleton, exists_eq_left]
      rw [Field.target, Field.columnRef, Field.columnRef, ← hpath,
        Database.reaches_root hnil, meets_periodMeets (bound _ r _) (bound _ r _), reading, reading]
  | _ => cases hperiod

/-! ## Standard rules -/

/-- The standard rules of a topic for conditions on dates are the same, and about a period of the
root row. -/
theorem Domain.dated_standardRules (d : Domain) : ∀ r ∈ d.standardRules, ∀ s ∈ d.standardRules,
    r.topic = s.topic → r.conditions.any Condition.isDated = true →
      s.conditions.any Condition.isDated = true → r.rule = s.rule ∧ r.rule.isRootPeriod = true := by
  cases d <;> decide

/-- The standard table has one rule for the conditions on dates of a topic. It is about a period of
the root row. -/
theorem RuleTable.standard_dated {t : RuleTable} (h : RuleTable.standard = .ok t) {domain : Domain}
    {topic : Topic} {one other : Condition} (hone : one.isDated = true)
    (hother : other.isDated = true) {rule another : Rule}
    (hrule : t.resolve ⟨domain, topic, one⟩ = some rule)
    (hanother : t.resolve ⟨domain, topic, other⟩ = some another) :
    another = rule ∧ ∃ criterion first last, rule = .related criterion ∧
      criterion.period? = some (first, last) ∧ first.path.hops = [] ∧
        rule.readsFrom domain.rootTable = true := by
  obtain ⟨r, hr, htopic, hcond, rfl⟩ := (RuleTable.standard_resolve h).1 hrule
  obtain ⟨s, hs, htopic', hcond', rfl⟩ := (RuleTable.standard_resolve h).1 hanother
  obtain ⟨hsame, hperiod⟩ := domain.dated_standardRules r hr s hs (htopic.trans htopic'.symm)
    (List.any_eq_true.2 ⟨one, hcond, hone⟩) (List.any_eq_true.2 ⟨other, hcond', hother⟩)
  refine ⟨hsame.symm, ?_⟩
  have hreads := domain.readsFrom_standardRules r hr
  generalize r.rule = rule at hperiod hreads
  unfold Rule.isRootPeriod at hperiod
  split at hperiod
  · next criterion =>
    split at hperiod
    · next first last hfields =>
      exact ⟨criterion, first, last, rfl, hfields, List.isEmpty_iff.1 hperiod, hreads⟩
    · cases hperiod
  · cases hperiod

end RowScope
