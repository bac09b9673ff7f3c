import RowScope.Proofs.Rule.Dated
import RowScope.Proofs.Scope.Partition

/-!
# Windows of dates

A filter between two dates selects what the filters before the later and after the earlier one
select together (`window_selects_both`), whether the topic is a date of the root row or a period of
it. All three filters have one rule, which compares the same two values of the row with a window
(`Compiler.Lawful.contribution_dated`), and what the bounds of a window ask of the two values is
asked of them one by one.
-/

namespace RowScope

/-- Conditions on dates keep the rows that are found. -/
theorem Condition.mode_of_dated {condition : Condition} (h : condition.isDated = true) :
    condition.mode = .including := by
  cases condition <;> first | rfl | cases h

/-- The filters of a set that one more filter is put into, under a key of its own. -/
theorem FilterSet.mem_only_insert {one other e : FilterKey × FilterValue} (h : other.1 ≠ one.1) :
    e ∈ ((FilterSet.only one).insert other.1 other.2).entries ↔ e = one ∨ e = other := by
  obtain ⟨key, value⟩ := e
  rw [← OrderedMap.get?_eq_some_iff, OrderedMap.get?_insert]
  split
  · next hkey =>
    have hne : (key, value) ≠ one := fun he => h (hkey ▸ congrArg Prod.fst he)
    rw [or_iff_right hne, Option.some.injEq, hkey, Prod.ext_iff]
    simp [eq_comm]
  · next hkey =>
    have hne : (key, value) ≠ other := fun he => hkey (congrArg Prod.fst he)
    rw [OrderedMap.get?_eq_some_iff, FilterSet.entries_only, List.mem_singleton]
    simp [hne]

namespace Compiler

variable {c : Compiler} {user : Option Int64} {domain : Domain}

/-- The configuration of a compiler is the one that it was made of. -/
theorem config_ofConfig {config : Config} (h : ofConfig config = .ok c) : c.config = config := by
  obtain ⟨_, _, -, -, hparts⟩ := ofConfig_eq_ok.1 h
  obtain ⟨-, -, -, hconfig, -⟩ := ofParts_eq_ok.1 hparts
  exact hconfig

/-- A filter on a period of the root row contributes a condition that selects the root rows whose
period the window of its value covers. -/
theorem Lawful.contribution_dated (h : c.Lawful) (hcatalog : Catalog.standard = .ok c.catalog)
    (user : Option Int64) {criterion : Criterion}
    (hreads : (Rule.related criterion).readsFrom domain.rootTable = true)
    {first last : Field} (hperiod : criterion.period? = some (first, last))
    (hroot : first.path.hops = []) {topic : Topic} {condition : Condition}
    (hdated : condition.isDated = true)
    (hrule : c.table.resolve ⟨domain, topic, condition⟩ = some (.related criterion))
    {value : FilterValue} {window : DateWindow}
    (hvalue : value.dates condition c.config.dateFormat = .ok window) :
    ∃ a, c.contribution user domain (FilterKey.named topic condition, value) = .ok (some a) ∧
      ∀ db : Database, db.Identified → ∀ r ∈ db.rows domain.rootTable,
        (db.Selects domain.rootTable a.predicate a.extraJoins r ↔
          window.Covers (r.value first.column) (r.value last.column)) := by
  have hpaths : ReadPaths.resolve c.catalog = .ok (c.context user).paths := h.paths
  obtain ⟨hsuits, -⟩ := Bool.and_eq_true_iff.1 hreads
  obtain ⟨targets, htargets, hcovers⟩ :=
    Criterion.targets_period hpaths hsuits hperiod hroot hvalue
  have happly := Rule.apply_related.2 ⟨targets, htargets, rfl⟩
  rw [Condition.mode_of_dated hdated] at happly
  refine ⟨_, contribution_named hrule happly, fun db hdb r hr => ?_⟩
  rw [h.selects_related hcatalog hreads htargets hdb hr .including]
  exact hcovers db r

/-- Two filters under different keys that contribute conditions compile together, and the root rows
that they select are those that both conditions select. -/
theorem Lawful.select_two (h : c.Lawful) (hcatalog : Catalog.standard = .ok c.catalog)
    {one other : FilterKey × FilterValue} (hkeys : other.1 ≠ one.1) {a b : Association}
    (ha : c.contribution user domain one = .ok (some a))
    (hb : c.contribution user domain other = .ok (some b)) {db : Database} (hdb : db.Identified) :
    ∃ s, c.compileDomain domain ((FilterSet.only one).insert other.1 other.2) user = .ok s ∧
      db.select domain s = .ok ((db.ids domain.rootTable).filter fun id =>
        id ∈ db.selectedIds domain.rootTable a.predicate a.extraJoins ∧
          id ∈ db.selectedIds domain.rootTable b.predicate b.extraJoins) := by
  have hentries := fun e => FilterSet.mem_only_insert (e := e) hkeys
  have contributes : ∀ e ∈ ((FilterSet.only one).insert other.1 other.2).entries,
      ∃ found, c.contribution user domain e = .ok found := by
    intro e he
    rcases (hentries e).1 he with rfl | rfl
    · exact ⟨_, ha⟩
    · exact ⟨_, hb⟩
  obtain ⟨found, hfound⟩ := Traversal.exists_mapM contributes
  have hs := compileDomain_eq_ok.2 ⟨found, hfound, rfl⟩
  refine ⟨_, hs, ?_⟩
  rw [h.select_compiled (Catalog.honours_standard hcatalog hdb) (hdb.integer domain.rootTable) hs,
    Except.ok.injEq]
  apply Database.selectedIds_eq_filter
  intro r hr id hid
  rw [h.selects_compiled hs, hdb.mem_selectedIds hr hid, hdb.mem_selectedIds hr hid]
  simp only [hentries, forall_eq_or_imp, forall_eq, Admits, ha, hb, Except.ok.injEq,
    Option.some.injEq, forall_eq']

end Compiler

/-- A value that is taken for the dates between two dates gives them in order. Its filter selects
the root rows that the filters on or before the later and on or after the earlier date both select,
alone or together. -/
theorem window_selects_both {config : Config} {c : Compiler}
    (hc : Compiler.ofConfig config = .ok c) {domain : Domain} {topic : Topic}
    {onBefore onAfter onWindow : Rule}
    (hbefore : c.table.resolve ⟨domain, topic, .before⟩ = some onBefore)
    (hafter : c.table.resolve ⟨domain, topic, .after⟩ = some onAfter)
    (hwindow : c.table.resolve ⟨domain, topic, .window⟩ = some onWindow)
    {value : FilterValue} {safe : SafeValue}
    (hvalue : sanitize value (.dates .window config.dateFormat) = .ok safe) :
    ∃ first last, safe = .dates (.within first last) ∧ Ordered.cmp first last ≠ .gt ∧
      ∀ upper lower : FilterValue,
        sanitize upper (.dates .before config.dateFormat) = .ok (.dates (.before last)) →
        sanitize lower (.dates .after config.dateFormat) = .ok (.dates (.after first)) →
        ∀ (user : Option Int64) (db : Database), db.Identified → ∃ before after : List Int64,
          c.Chooses db user domain (FilterKey.named topic .before, upper) before ∧
          c.Chooses db user domain (FilterKey.named topic .after, lower) after ∧
          c.Chooses db user domain (FilterKey.named topic .window, value)
            ((db.ids domain.rootTable).filter fun id => id ∈ before ∧ id ∈ after) ∧
          ∃ s, c.compileDomain domain ((FilterSet.only (FilterKey.named topic .before, upper)).insert
              (FilterKey.named topic .after) lower) user = .ok s ∧
            db.select domain s =
              .ok ((db.ids domain.rootTable).filter fun id => id ∈ before ∧ id ∈ after) := by
  obtain ⟨hlawful, hcatalog⟩ := Compiler.lawful_ofConfig hc
  obtain rfl := Compiler.config_ofConfig hc
  obtain ⟨window, hdates, rfl⟩ := sanitize_dates_eq_ok.1 hvalue
  obtain ⟨first, last, rfl, hordered⟩ := FilterValue.dates_window hdates
  refine ⟨first, last, rfl, hordered, fun upper lower hupper hlower user db hdb => ?_⟩
  obtain ⟨_, hupper, he⟩ := sanitize_dates_eq_ok.1 hupper
  cases he
  obtain ⟨_, hlower, he⟩ := sanitize_dates_eq_ok.1 hlower
  cases he
  -- The three filters have one rule.
  obtain ⟨rfl, -⟩ := RuleTable.standard_dated hlawful.table rfl rfl hwindow hafter
  obtain ⟨rfl, criterion, start, stop, rfl, hperiod, hroot, hreads⟩ :=
    RuleTable.standard_dated hlawful.table rfl rfl hwindow hbefore
  obtain ⟨u, hu, hselectsU⟩ :=
    hlawful.contribution_dated hcatalog user hreads hperiod hroot rfl hbefore hupper
  obtain ⟨l, hl, hselectsL⟩ :=
    hlawful.contribution_dated hcatalog user hreads hperiod hroot rfl hafter hlower
  obtain ⟨w, hw, hselectsW⟩ :=
    hlawful.contribution_dated hcatalog user hreads hperiod hroot rfl hwindow hdates
  have hhonours := Catalog.honours_standard hcatalog hdb
  have hinteger := hdb.integer domain.rootTable
  -- A row has an id that both filters select if the window covers the period of the row.
  have both : ∀ r ∈ db.rows domain.rootTable, ∀ id, r.id? = some id →
      ((id ∈ db.selectedIds domain.rootTable u.predicate u.extraJoins ∧
        id ∈ db.selectedIds domain.rootTable l.predicate l.extraJoins) ↔
          (DateWindow.within first last).Covers (r.value start.column) (r.value stop.column)) := by
    intro r hr id hid
    rw [hdb.mem_selectedIds hr hid, hdb.mem_selectedIds hr hid, hselectsU db hdb r hr,
      hselectsL db hdb r hr]
    rfl
  refine ⟨_, _, hlawful.chooses_contribution hhonours hinteger hu,
    hlawful.chooses_contribution hhonours hinteger hl, ?_, ?_⟩
  · rw [← Database.selectedIds_eq_filter]
    · exact hlawful.chooses_contribution hhonours hinteger hw
    · intro r hr id hid
      rw [both r hr id hid, hselectsW db hdb r hr]
  · have hnames : Condition.after.name ≠ Condition.before.name := by decide
    exact hlawful.select_two hcatalog (mt (congrArg FilterKey.condition) hnames) hu hl hdb

/-- The first and the last day of the year 2020. -/
def year2020 : Calendar.Date × Calendar.Date := (⟨2020, 1, 1, by decide⟩, ⟨2020, 12, 31, by decide⟩)

/-- Three grants: one over the year 2020, one without an end, and one that begins at no date. -/
def Database.datedGrants : Database where
  tables := OrderedMap.ofList
    [("Grants",
      [OrderedMap.ofList [("id", .int 1), ("startDate", .date year2020.1),
          ("endDate", .date year2020.2)],
        OrderedMap.ofList [("id", .int 2), ("startDate", .date year2020.1)],
        OrderedMap.ofList [("id", .int 3), ("startDate", .text "2020"),
          ("endDate", .date year2020.2)]])]

/-- The grants of a window, given with its ends exchanged, are those that begin before its last and
end after its first day. -/
theorem window_selects_datedGrants :
    ∃ c, Compiler.ofConfig Config.common = .ok c ∧ ∃ before after,
      c.Chooses .datedGrants none .grant
        (FilterKey.named .startDate .before, .single "2020/12/31") before ∧
      c.Chooses .datedGrants none .grant
        (FilterKey.named .startDate .after, .single "2020/01/01") after ∧
      c.Chooses .datedGrants none .grant
        (FilterKey.named .startDate .window, .single "2020/12/31-2020/01/01")
        ([1, 2, 3].filter fun id => id ∈ before ∧ id ∈ after) := by
  obtain ⟨c, hc, -⟩ := Compiler.exists_ofConfig Config.fault?_common rfl
  have hrule : ∀ condition ∈ dateConditions, c.table.resolve ⟨.grant, .startDate, condition⟩ =
      some (.related (.period (.one .grant "startDate") (.one .grant "endDate"))) := by
    intro condition hcondition
    rw [RuleTable.standard_resolve (Compiler.lawful_ofConfig hc).1.table]
    exact ⟨⟨.startDate, dateConditions, _⟩, by simp [Domain.standardRules, grantRules], rfl,
      hcondition, rfl⟩
  have hvalue : sanitize (.single "2020/12/31-2020/01/01")
      (.dates .window Config.common.dateFormat) =
        .ok (.dates (.within year2020.1 year2020.2)) := rfl
  obtain ⟨_, _, hsafe, -, hboth⟩ := window_selects_both hc (hrule .before (by decide))
    (hrule .after (by decide)) (hrule .window (by decide)) hvalue
  cases hsafe
  obtain ⟨before, after, hbefore, hafter, hwindow, -⟩ :=
    hboth (.single "2020/12/31") (.single "2020/01/01") rfl rfl none .datedGrants
      (Database.identified_of_entries (by decide +kernel))
  have hids : Database.datedGrants.ids Domain.grant.rootTable = [1, 2, 3] := by decide +kernel
  exact ⟨c, hc, before, after, hbefore, hafter, hids ▸ hwindow⟩

end RowScope
