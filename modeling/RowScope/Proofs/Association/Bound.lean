import RowScope.Proofs.Relation.Acceptance

/-!
# Associations bind what they name

The conditions along a path evaluate in every database, however many steps the path has: each column
in the subquery of one refers to a table of that subquery, and each column outside to the root table
or to a join of the association (`existsAlong_bound`). A count along a path without steps is the
exception. It counts the key of the root table under the name of that table, but inside of the
subquery the root table goes by another alias, so the count fails as soon as some root row has a
key, unless the root table has that alias for its name (`associations_bound_iff`).
-/

namespace RowScope

namespace RelationPath

variable {p : RelationPath} {v : Predicate} {mode : Mode} {op : CompareOp} {n : Int64}

/-- The subquery of a condition along a path that fans out names its own tables. -/
theorem exists_selfContained (hf : p.fansOut = true)
    (hcols : ∀ c ∈ v.columns, c.aliasName = p.terminalAlias) (mode : Mode) :
    ∃ kind filter having, p.existsAlong v mode = p.keyAmong kind filter having ∧
      (p.keySource kind filter having).SelfContained ∧
      filter.subqueries ++ having.subqueries = v.subqueries := by
  have hne := hops_ne_nil_of_fansOut hf
  unfold existsAlong
  rw [if_pos hf]
  cases mode with
  | including =>
    exact ⟨.inner, v, .absent, rfl,
      selfContained_keySource hne hcols fun _ hc => absurd hc List.not_mem_nil,
      List.append_nil v.subqueries⟩
  | excluding =>
    exact ⟨.left, .always, .noneMatch v, rfl,
      selfContained_keySource hne (fun _ hc => absurd hc List.not_mem_nil) hcols, rfl⟩

/-- The subquery of a count names its own tables if the path has steps or its root table is named as
in subqueries. -/
theorem selfContained_count_iff :
    (p.keySource .left .always (.count p.terminalKey op n)).SelfContained ↔
      p.hops ≠ [] ∨ p.root = subqueryRoot := by
  by_cases hne : p.hops = []
  · have haliases : (p.keySource .left .always (.count p.terminalKey op n)).aliases =
        [subqueryRoot] := by
      show subqueryRoot :: (joinsFrom .left subqueryRoot p.hops).map JoinClause.aliasName = _
      rw [hne]
      rfl
    have hterminal : p.terminalKey.aliasName = p.root := by
      show p.terminalAlias = p.root
      rw [terminalAlias_eq, hne]
      rfl
    constructor
    · intro h
      have hmem := h.having p.terminalKey (List.mem_singleton_self _)
      rw [haliases, hterminal] at hmem
      exact .inr (List.mem_singleton.1 hmem)
    · intro h
      have hroot : p.root = subqueryRoot := h.resolve_left fun h => h hne
      refine ⟨joinsBound_joinsFrom .left subqueryRoot p.hops,
        fun _ hc => absurd hc List.not_mem_nil, fun c hc => ?_⟩
      rw [List.mem_singleton.1 hc, haliases, hterminal, hroot]
      exact List.mem_singleton_self _
  · have hterminal : ∀ c ∈ (Having.count p.terminalKey op n).columns,
        c.aliasName = p.terminalAlias := by
      intro c hc
      rw [List.mem_singleton.1 hc]
      rfl
    refine iff_of_true ?_ (.inl hne)
    exact selfContained_keySource hne (fun _ hc => absurd hc List.not_mem_nil) hterminal

end RelationPath

namespace Database

variable {db : Database} {p : RelationPath} {v : Predicate} {op : CompareOp} {n : Int64}

/-- The test for the keys of a self-contained subquery evaluates where the root table is bound. -/
theorem evaluates_keyAmong {kind : JoinKind} {filter : Predicate} {having : Having}
    (hs : (p.keySource kind filter having).SelfContained)
    (hfilter : db.FindsKeys filter.subqueries) (hhaving : db.FindsKeys having.subqueries)
    {row : JoinedRow} (hroot : p.root ∈ row.aliases) :
    db.Evaluates row (p.keyAmong kind filter having).predicate := by
  refine evaluates_of_columns (fun c hc => ?_) fun s hs' => ?_
  · rw [List.mem_singleton.1 hc]
    exact hroot
  · rw [List.mem_singleton.1 hs']
    obtain ⟨ks, hks, -⟩ := keys_eq_of_selfContained hs hfilter hhaving
    exact ⟨ks, hks⟩

/-- A condition on the row at the end of a path evaluates at every joined row of its association. -/
theorem evaluates_existsAlong (hcols : ∀ c ∈ v.columns, c.aliasName = p.terminalAlias)
    (hkeys : db.FindsKeys v.subqueries) (mode : Mode) {row : JoinedRow}
    (hrow : p.root :: (p.existsAlong v mode).extraJoins.map JoinClause.aliasName ⊆ row.aliases) :
    db.Evaluates row (p.existsAlong v mode).predicate := by
  by_cases hf : p.fansOut = true
  · obtain ⟨kind, filter, having, he, hs, hsub⟩ := RelationPath.exists_selfContained hf hcols mode
    rw [he] at hrow ⊢
    refine evaluates_keyAmong hs (fun s hs => hkeys s ?_) (fun s hs => hkeys s ?_)
      (hrow List.mem_cons_self)
    · exact hsub ▸ List.mem_append_left _ hs
    · exact hsub ▸ List.mem_append_right _ hs
  · -- The terminal alias is that of the last join, or the root table itself.
    rw [RelationPath.extraJoins_existsAlong, if_neg hf, RelationPath.joins,
      RelationPath.aliases_joinsFrom] at hrow
    have hterminal : p.terminalAlias ∈ row.aliases := by
      rw [RelationPath.terminalAlias_eq]
      exact hrow (lastAlias_mem p.root p.hops)
    have hv : db.Evaluates row v :=
      evaluates_of_columns (fun c hc => hcols c hc ▸ hterminal) hkeys
    unfold RelationPath.existsAlong
    rw [if_neg hf]
    cases mode with
    | including => exact hv
    | excluding =>
      obtain ⟨t, ht⟩ := hv
      exact ⟨_, truth_negate ht⟩

/-- A condition on the row at the end of a path selects rows without a fault. -/
theorem existsAlong_bound (hcols : ∀ c ∈ v.columns, c.aliasName = p.terminalAlias)
    (hkeys : db.FindsKeys v.subqueries) (mode : Mode) :
    ∃ kept, db.selectRows p.root (p.existsAlong v mode) = .ok kept :=
  exists_selectRows (joined_eq RelationPath.joinsBound_existsAlong) fun _ hrow =>
    evaluates_existsAlong hcols hkeys mode (aliases_of_joined hrow)

/-- A count along a path without steps fails where the root table has a row. -/
theorem keys_count_eq_error (hhops : p.hops = []) (hroot : p.root ≠ subqueryRoot) {r : Row}
    (hr : r ∈ db.rows p.root) :
    db.keys (p.keySource .left .always (.count p.terminalKey op n)) =
      .error (.unboundAlias p.root) := by
  obtain ⟨root, rootKey, hops, columns⟩ := p
  obtain rfl : hops = [] := hhops
  -- The key that is counted keeps the name of the root table.
  show _ = Except.error (ExecutionFault.unboundAlias (ColumnRef.mk root rootKey).aliasName)
  refine keys_eq_error True.intro (fun _ _ => ⟨_, truth_always⟩) rfl ?_
    (List.mem_flatMap.2 ⟨r, hr, List.mem_singleton_self _⟩) truth_always
  exact fun h => hroot (List.mem_singleton.1 h)

/-- A count along a path without steps fails at the root rows that have a key, and finds nothing
out about the others. -/
theorem truth_count_without_steps (hhops : p.hops = []) (hroot : p.root ≠ subqueryRoot) {r : Row}
    (hr : r ∈ db.rows p.root) :
    db.truth [(p.root, some r)] (p.countAlong op n).predicate =
      if r.value p.rootKey = .null then .ok none else .error (.unboundAlias p.root) := by
  unfold RelationPath.countAlong
  have hread : JoinedRow.value [(p.root, some r)] p.outerKey = .ok (r.value p.rootKey) := by
    rw [JoinedRow.value, RelationPath.outerKey, List.lookup_cons_self]
  rw [RelationPath.predicate_keyAmong, truth_inSet, hread, keys_count_eq_error hhops hroot hr]
  simp only [bind, Except.bind, Value.isNull_iff]
  rfl

/-- A count along a path without steps fails if a root row has a key. -/
theorem selectRows_countAlong_eq_error (hhops : p.hops = []) (hroot : p.root ≠ subqueryRoot)
    (hkey : ∃ r ∈ db.rows p.root, r.value p.rootKey ≠ .null) :
    db.selectRows p.root (p.countAlong op n) = .error (.unboundAlias p.root) := by
  obtain ⟨r, hr, hkey⟩ := hkey
  refine selectRows_eq_error rfl (fun other hother => ?_) ⟨r, hr, ?_⟩
  · unfold Evaluates
    rw [truth_count_without_steps hhops hroot hother]
    split
    · exact .inl ⟨none, rfl⟩
    · exact .inr rfl
  · rw [truth_count_without_steps hhops hroot hr, if_neg hkey]

/-- A count along a path selects rows if its subquery names its own tables or is never asked. -/
theorem exists_selectRows_countAlong (h : (p.hops ≠ [] ∨ p.root = subqueryRoot) ∨
    ∀ r ∈ db.rows p.root, r.value p.rootKey = .null) :
    ∃ kept, db.selectRows p.root (p.countAlong op n) = .ok kept := by
  have heval : ∀ r ∈ db.rows p.root,
      db.Evaluates [(p.root, some r)] (p.countAlong op n).predicate := by
    intro r hr
    by_cases hbound : p.hops ≠ [] ∨ p.root = subqueryRoot
    · exact evaluates_keyAmong (RelationPath.selfContained_count_iff.2 hbound)
        (findsKeys_of_eq_nil rfl) (findsKeys_of_eq_nil rfl) (List.mem_singleton_self p.root)
    · have hkey : r.value p.rootKey = .null := h.resolve_left hbound r hr
      rw [not_or, Decidable.not_not] at hbound
      refine ⟨none, ?_⟩
      rw [truth_count_without_steps hbound.1 hbound.2 hr, if_pos hkey]
  obtain ⟨keep, hkept, -⟩ := selectsRows_of_no_joins (a := p.countAlong op n) rfl heval
  exact ⟨_, hkept⟩

end Database

/-- A condition on the row at the end of a path selects rows in every database in which its own
subqueries find keys, and the subquery that it becomes names its own tables. A count along a path
does so if the path has steps or its root table is named as in subqueries; otherwise the key that it
counts is unbound inside of the subquery, and it fails where the subquery is asked for a key. -/
theorem associations_bound_iff (p : RelationPath) (db : Database) :
    (∀ v mode, (∀ c ∈ v.columns, c.aliasName = p.terminalAlias) → db.FindsKeys v.subqueries →
      (∃ kept, db.selectRows p.root (p.existsAlong v mode) = .ok kept) ∧
      (p.fansOut = true →
        ∃ s, (p.existsAlong v mode).predicate = .inSet p.outerKey s ∧ s.SelfContained)) ∧
    ∀ op n, ∃ s, (p.countAlong op n).predicate = .inSet p.outerKey s ∧
      (s.SelfContained ↔ p.hops ≠ [] ∨ p.root = subqueryRoot) ∧
      ((∃ kept, db.selectRows p.root (p.countAlong op n) = .ok kept) ↔
        (p.hops ≠ [] ∨ p.root = subqueryRoot) ∨
          ∀ r ∈ db.rows p.root, r.value p.rootKey = .null) ∧
      ∀ fault, db.selectRows p.root (p.countAlong op n) = .error fault →
        fault = .unboundAlias p.root := by
  refine ⟨fun v mode hcols hkeys => ⟨Database.existsAlong_bound hcols hkeys mode, fun hf => ?_⟩,
    fun op n => ?_⟩
  · obtain ⟨kind, filter, having, he, hs, -⟩ := RelationPath.exists_selfContained hf hcols mode
    exact ⟨_, congrArg Association.predicate he, hs⟩
  · -- Where the count does not select rows, the path has no steps and some root row has a key.
    have hfails : ¬ ((p.hops ≠ [] ∨ p.root = subqueryRoot) ∨
        ∀ r ∈ db.rows p.root, r.value p.rootKey = .null) →
        db.selectRows p.root (p.countAlong op n) = .error (.unboundAlias p.root) := by
      intro h
      rw [not_or, not_or, Decidable.not_not] at h
      refine Database.selectRows_countAlong_eq_error h.1.1 h.1.2 ?_
      simpa using h.2
    refine ⟨_, rfl, RelationPath.selfContained_count_iff, ⟨fun ⟨kept, hkept⟩ => ?_,
      Database.exists_selectRows_countAlong⟩, fun fault hfault => ?_⟩
    · refine Decidable.byContradiction fun h => ?_
      rw [hfails h] at hkept
      cases hkept
    · by_cases h : (p.hops ≠ [] ∨ p.root = subqueryRoot) ∨
          ∀ r ∈ db.rows p.root, r.value p.rootKey = .null
      · obtain ⟨kept, hkept⟩ : ∃ kept, db.selectRows p.root (p.countAlong op n) = .ok kept :=
          Database.exists_selectRows_countAlong h
        rw [hkept] at hfault
        cases hfault
      · rw [hfails h] at hfault
        cases hfault
        rfl

/-- The path without steps from the goals. -/
def RelationPath.goals : RelationPath :=
  ⟨"Goals", "id", [], ["id", "name", "status", "createdAt", "grantId", "isRttapa"]⟩

/-- One goal. -/
def Database.oneGoal : Database where
  tables := OrderedMap.ofList [("Goals", [OrderedMap.ofList [("id", .int 1)]])]

/-- The goals without a name are selected along the path without steps. -/
theorem unnamed_oneGoal_bound :
    ∃ kept, Database.oneGoal.selectRows "Goals"
      (RelationPath.goals.existsAlong (.isNull (RelationPath.goals.terminalColumn "name"))
        .including) = .ok kept := by
  have hreads : Reads (.goals, .isNull (RelationPath.goals.terminalColumn "name")) :=
    reads_isNull rfl
  exact ((associations_bound_iff .goals .oneGoal).1 _ .including hreads.columns
    (Database.findsKeys_of_eq_nil hreads.flat)).1

/-- Counting the goals along the path without steps fails, for the table of the goals goes by
another name in the subquery. -/
theorem count_oneGoal_unbound :
    ∃ c, Catalog.standard = .ok c ∧ c.path "Goals" [] = .ok .goals ∧
      Database.oneGoal.selectRows "Goals" (RelationPath.goals.countAlong .eq 1) =
        .error (.unboundAlias "Goals") := by
  obtain ⟨c, hc, htables, -⟩ := Catalog.exists_standard
  have hgoals : c.table? "Goals" = some (keyedTable "Goals" RelationPath.goals.terminalColumns) :=
    htables (keyedTable "Goals" _) (by decide)
  have hkey : ∃ r ∈ Database.oneGoal.rows "Goals", r.value "id" ≠ .null := by decide +kernel
  exact ⟨c, hc, Catalog.path_of_hopsFrom hgoals rfl,
    Database.selectRows_countAlong_eq_error (p := .goals) rfl (by decide) hkey⟩

end RowScope
