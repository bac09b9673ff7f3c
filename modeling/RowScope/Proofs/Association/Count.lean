import RowScope.Proofs.Relation.Acceptance

/-!
# Numbers of related rows

A count along a path selects the root rows by the number of distinct keys that end the chains of
rows along the path (`countAlong_selects`). The count is taken over left joins, where a root row
without related rows still has a joined row, but one in which every part of the path is missing;
its terminal key is then missing too and is not counted, so the number is zero. Executed as the
scope of a domain, the count gives the ids of the rows (`countAlong_selects_ids`).
-/

namespace RowScope

/-- Two integers stand in the relation that a comparison asks for. -/
def CompareOp.Relates : CompareOp → Int → Int → Prop
  | eq, a, b => a = b
  | lt, a, b => a < b
  | le, a, b => a ≤ b
  | gt, a, b => b < a
  | ge, a, b => b ≤ a

/-- A comparison holds of the order of two integers if they stand in its relation. -/
theorem CompareOp.holds_cmp_iff (op : CompareOp) (a b : Int) :
    op.holds (Ordered.cmp a b) = true ↔ op.Relates a b := by
  show op.holds (Ordered.cmpInt a b) = true ↔ _
  unfold Ordered.cmpInt
  by_cases hlt : a < b
  · rw [if_pos hlt]
    cases op <;> simp [holds, Relates] <;> omega
  · rw [if_neg hlt]
    by_cases heq : a = b
    · rw [if_pos heq]
      cases op <;> simp [holds, Relates] <;> omega
    · rw [if_neg heq]
      cases op <;> simp [holds, Relates] <;> omega

namespace Database

variable {db : Database} {p : RelationPath} {r : Row} {op : CompareOp} {n : Int64}

/-- The values of a column that are not missing. -/
def presentValues (column : ColumnRef) (rows : List JoinedRow) : List Value :=
  (rows.map fun row => row.read column).filter fun v => !v.isNull

/-- The values of a column that are not missing are read in some row. -/
theorem mem_presentValues {column : ColumnRef} {rows : List JoinedRow} {k : Value} :
    k ∈ presentValues column rows ↔ k ≠ .null ∧ ∃ row ∈ rows, row.read column = k := by
  have hpresent : (!k.isNull) = true ↔ k ≠ .null := by
    rw [Bool.not_eq_true', Bool.eq_false_iff]
    exact not_congr Value.isNull_iff
  rw [presentValues, List.mem_filter, List.mem_map, hpresent, and_comm]

/-- A count on a group compares the number of the distinct values of its column that are not
missing. -/
theorem holds_count {rows : List JoinedRow} {column : ColumnRef}
    (h : ∀ row ∈ rows, column.aliasName ∈ row.aliases) :
    db.holds rows (.count column op n) = .ok true ↔
      ∃ keys : List Value, keys.Nodup ∧
        (∀ k, k ∈ keys ↔ k ≠ .null ∧ ∃ row ∈ rows, row.read column = k) ∧
        op.Relates keys.length n.toInt := by
  have hholds : db.holds rows (.count column op n) = .ok (op.holds
      (Ordered.cmp (Int.ofNat (OrderedSet.ofList (presentValues column rows)).size) n.toInt)) := by
    rw [holds_count_eq, countDistinct_eq h]
    rfl
  rw [hholds, Except.ok.injEq, CompareOp.holds_cmp_iff]
  constructor
  · intro hrelates
    -- The members of the set, in order, are a list of the values without repetition.
    refine ⟨(OrderedSet.ofList (presentValues column rows)).toList, OrderedMap.nodup_keys _,
      fun k => ?_, ?_⟩
    · rw [OrderedSet.mem_toList_ofList, mem_presentValues]
    · rwa [OrderedSet.length_toList]
  · rintro ⟨keys, hnodup, hmem, hrelates⟩
    rwa [OrderedSet.size_ofList hnodup fun k => (hmem k).trans mem_presentValues.symm]

/-- The terminal keys that left joins along a path find are those at the ends of the chains along
it. -/
theorem read_terminal_left {key : String} (hne : p.hops ≠ []) {k : Value} (hk : k ≠ .null) :
    (∃ next ∈ db.joinedTo (p.joins subqueryRoot .left) [[(subqueryRoot, some r)]],
      next.read ⟨p.terminalAlias, key⟩ = k) ↔
        ∃ rows, db.Chain r p.hops rows ∧ (rows.getLastD r).value key = k := by
  have hread : ∀ (next : JoinedRow) (part : Option Row), next.lookup p.terminalAlias = some part →
      next.read ⟨p.terminalAlias, key⟩ = (part.map fun last => last.value key).getD .null := by
    intro next part hpart
    rw [JoinedRow.read, hpart]
    rfl
  constructor
  · rintro ⟨next, hnext, hvalue⟩
    obtain ⟨part, hpart, hrelated⟩ := terminal_of_left hne hnext
    rw [hread next part hpart] at hvalue
    cases part with
    | none => exact absurd hvalue.symm hk
    | some last =>
      obtain ⟨rows, hchain, hlast⟩ := mem_related_iff.1 (hrelated last rfl)
      exact ⟨rows, hchain, hlast ▸ hvalue⟩
  · rintro ⟨rows, hchain, hvalue⟩
    obtain ⟨next, hnext, hpart⟩ :=
      exists_left_of_related hne (mem_related_iff.2 ⟨rows, hchain, rfl⟩)
    exact ⟨next, hnext, (hread next _ hpart).trans hvalue⟩

/-- A root row with a key meets a count along a path of some steps if the number of distinct keys
at the ends of its chains compares as asked. -/
theorem meets_countAlong {key : String} (hkey : p.terminalKey = ⟨p.terminalAlias, key⟩)
    (hne : p.hops ≠ []) (hfree : subqueryRoot ∉ p.hops.map Hop.aliasName)
    (hr : db.Keyed p.root p.rootKey r) {row : JoinedRow}
    (hrow : row.lookup p.root = some (some r)) :
    db.Meets row (p.countAlong op n).predicate ↔
      ∃ keys : List Value, keys.Nodup ∧
        (∀ k, k ∈ keys ↔
          k ≠ .null ∧ ∃ rows, db.Chain r p.hops rows ∧ (rows.getLastD r).value key = k) ∧
        op.Relates keys.length n.toInt := by
  have hclosed : (p.keySource .left .always (.count p.terminalKey op n)).Closed :=
    RelationPath.closed_keyAmong hne (fun c hc => absurd hc List.not_mem_nil) rfl
      (fun c hc => by rw [List.mem_singleton.1 hc]; rfl) rfl
  have hbound : ∀ next ∈ db.keyRows (p.keySource .left .always (.count p.terminalKey op n))
      (r.value p.rootKey), p.terminalKey.aliasName ∈ next.aliases := by
    intro next hnext
    exact aliases_of_tableRows (List.mem_filter.1 hnext).1
      (hclosed.having _ (List.mem_singleton_self _))
  have hmem : ∀ next,
      next ∈ db.keyRows (p.keySource .left .always (.count p.terminalKey op n))
        (r.value p.rootKey) ↔
      next ∈ db.joinedTo (p.joins subqueryRoot .left) [[(subqueryRoot, some r)]] :=
    fun next => (mem_keyRows_root hfree hr next).trans (and_iff_left truth_always)
  have hkeys : ∀ k, (k ≠ .null ∧
      ∃ next ∈ db.keyRows (p.keySource .left .always (.count p.terminalKey op n))
        (r.value p.rootKey), next.read p.terminalKey = k) ↔
      (k ≠ .null ∧ ∃ rows, db.Chain r p.hops rows ∧ (rows.getLastD r).value key = k) := by
    intro k
    simp only [hmem]
    rw [hkey]
    exact and_congr_right fun hk => read_terminal_left hne hk
  unfold RelationPath.countAlong
  rw [meets_keyAmong hclosed hr hrow, and_iff_right (keyRows_left_ne_nil hfree hr),
    holds_count hbound]
  simp only [hkeys]

/-- A count along a path of some steps selects the root rows for which the number of distinct keys
at the ends of the chains along the path compares as asked. -/
theorem selectsRows_countAlong {key : String} (hterminal : p.terminalKey = ⟨p.terminalAlias, key⟩)
    (hne : p.hops ≠ []) (hfree : subqueryRoot ∉ p.hops.map Hop.aliasName)
    (hunique : db.UniqueIn p.root p.rootKey)
    (hkey : ∀ r ∈ db.rows p.root, r.value p.rootKey ≠ .null) (op : CompareOp) (n : Int64) :
    db.SelectsRows p.root (p.countAlong op n) fun r =>
      ∃ keys : List Value, keys.Nodup ∧
        (∀ k, k ∈ keys ↔
          k ≠ .null ∧ ∃ rows, db.Chain r p.hops rows ∧ (rows.getLastD r).value key = k) ∧
        op.Relates keys.length n.toInt := by
  have heval : ∀ r ∈ db.rows p.root,
      db.Evaluates [(p.root, some r)] (p.countAlong op n).predicate := fun r _ =>
    evaluates_of_closed (RelationPath.closed_countAlong (List.mem_singleton_self p.root) hne)
  refine (selectsRows_of_no_joins rfl heval).congr fun r hr => ?_
  exact meets_countAlong hterminal hne hfree ⟨hr, hunique, hkey r hr⟩ List.lookup_cons_self

end Database

variable {c : Catalog} {root : String} {names : List String} {p : RelationPath}

/-- In a database whose keys identify the root rows, a count along a path of some steps selects the
root rows for which the number of distinct keys at the ends of the chains along the path compares
as asked. A row at the end of several chains counts once, and without a chain the number is zero. -/
theorem countAlong_selects (hc : c.Built) (hp : c.path root names = .ok p) (hne : p.hops ≠ [])
    (hfree : subqueryRoot ∉ p.hops.map Hop.aliasName) {db : Database}
    (hunique : db.UniqueIn p.root p.rootKey)
    (hkey : ∀ r ∈ db.rows p.root, r.value p.rootKey ≠ .null) (op : CompareOp) (n : Int64) :
    ∃ target, c.table? p.terminalTable = some target ∧
      db.SelectsRows p.root (p.countAlong op n) fun r =>
        ∃ keys : List Value, keys.Nodup ∧
          (∀ k, k ∈ keys ↔ k ≠ .null ∧
            ∃ rows, db.Chain r p.hops rows ∧ (rows.getLastD r).value target.key = k) ∧
          op.Relates keys.length n.toInt := by
  obtain ⟨target, htarget, hterminal⟩ := Catalog.exists_terminal hc.coherent hp
  exact ⟨target, htarget,
    Database.selectsRows_countAlong hterminal hne hfree hunique hkey op n⟩

/-- Where ids are integers, the execution of such a count as the scope of a domain gives the ids of
the root rows that it selects. -/
theorem countAlong_selects_ids (hc : c.Built) {domain : Domain}
    (hp : c.path domain.rootTable names = .ok p) (hne : p.hops ≠ [])
    (hfree : subqueryRoot ∉ p.hops.map Hop.aliasName) {db : Database}
    (hunique : db.UniqueIn domain.rootTable p.rootKey)
    (hkey : ∀ r ∈ db.rows domain.rootTable, r.value p.rootKey ≠ .null)
    (hid : ∀ r ∈ db.rows domain.rootTable, ∃ id, Row.value r "id" = .int id) (op : CompareOp)
    (n : Int64) :
    ∃ target, c.table? p.terminalTable = some target ∧
      db.SelectsIds domain (p.countAlong op n) fun r =>
        ∃ keys : List Value, keys.Nodup ∧
          (∀ k, k ∈ keys ↔ k ≠ .null ∧
            ∃ rows, db.Chain r p.hops rows ∧ (rows.getLastD r).value target.key = k) ∧
          op.Relates keys.length n.toInt := by
  obtain ⟨target, htarget, hterminal⟩ := Catalog.exists_terminal hc.coherent hp
  obtain ⟨start, hstart, -, hname, -⟩ := Catalog.path_eq_ok hp
  have hroot : p.root = domain.rootTable := hname.trans (hc.coherent.table_name hstart)
  rw [← hroot] at hunique hkey
  have hselects := Database.selectsRows_countAlong hterminal hne hfree hunique hkey op n
  rw [hroot] at hselects
  -- The count is a condition without joins.
  exact ⟨target, htarget, hselects.selectsIds trivial List.not_mem_nil hid⟩

/-- Two grants, of which one is linked to the group 5 twice and to the group 6 once. -/
def Database.twiceLinked : Database where
  tables := OrderedMap.ofList
    [("Grants", [OrderedMap.ofList [("id", .int 1)], OrderedMap.ofList [("id", .int 2)]]),
      ("GroupGrants",
        [OrderedMap.ofList [("id", .int 7), ("grantId", .int 1), ("groupId", .int 5)],
          OrderedMap.ofList [("id", .int 8), ("grantId", .int 1), ("groupId", .int 5)],
          OrderedMap.ofList [("id", .int 9), ("grantId", .int 1), ("groupId", .int 6)]]),
      ("Groups", [OrderedMap.ofList [("id", .int 5)], OrderedMap.ofList [("id", .int 6)]])]

/-- The grants with two groups are those whose chains of links end in two distinct groups. -/
theorem two_groups_twiceLinked :
    ∃ c p target, Catalog.standard = .ok c ∧ c.path "Grants" ["groupGrants", "group"] = .ok p ∧
      c.table? p.terminalTable = some target ∧
      Database.twiceLinked.SelectsRows p.root (p.countAlong .eq 2) fun r =>
        ∃ keys : List Value, keys.Nodup ∧
          (∀ k, k ∈ keys ↔ k ≠ .null ∧ ∃ rows, Database.twiceLinked.Chain r p.hops rows ∧
            (rows.getLastD r).value target.key = k) ∧
          (keys.length : Int) = 2 := by
  obtain ⟨c, paths, hc, hpaths⟩ := ReadPaths.exists_resolve
  have hbuilt : c.Built := Catalog.built_of_build hc
  have hids : Database.twiceLinked.Identified :=
    Database.identified_of_entries (by decide +kernel)
  have hpath := ReadPaths.get_eq hpaths .grantGroups
  obtain ⟨start, hstart, -, -, hkey⟩ := Catalog.path_eq_ok hpath
  rw [Catalog.standard_key hc hstart] at hkey
  obtain ⟨-, hinner⟩ := ReadPaths.aliases_separate hbuilt.coherent hpaths .grantGroups
  obtain ⟨target, htarget, hselects⟩ := countAlong_selects hbuilt hpath
    (ReadPaths.hops_ne_nil hbuilt.coherent hpaths (by decide)) (List.nodup_cons.1 hinner).1
    (hkey ▸ hids.uniqueIn) (fun r hr => hkey ▸ (hids.keyed hr).not_null) .eq 2
  exact ⟨c, _, target, hc, hpath, htarget, hselects⟩

end RowScope
