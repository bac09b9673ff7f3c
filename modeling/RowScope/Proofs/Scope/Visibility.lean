import RowScope.Proofs.Memory.Agreement
import RowScope.Proofs.Scope.Typing

/-!
# Groups that a user may not see

Two databases that differ only in groups which a user may not see give a compiled scope of that user
the same ids (`select_eq_of_visibly`). Joins outside of subqueries never reach the groups, for the
way to them fans out (`Catalog.table_ne_groups`, `Catalog.fansOut_of_readsGroups`). A subquery finds
its keys by the related rows that meet a condition on groups, and such a condition is met by visible
groups only (`visible_of_asks`), which both databases have.
-/

namespace RowScope

/-- Whether a user may see a group: a public one or one of the user's own. -/
def Row.visibleTo (user : Option Int64) (row : Row) : Bool :=
  row.value "isPublic" = .bool true ||
    match user with
    | some user => row.value "userId" = .int user
    | none => false

/-- Two databases differ at most in the groups that a user may not see. -/
structure Database.VisiblyEqual (user : Option Int64) (db other : Database) : Prop where
  /-- All other tables have the same rows. -/
  rows_eq : ∀ table, table ≠ "Groups" → db.rows table = other.rows table
  /-- The groups that the user may see are the same. -/
  visible_eq : (db.rows "Groups").filter (Row.visibleTo user) =
    (other.rows "Groups").filter (Row.visibleTo user)

namespace Catalog

variable {c : Catalog} {root : String} {current : Table} {before : Option String}
  {names : List String} {hops : List Hop} {columns : List String}

/-- In the standard catalog the edges to groups are those named `group`, no edge leaves the groups,
and the links from grants to groups may be several. -/
theorem standard_groups (h : Catalog.standard = .ok c) {key : String × String} {edge : Edge}
    (hedge : c.edges.get? key = some edge) :
    (edge.target = "Groups" → edge.name = "group") ∧ edge.source ≠ "Groups" ∧
      (edge.name = "groupGrants" → edge.cardinality = .oneToMany) := by
  have all : ∀ edge ∈ standardEdges, (edge.target = "Groups" → edge.name = "group") ∧
      edge.source ≠ "Groups" ∧ (edge.name = "groupGrants" → edge.cardinality = .oneToMany) := by
    decide
  exact all edge ((within_of_build h).edge_mem hedge)

/-- A path without a step to groups does not reach the groups. -/
theorem table_ne_groups (hc : c.Coherent) (hstd : Catalog.standard = .ok c)
    (h : c.hopsFrom root current before names = .ok (hops, columns)) (hnames : "group" ∉ names) :
    ∀ hop ∈ hops, hop.table ≠ "Groups" := by
  intro hop hhop htable
  obtain ⟨key, edge, hedge, hmem, he⟩ := (edges_of_hopsFrom hc h).1 hop hhop
  exact hnames ((standard_groups hstd hedge).1 (he ▸ htable) ▸ hmem)

/-- A path to groups may lead to several of them. -/
theorem fansOut_of_readsGroups (hc : c.Coherent) (hstd : Catalog.standard = .ok c)
    {paths : ReadPaths} (hpaths : ReadPaths.resolve c = .ok paths) {q : ReadPath}
    (hq : q.readsGroups = true) : (paths.get q).fansOut = true := by
  have links : ∀ q : ReadPath, q.readsGroups = true → "groupGrants" ∈ q.hops := by
    intro q
    cases q <;> decide
  obtain ⟨start, -, hhops, -⟩ := path_eq_ok (ReadPaths.get_eq hpaths q)
  obtain ⟨hop, hhop, key, edge, hedge, hname, hcard⟩ :=
    (edges_of_hopsFrom hc hhops).2 _ (links q hq)
  rw [(standard_groups hstd hedge).2.2 hname] at hcard
  exact List.any_eq_true.2 ⟨hop, hhop, decide_eq_true hcard⟩

end Catalog

namespace Database

variable {c : Catalog} {user : Option Int64} {db other : Database} {last : Row}

/-- A row that is visible or of another table is in both databases. -/
theorem VisiblyEqual.mem_rows (h : db.VisiblyEqual user other) {table : String}
    (hlast : table = "Groups" → last.visibleTo user = true) :
    last ∈ db.rows table ↔ last ∈ other.rows table := by
  by_cases htable : table = "Groups"
  · have hvisible := hlast htable
    subst htable
    have hmem : last ∈ (db.rows "Groups").filter (Row.visibleTo user) ↔
        last ∈ (other.rows "Groups").filter (Row.visibleTo user) := by rw [h.visible_eq]
    simpa [List.mem_filter, hvisible] using hmem
  · rw [h.rows_eq table htable]

/-- A row that is visible, if it is a group, is related to a row in both databases or in none. -/
theorem VisiblyEqual.mem_related (h : db.VisiblyEqual user other) (hc : c.Coherent)
    (hstd : Catalog.standard = .ok c) {root : String} {current : Table} {before : Option String}
    {names : List String} {hops : List Hop} {columns : List String}
    (hfound : c.hopsFrom root current before names = .ok (hops, columns))
    (hlast : "group" ∈ names → last.visibleTo user = true) (r : Row) :
    last ∈ db.related hops r ↔ last ∈ other.related hops r := by
  induction names generalizing current before hops r with
  | nil =>
    cases hfound
    exact Iff.rfl
  | cons name names ih =>
    obtain ⟨edge, target, rest, hedge, htarget, -, hrest, rfl⟩ := Catalog.hopsFrom_cons.1 hfound
    obtain ⟨-, hname⟩ := Prod.mk.inj (hc.edge_key hedge)
    have htargetName : target.name = edge.target := hc.table_name htarget
    have hmore : "group" ∈ names → last.visibleTo user = true :=
      fun hmem => hlast (List.mem_cons_of_mem name hmem)
    rw [related, related]
    by_cases hgroups : target.name = "Groups"
    · -- No edge leaves the groups, so this is the last step.
      cases names with
      | nil =>
        cases hrest
        have hsingle : ∀ rows : List Row, rows.flatMap (fun r => [r]) = rows :=
          fun rows => by simp
        have hvisible : last.visibleTo user = true := by
          apply hlast
          rw [hname, (Catalog.standard_groups hstd hedge).1 (htargetName ▸ hgroups)]
          exact List.mem_cons_self
        have hrelated : ∀ db : Database, db.related [] = fun r => [r] := fun _ => rfl
        rw [hrelated, hrelated, hsingle, hsingle]
        unfold stepRows
        dsimp only
        split
        · exact Iff.rfl
        · rw [List.mem_filter, List.mem_filter, h.mem_rows fun _ => hvisible]
      | cons next names =>
        obtain ⟨onward, -, -, honward, -⟩ := Catalog.hopsFrom_cons.1 hrest
        obtain ⟨hsource, -⟩ := Prod.mk.inj (hc.edge_key honward)
        exact absurd (hsource.symm.trans hgroups) (Catalog.standard_groups hstd honward).2.1
    · have hstep : ∀ hop : Hop, hop.table = target.name →
          db.stepRows hop r = other.stepRows hop r := by
        intro hop htable
        unfold stepRows
        rw [htable, h.rows_eq target.name hgroups]
      rw [hstep _ rfl]
      simp only [List.mem_flatMap]
      exact exists_congr fun next => and_congr_right fun _ => ih hrest hmore next

/-- A row with a value in a column is found equal to that value only. -/
theorem value_of_meets_equals {aliasName column : String} {v : Value}
    (h : db.Meets [(aliasName, some last)] (.equals ⟨aliasName, column⟩ v)) :
    last.value column = v := by
  have hread : JoinedRow.value [(aliasName, some last)] ⟨aliasName, column⟩ =
      .ok (last.value column) := by
    rw [JoinedRow.value, List.lookup_cons_self]
  rw [Meets, truth_equals, hread] at h
  exact CompareOp.eq_of_truth (Except.ok.inj h)

/-- A group that meets the condition of visibility is visible. -/
theorem visible_of_meets {p : RelationPath}
    (h : db.Meets [(p.terminalAlias, some last)] (groupVisible p user)) :
    last.visibleTo user = true := by
  have hpublic : ∀ user, db.Meets [(p.terminalAlias, some last)]
      (.equals (p.terminalColumn "isPublic") (.bool true)) → last.visibleTo user = true := by
    intro user hmeets
    simp [Row.visibleTo, value_of_meets_equals hmeets]
  cases user with
  | none => exact hpublic none h
  | some user =>
    have hreads : ∀ part ∈ [Predicate.equals (p.terminalColumn "userId") (.int user),
        .equals (p.terminalColumn "isPublic") (.bool true)], Reads (p, part) := by
      intro part hpart
      rcases List.mem_cons.1 hpart with rfl | hpart
      · exact reads_comparison rfl
      · rw [List.mem_singleton.1 hpart]
        exact reads_comparison rfl
    rw [groupVisible, meets_disj fun part hpart => (hreads part hpart).evaluates db _] at h
    obtain ⟨part, hpart, hmeets⟩ := h
    rcases List.mem_cons.1 hpart with rfl | hpart
    · simp [Row.visibleTo, value_of_meets_equals hmeets]
    · rw [List.mem_singleton.1 hpart] at hmeets
      exact hpublic (some user) hmeets

variable {paths : ReadPaths} {q : ReadPath} {v : Predicate}

/-- A group that meets a condition which rules ask of groups is visible. -/
theorem visible_of_asks (h : Asks paths user q v) (hq : q.readsGroups = true)
    (hmeets : db.Meets [((paths.get q).terminalAlias, some last)] v) :
    last.visibleTo user = true := by
  obtain ⟨matching, hmatching, rfl⟩ := h.guarded hq
  exact visible_of_meets ((meets_visibleGroup hmatching.reads db _).1 hmeets).2

/-- A condition that rules ask reaches rows in both databases or in none. -/
theorem VisiblyEqual.reaches (h : db.VisiblyEqual user other) (hc : c.Coherent)
    (hstd : Catalog.standard = .ok c) (hpaths : ReadPaths.resolve c = .ok paths)
    (hv : Asks paths user q v) (r : Row) :
    db.Reaches (paths.get q, v) r ↔ other.Reaches (paths.get q, v) r := by
  obtain ⟨start, -, hfound, -⟩ := Catalog.path_eq_ok (ReadPaths.get_eq hpaths q)
  have hmeets : ∀ last, db.Meets [((paths.get q).terminalAlias, some last)] v ↔
      other.Meets [((paths.get q).terminalAlias, some last)] v :=
    fun last => meets_of_flat db other hv.inspects.reads.flat
  have hrelated : ∀ last, db.Meets [((paths.get q).terminalAlias, some last)] v →
      (last ∈ db.related (paths.get q).hops r ↔ last ∈ other.related (paths.get q).hops r) := by
    intro last hlast
    apply h.mem_related hc hstd hfound
    exact fun hgroup => visible_of_asks hv (List.contains_iff_mem.2 hgroup) hlast
  constructor
  · rintro ⟨last, hlast, hm⟩
    exact ⟨last, (hrelated last hm).1 hlast, (hmeets last).1 hm⟩
  · rintro ⟨last, hlast, hm⟩
    have hm := (hmeets last).2 hm
    exact ⟨last, (hrelated last hm).2 hlast, hm⟩

/-- Joins along the steps of a path that does not read groups have the same rows in both
databases. -/
theorem VisiblyEqual.rows_joins (h : db.VisiblyEqual user other) (hc : c.Coherent)
    (hstd : Catalog.standard = .ok c) (hpaths : ReadPaths.resolve c = .ok paths)
    (hq : q.readsGroups = false) (root : String) (kind : JoinKind) :
    ∀ j ∈ (paths.get q).joins root kind, db.rows j.table = other.rows j.table := by
  obtain ⟨start, -, hfound, -⟩ := Catalog.path_eq_ok (ReadPaths.get_eq hpaths q)
  have hnames : "group" ∉ q.hops := by
    simpa [ReadPath.readsGroups] using hq
  intro j hj
  obtain ⟨hop, hhop, htable⟩ := RelationPath.table_of_mem_joinsFrom hj
  rw [htable]
  exact h.rows_eq _ (Catalog.table_ne_groups hc hstd hfound hnames hop hhop)

/-- The test for the keys of a subquery along a path has the same truth in both databases. -/
theorem VisiblyEqual.truth_keys (h : db.VisiblyEqual user other) (hc : c.Coherent)
    (hstd : Catalog.standard = .ok c) (hpaths : ReadPaths.resolve c = .ok paths) {start : Table}
    (hstart : c.table? q.root = some start) (hroot : q.root ≠ "Groups")
    (hhops : (paths.get q).hops ≠ []) {s : Subquery} (hs : s.Along paths user q)
    {row : JoinedRow} {col : ColumnRef} :
    db.truth row (.inSet col s) = other.truth row (.inSet col s) := by
  have hrows : db.rows (paths.get q).root = other.rows (paths.get q).root := by
    rw [ReadPaths.root_eq hc hpaths]
    exact h.rows_eq q.root hroot
  have hfits : ∀ v, Asks paths user q v →
      Fits (paths.get q).root (paths.get q).rootKey (paths.get q, v) := by
    intro v hv
    obtain ⟨-, hname, hkey⟩ := ReadPaths.hopsFrom_eq hpaths hstart
    rw [hname, hkey]
    exact (ReadPaths.serves hc hpaths hstart hv.inspects.reads).toFits
  have hclosed := (hs.wellTyped hc hpaths hstart hhops).closed
  cases hs with
  | anyRow hv =>
    obtain ⟨ks, hks, hspec⟩ := keys_inner db (hfits _ hv) hhops
    obtain ⟨others, hothers, hspec'⟩ := keys_inner other (hfits _ hv) hhops
    refine truth_inSet_congr hks hothers fun k => ?_
    simp only [hspec, hspec', hrows, h.reaches hc hstd hpaths hv]
  | noRow hv =>
    obtain ⟨ks, hks, hspec⟩ := keys_left db (hfits _ hv) hhops
    obtain ⟨others, hothers, hspec'⟩ := keys_left other (hfits _ hv) hhops
    refine truth_inSet_congr hks hothers fun k => ?_
    simp only [hspec, hspec', hrows, h.reaches hc hstd hpaths hv]
  | counted hq =>
    exact truth_inSet_of_rows hclosed hrows (h.rows_joins hc hstd hpaths hq subqueryRoot .left)

end Database

/-- Two databases that differ only in groups which a user may not see give every compiled scope of
that user the same result. -/
theorem select_eq_of_visibly {config : Config} {c : Compiler}
    (hc : Compiler.ofConfig config = .ok c) {user : Option Int64} {filters : FilterSet}
    {domain : Domain} {s : Scope} (hs : c.compileDomain domain filters user = .ok s)
    {db other : Database} (h : db.VisiblyEqual user other) :
    db.select domain s = other.select domain s := by
  obtain ⟨hlawful, hstd⟩ := Compiler.lawful_ofConfig hc
  obtain ⟨start, hstart⟩ := hlawful.exists_root domain
  have hsound := hlawful.sound_compiled hstart hs
  have htraced := hlawful.traced_compiled hs
  have hroot : domain.rootTable ≠ "Groups" := by cases domain <;> decide
  have hbound : JoinsBound [domain.rootTable] s.extraJoins :=
    hlawful.coherent.table_name hstart ▸ hsound.bound
  -- The way to groups fans out, so no join of the scope itself reaches them.
  have hjoins : ∀ j ∈ s.extraJoins, db.rows j.table = other.rows j.table := by
    intro j hj
    obtain ⟨q, -, hone, hj⟩ := htraced.steps j hj
    refine h.rows_joins hlawful.coherent hstd hlawful.paths ?_ _ _ j hj
    rw [Bool.eq_false_iff]
    intro hq
    rw [Catalog.fansOut_of_readsGroups hlawful.coherent hstd hlawful.paths hq] at hone
    cases hone
  have htruth : ∀ row, db.truth row s.predicate = other.truth row s.predicate := by
    intro row
    apply Database.truth_congr_atoms
    intro a ha
    cases htraced.atoms a ha with
    | row _ _ _ hv hatom =>
      refine Database.truth_of_flat_atom (Predicate.atom_of_mem hatom).1 ?_
      exact Predicate.subquery?_of_flat hv.inspects.reads.flat hatom
    | keys hq hhops hs' =>
      exact h.truth_keys hlawful.coherent hstd hlawful.paths (hq ▸ hstart) (hq ▸ hroot) hhops hs'
  have hentry : db.entry domain.rootTable s.predicate =
      other.entry domain.rootTable s.predicate := by
    funext row
    unfold Database.entry
    rw [htruth]
  rw [Database.select_of_joined (Database.joined_eq hbound),
    Database.select_of_joined (Database.joined_eq hbound), hentry, h.rows_eq _ hroot]
  simp only [Database.joinedTo_congr hjoins]

/-- A group that a user may not see may be added to a database. -/
theorem Database.visiblyEqual_insert {user : Option Int64} (db : Database) {row : Row}
    (h : row.visibleTo user = false) : (db.insert "Groups" row).VisiblyEqual user db where
  rows_eq table htable := by
    unfold insert rows
    rw [OrderedMap.get?_insert, if_neg htable]
  visible_eq := by
    have hrows : (db.insert "Groups" row).rows "Groups" = db.rows "Groups" ++ [row] := by
      unfold insert rows
      rw [OrderedMap.get?_insert, if_pos rfl]
      rfl
    rw [hrows, List.filter_append, List.filter_singleton, h]
    exact List.append_nil _

/-- Two grants, of which one is linked to the group 5. -/
def Database.linkedGrants : Database where
  tables := OrderedMap.ofList
    [("Grants", [OrderedMap.ofList [("id", .int 1)], OrderedMap.ofList [("id", .int 2)]]),
      ("GroupGrants",
        [OrderedMap.ofList [("id", .int 8), ("grantId", .int 1), ("groupId", .int 5)]])]

/-- A private group of the user 3 with the id 5. -/
def Row.privateGroup : Row :=
  OrderedMap.ofList
    [("id", .int 5), ("name", .text "alpha"), ("userId", .int 3), ("isPublic", .bool false)]

/-- The filter for the grants outside of the groups named `alpha`. -/
def FilterSet.outsideAlpha : FilterSet :=
  OrderedMap.ofList [(FilterKey.named .group .noneOf, .single "alpha")]

/-- To the user 9 a private group of another user is as if it were missing: the grants outside of
groups of its name are the same with it and without it. -/
theorem select_linkedGrants_eq :
    ∃ c s, Compiler.ofConfig Config.common = .ok c ∧
      c.compileDomain .grant .outsideAlpha (some 9) = .ok s ∧
      (Database.linkedGrants.insert "Groups" .privateGroup).select .grant s =
        Database.linkedGrants.select .grant s := by
  obtain ⟨c, hc, hcompiles⟩ := Compiler.exists_common
  obtain ⟨s, hs⟩ := hcompiles .grant .outsideAlpha (some 9)
  have hinvisible : Row.privateGroup.visibleTo (some 9) = false := by decide +kernel
  exact ⟨c, s, hc, hs,
    select_eq_of_visibly hc hs (Database.linkedGrants.visiblyEqual_insert hinvisible)⟩

end RowScope
