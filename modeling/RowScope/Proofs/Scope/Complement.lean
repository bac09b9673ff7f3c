import RowScope.Proofs.Memory.Agreement
import RowScope.Proofs.Relation.Acceptance

/-!
# Where the modes are complements

The two modes of a condition along a path of the standard catalog are meant to share out the root
rows, and rows without related rows to be excluded by the first and kept by the second. Both depend
on what the condition says where there is no row (`RelationPath.MetByNone`). Left joins complete a
root row without related rows by a missing one, and a condition that is met by it, such as the test
for a missing value, takes it for a related row that meets the condition. `complement_iff` says for
which paths and conditions the two laws hold in every database whose ids identify the rows. The
first law fails along paths that fan out: their inner joins in mode `including` have no missing
row, and the left joins in mode `excluding` have one. The second law fails along all paths.
-/

namespace RowScope

/-- A condition on the row at the end of a path is met where there is none. -/
def RelationPath.MetByNone (p : RelationPath) (v : Predicate) : Prop :=
  Database.empty.Meets [(p.terminalAlias, none)] v

/-- Along a path that does not fan out a condition stays what it is. -/
theorem RelationPath.including_of_single {p : RelationPath} (h : p.fansOut = false)
    (v : Predicate) : p.existsAlong v .including = ⟨v, p.joins p.root .left⟩ := by
  unfold existsAlong
  rw [h]
  rfl

/-- Along a path that does not fan out a condition is excluded by its complement. -/
theorem RelationPath.excluding_of_single {p : RelationPath} (h : p.fansOut = false)
    (v : Predicate) : p.existsAlong v .excluding = ⟨v.negate, p.joins p.root .left⟩ := by
  unfold existsAlong
  rw [h]
  rfl

namespace Database

/-- Both modes of a condition along a path select rows, and each root row is selected in exactly
one of them. -/
def Complements (db : Database) (p : RelationPath) (v : Predicate) : Prop :=
  (∀ mode, ∃ kept, db.selectRows p.root (p.existsAlong v mode) = .ok kept) ∧
    ∀ r ∈ db.rows p.root, db.Selected p.root (p.existsAlong v .excluding) r ↔
      ¬ db.Selected p.root (p.existsAlong v .including) r

/-- A root row without related rows is not selected in mode `including`, and is in mode
`excluding`. -/
def KeepsUnrelated (db : Database) (p : RelationPath) (v : Predicate) : Prop :=
  ∀ r ∈ db.rows p.root, (¬ ∃ rows, db.Chain r p.hops rows) →
    ¬ db.Selected p.root (p.existsAlong v .including) r ∧
      db.Selected p.root (p.existsAlong v .excluding) r

variable {db : Database} {p : RelationPath} {v : Predicate} {r : Row} {mode : Mode}

/-! ## Rows without related rows -/

/-- Inner joins find nothing for a row without related rows. -/
theorem not_meets_inner_of_unrelated (hne : p.hops ≠ [])
    (hcols : ∀ c ∈ v.columns, c.aliasName = p.terminalAlias) (hflat : v.subqueries = [])
    (hfree : subqueryRoot ∉ p.hops.map Hop.aliasName) (hr : db.Keyed p.root p.rootKey r)
    (hnone : db.related p.hops r = []) :
    ¬ db.Meets [(p.root, some r)] (p.keyAmong .inner v .absent).predicate := by
  have hclosed : (p.keySource .inner v .absent).Closed :=
    RelationPath.closed_keyAmong hne hcols hflat (fun c hc => absurd hc List.not_mem_nil) rfl
  have hself : List.lookup subqueryRoot [(subqueryRoot, some r)] = some (some r) :=
    List.lookup_cons_self
  have hjoined : db.joinedTo (p.joins subqueryRoot .inner) [[(subqueryRoot, some r)]] = [] := by
    have hparts := lookup_inner db p.hops hself
    rw [hnone] at hparts
    exact List.map_eq_nil_iff.1 hparts
  rw [meets_keyAmong hclosed hr List.lookup_cons_self]
  rintro ⟨hsome, -⟩
  obtain ⟨next, hnext⟩ := List.exists_mem_of_ne_nil _ hsome
  have hmem := ((mem_keyRows_root hfree hr next).1 hnext).1
  rw [hjoined] at hmem
  exact absurd hmem List.not_mem_nil

/-- Left joins find a missing row for a row without related rows, which counts as one that meets the
condition if the condition is met by none. -/
theorem not_meets_left_of_unrelated (hne : p.hops ≠ [])
    (hcols : ∀ c ∈ v.columns, c.aliasName = p.terminalAlias) (hflat : v.subqueries = [])
    (hfree : subqueryRoot ∉ p.hops.map Hop.aliasName) (hr : db.Keyed p.root p.rootKey r)
    (hnone : db.related p.hops r = []) (hmet : p.MetByNone v) :
    ¬ db.Meets [(p.root, some r)] (p.keyAmong .left .always (.noneMatch v)).predicate := by
  have hclosed : (p.keySource .left .always (.noneMatch v)).Closed :=
    RelationPath.closed_keyAmong hne (fun c hc => absurd hc List.not_mem_nil) rfl hcols hflat
  rw [meets_keyAmong hclosed hr List.lookup_cons_self,
    holds_noneMatch (evaluates_keyRows hne hcols hflat), Except.ok.injEq, decide_eq_true_eq]
  rintro ⟨hsome, hall⟩
  obtain ⟨next, hnext⟩ := List.exists_mem_of_ne_nil _ hsome
  obtain ⟨part, hpart, hrelated⟩ :=
    terminal_of_left hne ((mem_keyRows_root hfree hr next).1 hnext).1
  -- The terminal part is no related row, so it is missing.
  cases part with
  | some last =>
    have hlast := hrelated last rfl
    rw [hnone] at hlast
    exact absurd hlast List.not_mem_nil
  | none =>
    refine hall next hnext ((meets_congr_terminal hcols hpart).2 ?_)
    exact (meets_of_flat Database.empty db hflat).1 hmet

/-! ## Selection along a path of the standard catalog -/

variable {c : Catalog} {start : Table}

/-- A condition along a path that the catalog follows selects the root rows that meet it with their
partners. -/
theorem selectsRows_existsAlong (hc : c.Coherent) (hdb : db.Honours c) (hp : c.Follows start p)
    (hcols : ∀ col ∈ v.columns, col.aliasName = p.terminalAlias) (hflat : v.subqueries = [])
    (mode : Mode) :
    db.SelectsRows p.root (p.existsAlong v mode) fun r =>
      db.Selects p.root (p.existsAlong v mode).predicate (p.existsAlong v mode).extraJoins r := by
  rw [hp.root_eq]
  exact selectsRows_of_sound hc hdb (Sound.existsAlong hc hp hcols hflat mode)

/-- A condition along a path that the catalog follows, not met where there is no row, selects a root
row with a key by its related rows. -/
theorem selected_iff_reaches (hc : c.Coherent) (hdb : db.Honours c) (hp : c.Follows start p)
    (hv : Reads (p, v)) (hr : db.Keyed p.root p.rootKey r) (mode : Mode) :
    db.Selected p.root (p.existsAlong v mode) r ↔ mode.Keeps (db.Reaches (p, v) r) := by
  have hselects := selectsRows_existsAlong hc hdb hp hv.columns hv.flat mode
  have hkeyed : db.Keyed start.name start.key r := hp.root_eq ▸ hp.key_eq ▸ hr
  rw [hselects.selected_iff hr.mem, hp.root_eq]
  exact selects_existsAlong hc hdb (hp.serves hv) hkeyed mode

/-- The modes of a condition that is not met where there is no row select complementary rows. -/
theorem complements_of_reads (hc : c.Coherent) (hdb : db.Honours c) (hp : c.Follows start p)
    (hv : Reads (p, v)) (hkeyed : ∀ r ∈ db.rows p.root, db.Keyed p.root p.rootKey r) :
    db.Complements p v := by
  refine ⟨fun mode => ?_, fun r hr => ?_⟩
  · exact (selectsRows_existsAlong hc hdb hp hv.columns hv.flat mode).exists_selectRows
  · have hselected := selected_iff_reaches hc hdb hp hv (hkeyed r hr)
    rw [hselected .excluding, hselected .including]
    exact Iff.rfl

/-- Rows without related rows are kept in mode `excluding` alone by a condition that is not met
where there is no row. -/
theorem keepsUnrelated_of_reads (hc : c.Coherent) (hdb : db.Honours c) (hp : c.Follows start p)
    (hv : Reads (p, v)) (hkeyed : ∀ r ∈ db.rows p.root, db.Keyed p.root p.rootKey r) :
    db.KeepsUnrelated p v := by
  intro r hr hunrelated
  have hselected := selected_iff_reaches hc hdb hp hv (hkeyed r hr)
  have hnot : ¬ db.Reaches (p, v) r := by
    rintro ⟨last, hlast, -⟩
    rw [related_eq_nil_iff.2 hunrelated] at hlast
    exact absurd hlast List.not_mem_nil
  exact ⟨fun hsel => hnot ((hselected .including).1 hsel), (hselected .excluding).2 hnot⟩

section

variable (hc : c.Coherent) (hdb : db.Honours c) (hp : c.Follows start p)
  (hcols : ∀ col ∈ v.columns, col.aliasName = p.terminalAlias) (hflat : v.subqueries = [])

include hc hdb hp hcols hflat

/-- The modes of a condition along a path that does not fan out select complementary rows. -/
theorem complements_of_single (hsingle : p.fansOut = false) : db.Complements p v := by
  have hselects := selectsRows_existsAlong hc hdb hp hcols hflat
  have hsound := Sound.existsAlong hc hp hcols hflat .including
  refine ⟨fun mode => (hselects mode).exists_selectRows, fun r hr => ?_⟩
  rw [RelationPath.including_of_single hsingle] at hsound
  have heval := evaluates_of_sound hsound (completes_of_sound db r hsound)
  rw [(hselects .excluding).selected_iff hr, (hselects .including).selected_iff hr,
    RelationPath.including_of_single hsingle, RelationPath.excluding_of_single hsingle, hp.root_eq]
  exact meets_negate (hp.root_eq ▸ heval)

/-- A condition that is met by none selects a root row without related rows along a path that does
not fan out. -/
theorem selected_of_unrelated (hsingle : p.fansOut = false) (hr : r ∈ db.rows p.root)
    (hnone : db.related p.hops r = []) (hmet : p.MetByNone v) :
    db.Selected p.root (p.existsAlong v .including) r := by
  have hselects := selectsRows_existsAlong hc hdb hp hcols hflat .including
  have hsound := Sound.existsAlong hc hp hcols hflat .including
  rw [hselects.selected_iff hr]
  have hone := hsound.single hc hdb
  have hrow := completes_of_sound db r hsound
  rw [← hp.root_eq] at hrow
  rw [RelationPath.including_of_single hsingle] at hone hrow ⊢
  obtain ⟨part, hpart, hlist⟩ := terminal_of_single (fun j hj => (hone j hj).2) hrow
  -- No related row means that the joined one is missing.
  rw [hnone] at hlist
  obtain rfl : part = none := Option.toList_eq_nil_iff.1 hlist.symm
  exact (meets_congr_terminal hcols hpart).2 ((meets_of_flat Database.empty db hflat).1 hmet)

/-- A condition that is met by none selects a root row without related rows in no mode along a path
that fans out. -/
theorem not_selected_of_unrelated (hfans : p.fansOut = true)
    (hr : db.Keyed p.root p.rootKey r) (hnone : db.related p.hops r = []) (hmet : p.MetByNone v)
    (mode : Mode) : ¬ db.Selected p.root (p.existsAlong v mode) r := by
  have hne := RelationPath.hops_ne_nil_of_fansOut hfans
  rw [(selectsRows_existsAlong hc hdb hp hcols hflat mode).selected_iff hr.mem]
  unfold RelationPath.existsAlong
  rw [if_pos hfans]
  cases mode with
  | including => exact not_meets_inner_of_unrelated hne hcols hflat hp.inner_free hr hnone
  | excluding => exact not_meets_left_of_unrelated hne hcols hflat hp.inner_free hr hnone hmet

/-- The modes of a condition that is met by none are no complements along a path that fans out, if
some root row has no related rows. -/
theorem not_complements_of_unrelated (hfans : p.fansOut = true)
    (hr : db.Keyed p.root p.rootKey r) (hnone : db.related p.hops r = []) (hmet : p.MetByNone v) :
    ¬ db.Complements p v := by
  rintro ⟨-, hlaw⟩
  have hneither := not_selected_of_unrelated hc hdb hp hcols hflat hfans hr hnone hmet
  exact hneither .excluding ((hlaw r hr.mem).2 (hneither .including))

/-- A condition that is met by none does not keep the root rows without related rows in mode
`excluding` alone. -/
theorem not_keepsUnrelated_of_unrelated (hr : db.Keyed p.root p.rootKey r)
    (hnone : db.related p.hops r = []) (hmet : p.MetByNone v) : ¬ db.KeepsUnrelated p v := by
  intro hlaw
  obtain ⟨hexcluded, hkept⟩ := hlaw r hr.mem (related_eq_nil_iff.1 hnone)
  cases hfans : p.fansOut with
  | true =>
    exact not_selected_of_unrelated hc hdb hp hcols hflat hfans hr hnone hmet .excluding hkept
  | false =>
    exact hexcluded (selected_of_unrelated hc hdb hp hcols hflat hfans hr.mem hnone hmet)

end

/-! ## A database of one row -/

/-- A row with an id and no other value. -/
def loneRow : Row := OrderedMap.ofList [("id", .int 1)]

/-- The database with one row in one table. -/
def lone (table : String) : Database := Database.empty.insert table loneRow

/-- The other tables have no rows. -/
theorem rows_lone (table other : String) :
    (lone table).rows other = if other = table then [loneRow] else [] := by
  unfold lone insert rows
  rw [OrderedMap.get?_insert]
  split <;> rfl

/-- The row is in its table. -/
theorem mem_rows_lone (table : String) : loneRow ∈ (lone table).rows table := by
  rw [rows_lone, if_pos rfl]
  exact List.mem_singleton_self loneRow

/-- The one row has an id of its own. -/
theorem identified_lone (table : String) : (lone table).Identified := by
  have hid : Row.id? loneRow = some 1 := by decide +kernel
  constructor <;> intro other <;> rw [rows_lone]
  · intro row hrow
    split at hrow
    · exact ⟨1, List.mem_singleton.1 hrow ▸ Row.id?_eq_some.1 hid⟩
    · exact absurd hrow List.not_mem_nil
  · split
    · rw [List.filterMap_cons_some hid]
      exact List.nodup_cons.2 ⟨List.not_mem_nil, List.nodup_nil⟩
    · exact List.nodup_nil

/-- No path of the standard catalog leads from the one row to another one, for the first step leads
to another table. -/
theorem related_lone (hstd : Catalog.standard = .ok c) {root : String} {names : List String}
    (hp : c.path root names = .ok p) (hne : p.hops ≠ []) (r : Row) :
    (lone p.root).related p.hops r = [] := by
  have hc : c.Coherent := (Catalog.built_of_build hstd).coherent
  obtain ⟨start, -, hhops, hroot, -⟩ := Catalog.path_eq_ok hp
  cases names with
  | nil => exact absurd (Prod.mk.inj (Except.ok.inj hhops)).1.symm hne
  | cons name names =>
    obtain ⟨edge, target, rest, hedge, htarget, -, -, hsteps⟩ := Catalog.hopsFrom_cons.1 hhops
    obtain ⟨hsource, -⟩ := Prod.mk.inj (hc.edge_key hedge)
    have hother : target.name ≠ p.root := by
      rw [hroot, hsource, hc.table_name htarget]
      exact (Catalog.standard_no_loop hstd hedge).symm
    have hstep : ∀ hop : Hop, hop.table = target.name → (lone p.root).stepRows hop r = [] := by
      intro hop htable
      rw [List.eq_nil_iff_forall_not_mem]
      intro next hnext
      have hmem := (mem_stepRows.1 hnext).1
      rw [htable, rows_lone, if_neg hother] at hmem
      exact absurd hmem List.not_mem_nil
    rw [hsteps, related, hstep _ rfl]
    rfl

end Database

/-! ## The two laws -/

variable {c : Catalog} {root : String} {names : List String} {p : RelationPath} {v : Predicate}

/-- The standard catalog follows all paths that it finds. -/
theorem Catalog.follows_standard (hstd : Catalog.standard = .ok c)
    (hp : c.path root names = .ok p) :
    ∃ start, c.table? root = some start ∧ c.Follows start p := by
  have hc : c.Coherent := (Catalog.built_of_build hstd).coherent
  obtain ⟨start, hstart, hhops, -⟩ := path_eq_ok hp
  obtain ⟨hdots, hfree⟩ := standard_names hstd hc hhops
  -- An alias is one of the names or has a point, and the names in question are and have neither.
  have hnot : ∀ a, a = subqueryRoot ∨ (∃ table, c.table? a = some table) →
      a ∉ p.hops.map Hop.aliasName := by
    intro a ha hmem
    rw [aliases_hopsFrom hc hhops] at hmem
    rcases mem_or_dot_of_mem_hopAliases hmem with hname | hdot
    · exact (hfree a ha).2 hname
    · exact (hfree a ha).1 hdot
  exact follows_of_path hc hp hdots (hnot root (.inr ⟨start, hstart⟩)) (hnot _ (.inl rfl))

/-- Along a path of the standard catalog the modes of a condition select complementary rows of every
database with ids exactly if the path does not fan out or the condition is not met by none, and rows
without related rows are selected in mode `excluding` alone exactly if the path has no steps or the
condition is not met by none. -/
theorem complement_iff (hstd : Catalog.standard = .ok c) (hp : c.path root names = .ok p)
    (hcols : ∀ col ∈ v.columns, col.aliasName = p.terminalAlias) (hflat : v.subqueries = []) :
    ((∀ db : Database, db.Identified → db.Complements p v) ↔
      p.fansOut = false ∨ ¬ p.MetByNone v) ∧
    ((∀ db : Database, db.Identified → db.KeepsUnrelated p v) ↔
      p.hops = [] ∨ ¬ p.MetByNone v) := by
  have hc : c.Coherent := (Catalog.built_of_build hstd).coherent
  obtain ⟨start, hstart, hfollows⟩ := Catalog.follows_standard hstd hp
  have hhonours := fun db (hdb : Database.Identified db) => Catalog.honours_standard hstd hdb
  have hkeyed : ∀ db : Database, db.Identified → ∀ r ∈ db.rows p.root,
      db.Keyed p.root p.rootKey r := by
    intro db hdb r hr
    rw [hfollows.key_eq, Catalog.standard_key hstd hstart]
    exact hdb.keyed hr
  have hreads : p.hops = [] ∨ ¬ p.MetByNone v → Reads (p, v) := by
    intro h
    refine ⟨hcols, hflat, fun hne db hmeets => ?_⟩
    exact h.resolve_left hne ((Database.meets_of_flat db Database.empty hflat).1 hmeets)
  -- The one row of `Database.lone` has no related rows along any path with steps.
  have hlone := Database.identified_lone p.root
  have hrow := hkeyed _ hlone _ (Database.mem_rows_lone p.root)
  have hnone := fun hne => Database.related_lone hstd hp hne Database.loneRow
  constructor
  · constructor
    · intro hlaw
      refine Decidable.or_iff_not_imp_left.2 fun hfans hmet => ?_
      have hfans : p.fansOut = true := by simpa using hfans
      exact Database.not_complements_of_unrelated hc (hhonours _ hlone) hfollows hcols hflat hfans
        hrow (hnone (RelationPath.hops_ne_nil_of_fansOut hfans)) hmet (hlaw _ hlone)
    · rintro (hsingle | hstrict) db hdb
      · exact Database.complements_of_single hc (hhonours db hdb) hfollows hcols hflat hsingle
      · exact Database.complements_of_reads hc (hhonours db hdb) hfollows (hreads (.inr hstrict))
          (hkeyed db hdb)
  · constructor
    · intro hlaw
      refine Decidable.or_iff_not_imp_left.2 fun hne hmet => ?_
      exact Database.not_keepsUnrelated_of_unrelated hc (hhonours _ hlone) hfollows hcols hflat
        hrow (hnone hne) hmet (hlaw _ hlone)
    · intro h db hdb
      exact Database.keepsUnrelated_of_reads hc (hhonours db hdb) hfollows (hreads h)
        (hkeyed db hdb)

/-- The path from the grants to their goals. -/
def RelationPath.grantGoals : RelationPath :=
  ⟨"Grants", "id", [⟨"Goals", "id", "goals", "grantId", "id", .oneToMany⟩],
    ["id", "name", "status", "createdAt", "grantId", "isRttapa"]⟩

/-- The standard catalog finds the path from the grants to their goals. -/
theorem Catalog.exists_grantGoals :
    ∃ c, Catalog.standard = .ok c ∧ c.path "Grants" ["goals"] = .ok .grantGoals := by
  obtain ⟨c, hc, htables, hedges⟩ := Catalog.exists_standard
  have hgrants : c.table? "Grants" = some (keyedTable "Grants"
      ["id", "number", "regionId", "recipientId", "programSpecialistName", "stateCode",
        "startDate", "endDate"]) := htables (keyedTable "Grants" _) (by decide)
  have hgoals : c.table? "Goals" =
      some (keyedTable "Goals" RelationPath.grantGoals.terminalColumns) :=
    htables (keyedTable "Goals" _) (by decide)
  have hedge := hedges (hasMany "Grants" "goals" "Goals" "grantId") (by decide)
  exact ⟨c, hc, path_of_hopsFrom hgrants
    (hopsFrom_cons.2 ⟨_, _, [], hedge, hgoals, by decide, rfl, rfl⟩)⟩

/-- In every database with ids, the modes of a condition on the names of goals share out the grants,
and grants without goals are excluded by the first and kept by the second. -/
theorem named_goals_complement :
    ∃ c, Catalog.standard = .ok c ∧ c.path "Grants" ["goals"] = .ok .grantGoals ∧
      ∀ db : Database, db.Identified →
        db.Complements .grantGoals
          (.equals (RelationPath.grantGoals.terminalColumn "name") (.text "alpha")) ∧
        db.KeepsUnrelated .grantGoals
          (.equals (RelationPath.grantGoals.terminalColumn "name") (.text "alpha")) := by
  obtain ⟨c, hc, hpath⟩ := Catalog.exists_grantGoals
  have hreads : Reads (.grantGoals,
      .equals (RelationPath.grantGoals.terminalColumn "name") (.text "alpha")) :=
    reads_comparison rfl
  have hstrict := hreads.strict (by decide) Database.empty
  obtain ⟨hlaw, hunrelated⟩ := complement_iff hc hpath hreads.columns hreads.flat
  exact ⟨c, hc, hpath, fun db hdb =>
    ⟨hlaw.2 (.inr hstrict) db hdb, hunrelated.2 (.inr hstrict) db hdb⟩⟩

/-- A grant without goals is selected in neither mode of the test for a goal without a name. -/
theorem unnamed_goals_in_no_mode :
    ∃ c, Catalog.standard = .ok c ∧ c.path "Grants" ["goals"] = .ok .grantGoals ∧
      (Database.lone "Grants").Identified ∧
      ∀ mode, (Database.lone "Grants").selectRows "Grants"
        (RelationPath.grantGoals.existsAlong
          (.isNull (RelationPath.grantGoals.terminalColumn "name")) mode) = .ok [] := by
  obtain ⟨c, hc, hpath⟩ := Catalog.exists_grantGoals
  refine ⟨c, hc, hpath, Database.identified_lone "Grants", fun mode => ?_⟩
  cases mode with
  | including => rfl
  | excluding => rfl

end RowScope
