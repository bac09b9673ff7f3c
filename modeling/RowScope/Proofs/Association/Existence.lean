import RowScope.Proofs.Association.Reads
import RowScope.Proofs.Memory.Related

/-!
# Conditions on related rows

An association made by `existsAlong` holds of a root row exactly if some row related to it along the
path meets the condition or, in mode `excluding`, if none does (`meets_existsAlong`), and likewise
for several paths at once (`meets_existsAlongAny`). The theorems do not depend on how a path is
compiled: by left joins, by a subquery with inner joins, or by a grouped subquery with left joins.
They need that the condition is not met where there is no related row, that aliases do not clash
(`Fits`), and that the key identifies the root row (`Keyed`).
-/

namespace RowScope

/-- Whether a mode keeps a row, by whether the row matches. -/
def Mode.Keeps (mode : Mode) (P : Prop) : Prop :=
  match mode with
  | .including => P
  | .excluding => ¬ P

/-- Modes depend on the truth of the condition only. -/
theorem Mode.keeps_congr {mode : Mode} {P Q : Prop} (h : P ↔ Q) : mode.Keeps P ↔ mode.Keeps Q := by
  cases mode with
  | including => exact h
  | excluding => exact not_congr h

/-- A path from a root table with a given key, and a condition on the rows at its end. -/
structure Fits (root key : String) (target : RelationPath × Predicate) : Prop
    extends Reads target where
  /-- The path begins at the root table. -/
  root_eq : target.1.root = root
  /-- The path knows the key of the root table. -/
  key_eq : target.1.rootKey = key
  /-- No step goes by the name of the root table. -/
  root_free : root ∉ target.1.hops.map Hop.aliasName
  /-- No step goes by the alias that the root table has in subqueries. -/
  inner_free : subqueryRoot ∉ target.1.hops.map Hop.aliasName

/-- Some row that the path leads to meets the condition. -/
def Database.Reaches (db : Database) (target : RelationPath × Predicate) (r : Row) : Prop :=
  ∃ last ∈ db.related target.1.hops r,
    db.Meets [(target.1.terminalAlias, some last)] target.2

/-- The joins of the associations along some paths, one after the other. -/
def targetJoins (targets : List (RelationPath × Predicate)) (mode : Mode) : List JoinClause :=
  targets.flatMap fun t => (t.1.existsAlong t.2 mode).extraJoins

/-- The alias of the last of some steps is one of theirs, or that of the table they begin at. -/
theorem lastAlias_mem (parent : String) (hops : List Hop) :
    lastAlias parent hops ∈ parent :: hops.map Hop.aliasName := by
  induction hops generalizing parent with
  | nil => exact List.mem_singleton_self parent
  | cons hop hops ih => exact List.mem_cons_of_mem parent (ih hop.aliasName)

/-- The joins of an association along several paths are those of the paths, merged. -/
theorem extraJoins_existsAlongAny (targets : List (RelationPath × Predicate)) (mode : Mode) :
    (existsAlongAny targets mode).extraJoins = mergeJoins [] (targetJoins targets mode) := by
  show mergeJoins [] _ = _
  rw [List.flatMap_map]
  rfl

/-- The condition of an association along several paths combines those of the paths. -/
theorem predicate_existsAlongAny (targets : List (RelationPath × Predicate)) (mode : Mode) :
    (existsAlongAny targets mode).predicate =
      mode.combine (targets.map fun t => (t.1.existsAlong t.2 mode).predicate) := by
  show mode.combine _ = _
  rw [List.map_map]
  rfl

namespace RelationPath

variable {root key : String} {p : RelationPath} {v : Predicate} {mode : Mode}

/-- A path that fans out has steps. -/
theorem hops_ne_nil_of_fansOut (h : p.fansOut = true) : p.hops ≠ [] := by
  intro e
  rw [fansOut, e] at h
  cases h

/-- A path has left joins if it does not fan out, and no joins if it does. -/
theorem extraJoins_existsAlong :
    (p.existsAlong v mode).extraJoins = if p.fansOut then [] else p.joins p.root .left := by
  unfold existsAlong
  cases mode <;> split <;> rfl

/-- The terminal alias is bound by the joins of the path. -/
theorem terminalAlias_mem_joins (kind : JoinKind) (root : String) (h : p.hops ≠ []) :
    p.terminalAlias ∈ root :: (p.joins root kind).map JoinClause.aliasName := by
  rw [terminalAlias_eq, lastAlias_of_ne_nil h p.root root, joins, aliases_joinsFrom]
  exact lastAlias_mem root p.hops

/-- The subquery along a path that finds keys of the root table. -/
def keySource (p : RelationPath) (kind : JoinKind) (filter : Predicate) (having : Having) :
    Subquery :=
  ⟨p.root, subqueryRoot, p.rootKey, p.joins subqueryRoot kind, filter, having⟩

@[simp] theorem keySource_filter (kind : JoinKind) (filter : Predicate) (having : Having) :
    (p.keySource kind filter having).filter = filter := rfl

@[simp] theorem keySource_having (kind : JoinKind) (filter : Predicate) (having : Having) :
    (p.keySource kind filter having).having = having := rfl

/-- The key of a root row is looked up among those of the subquery. -/
theorem predicate_keyAmong (kind : JoinKind) (filter : Predicate) (having : Having) :
    (p.keyAmong kind filter having).predicate =
      .inSet p.outerKey (p.keySource kind filter having) := rfl

/-- A subquery along a path of some steps names its own tables if its conditions look at the
terminal row. -/
theorem selfContained_keySource {kind : JoinKind} {filter : Predicate} {having : Having}
    (hne : p.hops ≠ []) (hf : ∀ c ∈ filter.columns, c.aliasName = p.terminalAlias)
    (hh : ∀ c ∈ having.columns, c.aliasName = p.terminalAlias) :
    (p.keySource kind filter having).SelfContained where
  joins := joinsBound_joinsFrom kind subqueryRoot p.hops
  filter c hc := hf c hc ▸ terminalAlias_mem_joins kind subqueryRoot hne
  having c hc := hh c hc ▸ terminalAlias_mem_joins kind subqueryRoot hne

/-- A subquery along a path of some steps is closed if its conditions look at the terminal row. -/
theorem closed_keyAmong {kind : JoinKind} {filter : Predicate} {having : Having}
    (hne : p.hops ≠ []) (hf : ∀ c ∈ filter.columns, c.aliasName = p.terminalAlias)
    (hfs : filter.subqueries = []) (hh : ∀ c ∈ having.columns, c.aliasName = p.terminalAlias)
    (hhs : having.subqueries = []) :
    (p.keySource kind filter having).Closed where
  joins := (selfContained_keySource hne hf hh).joins
  filter := (selfContained_keySource hne hf hh).filter
  having := (selfContained_keySource hne hf hh).having
  filter_flat := hfs
  having_flat := hhs

/-- The test for the keys of a closed subquery is closed where the root table is bound. -/
theorem closed_predicate_keyAmong {kind : JoinKind} {filter : Predicate} {having : Having}
    {aliases : List String} (hroot : p.root ∈ aliases)
    (hs : (p.keySource kind filter having).Closed) :
    (p.keyAmong kind filter having).predicate.Closed aliases where
  columns c hc := by
    rw [List.mem_singleton.1 hc]
    exact hroot
  subqueries s hs' := by
    rw [List.mem_singleton.1 hs']
    exact hs

/-- The joins of an association refer to aliases before them. -/
theorem joinsBound_existsAlong :
    JoinsBound [p.root] (p.existsAlong v mode).extraJoins := by
  rw [extraJoins_existsAlong]
  split
  · exact True.intro
  · exact joinsBound_joinsFrom .left p.root p.hops

/-- The condition of an association names the root table and its joins only. -/
theorem closed_existsAlong (hcols : ∀ c ∈ v.columns, c.aliasName = p.terminalAlias)
    (hflat : v.subqueries = []) (mode : Mode) :
    (p.existsAlong v mode).predicate.Closed
      (p.root :: (p.existsAlong v mode).extraJoins.map JoinClause.aliasName) := by
  have noColumn : ∀ c ∈ Predicate.always.columns, c.aliasName = p.terminalAlias :=
    fun c hc => absurd hc List.not_mem_nil
  rw [extraJoins_existsAlong]
  by_cases hf : p.fansOut
  · -- The condition on the terminal row stands in the subquery, as its filter or on its groups.
    have hne := hops_ne_nil_of_fansOut hf
    unfold existsAlong
    rw [if_pos hf, if_pos hf]
    cases mode with
    | including =>
      exact closed_predicate_keyAmong List.mem_cons_self
        (closed_keyAmong hne hcols hflat (fun c hc => absurd hc List.not_mem_nil) rfl)
    | excluding =>
      exact closed_predicate_keyAmong List.mem_cons_self
        (closed_keyAmong hne noColumn rfl hcols hflat)
  · -- The terminal alias is that of the last join, or the root table itself.
    unfold existsAlong
    rw [if_neg hf, if_neg hf]
    have hv : v.Closed (p.root :: (p.joins p.root .left).map JoinClause.aliasName) := by
      refine ⟨fun c hc => ?_, by simp [hflat]⟩
      rw [hcols c hc, terminalAlias_eq, joins, aliases_joinsFrom]
      exact lastAlias_mem p.root p.hops
    cases mode with
    | including => exact hv
    | excluding => exact Predicate.closed_negate hv

/-- A count along a path of some steps names the root table only. -/
theorem closed_countAlong {op : CompareOp} {n : Int64} {aliases : List String}
    (hroot : p.root ∈ aliases) (hne : p.hops ≠ []) :
    (p.countAlong op n).predicate.Closed aliases := by
  apply closed_predicate_keyAmong hroot
  refine closed_keyAmong hne (fun c hc => absurd hc List.not_mem_nil) rfl (fun c hc => ?_) rfl
  rw [List.mem_singleton.1 hc]
  rfl

end RelationPath

namespace Database

variable {db : Database} {root key : String} {p : RelationPath} {v : Predicate} {r : Row}
  {row : JoinedRow} {mode : Mode}

/-- A condition on terminal rows depends on the part for the terminal alias only. -/
theorem meets_congr_terminal (hcols : ∀ c ∈ v.columns, c.aliasName = p.terminalAlias)
    {part : Option Row} (hl : row.lookup p.terminalAlias = some part) :
    db.Meets row v ↔ db.Meets [(p.terminalAlias, part)] v := by
  unfold Meets
  rw [truth_congr fun c hc => ?_]
  rw [hcols c hc, hl, List.lookup_cons_self]

/-- The aliases of a root row and of joins whose equations it satisfies are bound. -/
theorem Completes.aliases_subset {joins : List JoinClause} (h : db.Completes root r joins row) :
    root :: joins.map JoinClause.aliasName ⊆ row.aliases := by
  intro a ha
  rw [← JoinedRow.lookup_isSome]
  rcases List.mem_cons.1 ha with rfl | ha
  · rw [h.root_part]
    rfl
  · obtain ⟨j, hj, rfl⟩ := List.mem_map.1 ha
    rw [h.partner j hj]
    rfl

/-- An inner join along the path has a row that meets the condition if a related row does. -/
theorem exists_inner (h : Fits root key (p, v)) (hne : p.hops ≠ []) :
    (∃ next ∈ db.joinedTo (p.joins subqueryRoot .inner) [[(subqueryRoot, some r)]],
      db.Meets next v) ↔ db.Reaches (p, v) r := by
  have hself : List.lookup subqueryRoot [(subqueryRoot, some r)] = some (some r) :=
    List.lookup_cons_self
  have parts := lookup_inner db p.hops hself
  rw [← lastAlias_of_ne_nil hne p.root, ← RelationPath.terminalAlias_eq] at parts
  -- The terminal parts of the joined rows are the related rows, and no other part counts.
  constructor
  · rintro ⟨next, hnext, hmeets⟩
    have hlook : next.lookup p.terminalAlias ∈
        (db.related p.hops r).map fun last => some (some last) := by
      rw [← parts]
      exact List.mem_map_of_mem hnext
    obtain ⟨last, hlast, he⟩ := List.mem_map.1 hlook
    exact ⟨last, hlast, (meets_congr_terminal h.columns he.symm).1 hmeets⟩
  · rintro ⟨last, hlast, hmeets⟩
    have hlook : some (some last) ∈
        (db.joinedTo (p.joins subqueryRoot .inner) [[(subqueryRoot, some r)]]).map
          fun next => next.lookup p.terminalAlias := by
      rw [RelationPath.joins, parts]
      exact List.mem_map_of_mem hlast
    obtain ⟨next, hnext, he⟩ := List.mem_map.1 hlook
    exact ⟨next, hnext, (meets_congr_terminal h.columns he).2 hmeets⟩

/-- Left joins along a path of some steps give the terminal alias a part, which is a related row
unless it is missing. -/
theorem terminal_of_left (hne : p.hops ≠ []) {next : JoinedRow}
    (hnext : next ∈ db.joinedTo (p.joins subqueryRoot .left) [[(subqueryRoot, some r)]]) :
    ∃ part : Option Row, next.lookup p.terminalAlias = some part ∧
      ∀ last ∈ part, last ∈ db.related p.hops r := by
  have hself : List.lookup subqueryRoot [(subqueryRoot, some r)] = some (some r) :=
    List.lookup_cons_self
  have parts := lookup_left db p.hops hself
  rw [← lastAlias_of_ne_nil hne p.root, ← RelationPath.terminalAlias_eq] at parts
  obtain ⟨more, hmore, hparts⟩ := mem_joinedTo hnext
  have hbound : p.terminalAlias ∈ next.aliases := by
    have hmem := RelationPath.terminalAlias_mem_joins .left subqueryRoot hne
    rw [JoinedRow.aliases] at hparts
    rw [hmore, JoinedRow.aliases, List.map_append, hparts, List.mem_append, List.mem_reverse]
    rcases List.mem_cons.1 hmem with e | hmem
    · exact .inr (List.mem_singleton.2 e)
    · exact .inl hmem
  obtain ⟨part, hpart⟩ := Option.isSome_iff_exists.1 (JoinedRow.lookup_isSome.2 hbound)
  refine ⟨part, hpart, fun last hlast => ?_⟩
  obtain ⟨r', hr', hrelated⟩ := (parts last).1 ⟨next, hnext, hlast ▸ hpart⟩
  cases hr'
  exact hrelated

/-- Left joins along a path of some steps give the terminal alias each related row. -/
theorem exists_left_of_related (hne : p.hops ≠ []) {last : Row}
    (hlast : last ∈ db.related p.hops r) :
    ∃ next ∈ db.joinedTo (p.joins subqueryRoot .left) [[(subqueryRoot, some r)]],
      next.lookup p.terminalAlias = some (some last) := by
  have hself : List.lookup subqueryRoot [(subqueryRoot, some r)] = some (some r) :=
    List.lookup_cons_self
  have parts := (lookup_left db p.hops hself last).2 ⟨r, rfl, hlast⟩
  rwa [← lastAlias_of_ne_nil hne p.root, ← RelationPath.terminalAlias_eq] at parts

/-- Left joins along the path have a row that meets the condition if a related row does. -/
theorem exists_left (h : Fits root key (p, v)) (hne : p.hops ≠ []) :
    (∃ next ∈ db.joinedTo (p.joins subqueryRoot .left) [[(subqueryRoot, some r)]],
      db.Meets next v) ↔ db.Reaches (p, v) r := by
  constructor
  · rintro ⟨next, hnext, hmeets⟩
    obtain ⟨part, hpart, hrelated⟩ := terminal_of_left hne hnext
    have hmeets := (meets_congr_terminal h.columns hpart).1 hmeets
    cases part with
    | none => exact absurd hmeets (h.strict hne db)
    | some last => exact ⟨last, hrelated last rfl, hmeets⟩
  · rintro ⟨last, hlast, hmeets⟩
    obtain ⟨next, hnext, he⟩ := exists_left_of_related hne hlast
    exact ⟨next, hnext, (meets_congr_terminal h.columns he).2 hmeets⟩

/-- The one row that the joins of a path to at most one row each find is the related row. -/
theorem terminal_of_single (hone : ∀ j ∈ p.joins p.root .left, db.AtMostOne j)
    (hrow : db.Completes p.root r (p.joins p.root .left) row) :
    ∃ part, row.lookup p.terminalAlias = some part ∧ db.related p.hops r = part.toList := by
  obtain ⟨part, hpart, hlist⟩ := lookup_single hrow.root_part hone hrow.partner
  rw [← RelationPath.terminalAlias_eq] at hpart
  refine ⟨part, hpart, ?_⟩
  rw [hlist]
  exact (List.flatMap_singleton (db.related p.hops) r).symm

/-- A row with the joins of a path to at most one row meets the condition if a related row does. -/
theorem meets_single (h : Fits root key (p, v))
    (hone : ∀ j ∈ p.joins p.root .left, db.AtMostOne j)
    (hrow : db.Completes p.root r (p.joins p.root .left) row) :
    db.Meets row v ↔ db.Reaches (p, v) r := by
  obtain ⟨part, hpart, hrel⟩ := terminal_of_single hone hrow
  rw [meets_congr_terminal h.columns hpart, Reaches]
  simp only [hrel, Option.mem_toList]
  cases part with
  | none =>
    -- A path without steps would lead to the root row.
    have hne : p.hops ≠ [] := by
      intro e
      rw [e] at hrel
      cases hrel
    constructor
    · exact fun hmeets => absurd hmeets (h.strict hne db)
    · rintro ⟨last, hlast, -⟩
      cases hlast
  | some last =>
    constructor
    · exact fun hmeets => ⟨last, rfl, hmeets⟩
    · rintro ⟨other, hother, hmeets⟩
      cases hother
      exact hmeets

/-- The alias of the root table in subqueries is none of the aliases of the path. -/
theorem subqueryRoot_free (h : Fits root key (p, v)) (kind : JoinKind) :
    subqueryRoot ∉ (p.joins subqueryRoot kind).map JoinClause.aliasName := by
  rw [RelationPath.joins, RelationPath.aliases_joinsFrom]
  exact h.inner_free

/-- The key of the root table is that of the root row where the row is joined. -/
theorem read_outerKey (hrow : row.lookup p.root = some (some r)) :
    row.read p.outerKey = r.value p.rootKey := by
  rw [JoinedRow.read, RelationPath.outerKey, hrow]
  rfl

/-- The joined rows of the key of a root row are those of this row that meet the filter. -/
theorem mem_keyRows_root {kind : JoinKind} {filter : Predicate} {having : Having}
    (hfree : subqueryRoot ∉ p.hops.map Hop.aliasName) (hr : db.Keyed p.root p.rootKey r)
    (next : JoinedRow) :
    next ∈ db.keyRows (p.keySource kind filter having) (r.value p.rootKey) ↔
      next ∈ db.joinedTo (p.joins subqueryRoot kind) [[(subqueryRoot, some r)]] ∧
        db.Meets next filter := by
  have hinner : subqueryRoot ∉ (p.joins subqueryRoot kind).map JoinClause.aliasName := by
    rw [RelationPath.joins, RelationPath.aliases_joinsFrom]
    exact hfree
  exact Keyed.mem_keyRows (s := p.keySource kind filter having) hr hinner next

/-- Left joins keep a row for the key of every root row. -/
theorem keyRows_left_ne_nil {having : Having} (hfree : subqueryRoot ∉ p.hops.map Hop.aliasName)
    (hr : db.Keyed p.root p.rootKey r) :
    db.keyRows (p.keySource .left .always having) (r.value p.rootKey) ≠ [] := by
  have hkept : db.joinedTo (p.joins subqueryRoot .left) [[(subqueryRoot, some r)]] ≠ [] :=
    joinedTo_left_ne_nil fun _ => RelationPath.kind_of_mem_joinsFrom
  obtain ⟨next, hnext⟩ := List.exists_mem_of_ne_nil _ hkept
  exact List.ne_nil_of_mem ((mem_keyRows_root hfree hr next).2 ⟨hnext, truth_always⟩)

/-- A root row meets the test for the keys of a subquery along a path if its key is one of them. -/
theorem meets_keyAmong_of_keys {kind : JoinKind} {filter : Predicate} {having : Having}
    {ks : List Value} (hks : db.keys (p.keySource kind filter having) = .ok ks)
    (hnull : .null ∉ ks) (hrow : row.lookup p.root = some (some r)) :
    db.Meets row (p.keyAmong kind filter having).predicate ↔ r.value p.rootKey ∈ ks := by
  have hbound : p.root ∈ row.aliases := by
    rw [← JoinedRow.lookup_isSome, hrow]
    rfl
  rw [RelationPath.predicate_keyAmong, meets_inSet hks hnull hbound, read_outerKey hrow]

/-- The key of a root row is among those of a closed subquery along a path if its own joined rows
qualify. -/
theorem meets_keyAmong {kind : JoinKind} {filter : Predicate} {having : Having}
    (hclosed : (p.keySource kind filter having).Closed)
    (hr : db.Keyed p.root p.rootKey r) (hrow : row.lookup p.root = some (some r)) :
    db.Meets row (p.keyAmong kind filter having).predicate ↔
      db.keyRows (p.keySource kind filter having) (r.value p.rootKey) ≠ [] ∧
        db.holds (db.keyRows (p.keySource kind filter having) (r.value p.rootKey)) having =
          .ok true := by
  obtain ⟨ks, hks, hspec⟩ := keys_eq db hclosed
  have hnull : .null ∉ ks := fun hmem => ((hspec _).1 hmem).1 rfl
  rw [meets_keyAmong_of_keys hks hnull hrow, hspec]
  exact and_iff_right hr.not_null

/-- A subquery with inner joins along the path finds the keys of the rows with a related row that
meets the condition. -/
theorem keys_inner (db : Database) (h : Fits p.root p.rootKey (p, v)) (hne : p.hops ≠ []) :
    ∃ ks, db.keys (p.keySource .inner v .absent) = .ok ks ∧
      ∀ k, k ∈ ks ↔ k ≠ .null ∧ ∃ r ∈ db.rows p.root, r.value p.rootKey = k ∧
        db.Reaches (p, v) r := by
  have hclosed : (p.keySource .inner v .absent).Closed :=
    RelationPath.closed_keyAmong hne h.columns h.flat (fun c hc => absurd hc List.not_mem_nil) rfl
  obtain ⟨ks, hks, hspec⟩ := keys_eq db hclosed
  refine ⟨ks, hks, fun k => ?_⟩
  have hmem := mem_keyRows db (p.keySource .inner v .absent) (subqueryRoot_free h .inner) k
  have hsome : db.keyRows (p.keySource .inner v .absent) k ≠ [] ↔
      ∃ r ∈ db.rows p.root, r.value p.rootKey = k ∧ db.Reaches (p, v) r := by
    constructor
    · intro hrows
      obtain ⟨next, hnext⟩ := List.exists_mem_of_ne_nil _ hrows
      obtain ⟨r, hr, hkey, hjoined, hmeets⟩ := (hmem next).1 hnext
      exact ⟨r, hr, hkey, (exists_inner h hne).1 ⟨next, hjoined, hmeets⟩⟩
    · rintro ⟨r, hr, hkey, hreach⟩
      obtain ⟨next, hjoined, hmeets⟩ := (exists_inner h hne).2 hreach
      exact List.ne_nil_of_mem ((hmem next).2 ⟨r, hr, hkey, hjoined, hmeets⟩)
  rw [hspec, hsome]
  simp [holds_absent]

/-- A condition on terminal rows evaluates at all joined rows of a key. -/
theorem evaluates_keyRows (hne : p.hops ≠ [])
    (hcols : ∀ c ∈ v.columns, c.aliasName = p.terminalAlias) (hflat : v.subqueries = [])
    {kind : JoinKind} {filter : Predicate} {having : Having} {k : Value} :
    ∀ next ∈ db.keyRows (p.keySource kind filter having) k, db.Evaluates next v := by
  intro next hnext
  refine evaluates_of_columns (fun c hc => ?_) (by simp [hflat])
  refine aliases_of_tableRows (List.mem_filter.1 hnext).1 ?_
  rw [hcols c hc]
  exact RelationPath.terminalAlias_mem_joins kind subqueryRoot hne

/-- A subquery with left joins along the path for the keys whose rows do not meet the condition
finds those of the rows without a related row that meets it, other rows of the key included. -/
theorem keys_left (db : Database) (h : Fits p.root p.rootKey (p, v)) (hne : p.hops ≠ []) :
    ∃ ks, db.keys (p.keySource .left .always (.noneMatch v)) = .ok ks ∧
      ∀ k, k ∈ ks ↔ k ≠ .null ∧ (∃ r ∈ db.rows p.root, r.value p.rootKey = k) ∧
        ∀ r ∈ db.rows p.root, r.value p.rootKey = k → ¬ db.Reaches (p, v) r := by
  have hclosed : (p.keySource .left .always (.noneMatch v)).Closed :=
    RelationPath.closed_keyAmong hne (fun c hc => absurd hc List.not_mem_nil) rfl h.columns h.flat
  obtain ⟨ks, hks, hspec⟩ := keys_eq db hclosed
  refine ⟨ks, hks, fun k => ?_⟩
  have meets_always : ∀ next, db.Meets next .always := fun _ => truth_always
  have hrows := mem_keyRows db (p.keySource .left .always (.noneMatch v))
    (subqueryRoot_free h .left) k
  simp only [RelationPath.keySource_filter, meets_always, and_true] at hrows
  -- Left joins keep every row of the table.
  have hsome : db.keyRows (p.keySource .left .always (.noneMatch v)) k ≠ [] ↔
      ∃ r ∈ db.rows p.root, r.value p.rootKey = k := by
    constructor
    · intro hne'
      obtain ⟨next, hnext⟩ := List.exists_mem_of_ne_nil _ hne'
      obtain ⟨r, hr, hkey, -⟩ := (hrows next).1 hnext
      exact ⟨r, hr, hkey⟩
    · rintro ⟨r, hr, hkey⟩
      have hkept : db.joinedTo (p.joins subqueryRoot .left) [[(subqueryRoot, some r)]] ≠ [] :=
        joinedTo_left_ne_nil fun _ => RelationPath.kind_of_mem_joinsFrom
      obtain ⟨next, hnext⟩ := List.exists_mem_of_ne_nil _ hkept
      exact List.ne_nil_of_mem ((hrows next).2 ⟨r, hr, hkey, hnext⟩)
  rw [hspec, hsome, RelationPath.keySource_having,
    holds_noneMatch (evaluates_keyRows hne h.columns h.flat)]
  simp only [Except.ok.injEq, decide_eq_true_eq, hrows, ← exists_left h hne]
  constructor
  · rintro ⟨hnull, hkey, hnone⟩
    exact ⟨hnull, hkey, fun r hr he ⟨next, hnext, hmeets⟩ =>
      hnone next ⟨r, hr, he, hnext⟩ hmeets⟩
  · rintro ⟨hnull, hkey, hnone⟩
    exact ⟨hnull, hkey, fun next ⟨r, hr, he, hnext⟩ hmeets =>
      hnone r hr he ⟨next, hnext, hmeets⟩⟩

/-- The key of a root row is among those of inner joins along the path whose rows meet the condition
if a related row meets it. -/
theorem meets_keyAmong_inner (h : Fits p.root p.rootKey (p, v)) (hne : p.hops ≠ [])
    (hr : db.Keyed p.root p.rootKey r) (hrow : row.lookup p.root = some (some r)) :
    db.Meets row (p.keyAmong .inner v .absent).predicate ↔ db.Reaches (p, v) r := by
  obtain ⟨ks, hks, hspec⟩ := keys_inner db h hne
  have hnull : .null ∉ ks := fun hmem => ((hspec _).1 hmem).1 rfl
  rw [meets_keyAmong_of_keys hks hnull hrow, hspec]
  constructor
  · rintro ⟨-, other, hother, hkey, hreach⟩
    exact hr.eq_of_value_eq hother hkey ▸ hreach
  · exact fun hreach => ⟨hr.not_null, r, hr.mem, rfl, hreach⟩

/-- The key of a root row is among those of left joins along the path none of whose rows meets the
condition if no related row meets it. -/
theorem meets_keyAmong_left (h : Fits p.root p.rootKey (p, v)) (hne : p.hops ≠ [])
    (hr : db.Keyed p.root p.rootKey r) (hrow : row.lookup p.root = some (some r)) :
    db.Meets row (p.keyAmong .left .always (.noneMatch v)).predicate ↔ ¬ db.Reaches (p, v) r := by
  obtain ⟨ks, hks, hspec⟩ := keys_left db h hne
  have hnull : .null ∉ ks := fun hmem => ((hspec _).1 hmem).1 rfl
  rw [meets_keyAmong_of_keys hks hnull hrow, hspec]
  constructor
  · exact fun hkey => hkey.2.2 r hr.mem rfl
  · exact fun hnone => ⟨hr.not_null, ⟨r, hr.mem, rfl⟩, fun other hother hkey =>
      hr.eq_of_value_eq hother hkey ▸ hnone⟩

/-- An association along a path holds of a root row if a related row meets its condition or, in mode
`excluding`, if none does. -/
theorem meets_existsAlong (h : Fits root key (p, v)) (hr : db.Keyed root key r)
    (hone : ∀ j ∈ (p.existsAlong v mode).extraJoins, db.AtMostOne j)
    (hrow : db.Completes root r (p.existsAlong v mode).extraJoins row) :
    db.Meets row (p.existsAlong v mode).predicate ↔ mode.Keeps (db.Reaches (p, v) r) := by
  obtain rfl : p.root = root := h.root_eq
  obtain rfl : p.rootKey = key := h.key_eq
  have hbound := hrow.aliases_subset
  have hclosed := RelationPath.closed_existsAlong h.columns h.flat .including
  rw [RelationPath.extraJoins_existsAlong] at hone hrow hbound hclosed
  unfold RelationPath.existsAlong at hclosed ⊢
  by_cases hf : p.fansOut
  · -- The key of the root row is looked up in a subquery.
    have hne := RelationPath.hops_ne_nil_of_fansOut hf
    rw [if_pos hf]
    cases mode with
    | including => exact meets_keyAmong_inner h hne hr hrow.root_part
    | excluding => exact meets_keyAmong_left h hne hr hrow.root_part
  · -- The row is joined with its one related row.
    rw [if_neg hf] at hone hrow hbound
    rw [if_neg hf, if_neg hf] at hclosed
    rw [if_neg hf]
    cases mode with
    | including => exact meets_single h hone hrow
    | excluding =>
      rw [meets_negate (evaluates_of_closed (hclosed.mono hbound))]
      exact not_congr (meets_single h hone hrow)

/-! ## Several paths -/

/-- An association along several paths holds of a root row if a row that is related along one of
them meets its condition or, in mode `excluding`, if none does along any. -/
theorem meets_existsAlongAny {targets : List (RelationPath × Predicate)}
    (h : ∀ t ∈ targets, Fits root key t) (hr : db.Keyed root key r)
    (hagree : JoinsAgree (targetJoins targets mode))
    (hone : ∀ j ∈ targetJoins targets mode, db.AtMostOne j)
    (hrow : db.Completes root r (existsAlongAny targets mode).extraJoins row) :
    db.Meets row (existsAlongAny targets mode).predicate ↔
      mode.Keeps (∃ t ∈ targets, db.Reaches t r) := by
  have hsub : targetJoins targets mode ⊆ (existsAlongAny targets mode).extraJoins := by
    rw [extraJoins_existsAlongAny]
    exact subset_mergeJoins (show JoinsAgree ([] ++ targetJoins targets mode) from hagree)
  -- The joins of one path are among the merged ones.
  have hpath : ∀ t ∈ targets, db.Completes root r (t.1.existsAlong t.2 mode).extraJoins row := by
    intro t ht
    exact hrow.mono fun j hj => hsub (List.mem_flatMap.2 ⟨t, ht, hj⟩)
  have hmeets : ∀ t ∈ targets, db.Meets row (t.1.existsAlong t.2 mode).predicate ↔
      mode.Keeps (db.Reaches t r) := by
    intro t ht
    exact meets_existsAlong (h t ht) hr
      (fun j hj => hone j (List.mem_flatMap.2 ⟨t, ht, hj⟩)) (hpath t ht)
  have heval : ∀ part ∈ targets.map fun t => (t.1.existsAlong t.2 mode).predicate,
      db.Evaluates row part := by
    intro part hpart
    obtain ⟨t, ht, rfl⟩ := List.mem_map.1 hpart
    have hclosed := RelationPath.closed_existsAlong (h t ht).columns (h t ht).flat mode
    rw [show t.1.root = root from (h t ht).root_eq] at hclosed
    exact evaluates_of_closed (hclosed.mono (hpath t ht).aliases_subset)
  rw [predicate_existsAlongAny]
  cases mode with
  | including =>
    rw [Mode.combine, meets_disj heval, Mode.Keeps]
    constructor
    · rintro ⟨part, hpart, hm⟩
      obtain ⟨t, ht, rfl⟩ := List.mem_map.1 hpart
      exact ⟨t, ht, (hmeets t ht).1 hm⟩
    · rintro ⟨t, ht, hreach⟩
      exact ⟨_, List.mem_map_of_mem ht, (hmeets t ht).2 hreach⟩
  | excluding =>
    rw [Mode.combine, meets_conj heval, Mode.Keeps]
    constructor
    · rintro hall ⟨t, ht, hreach⟩
      exact (hmeets t ht).1 (hall _ (List.mem_map_of_mem ht)) hreach
    · intro hnone part hpart
      obtain ⟨t, ht, rfl⟩ := List.mem_map.1 hpart
      exact (hmeets t ht).2 fun hreach => hnone ⟨t, ht, hreach⟩

end Database

end RowScope
