import Mathlib.Data.List.Nodup
import RowScope.Proofs.Relation.Additions
import RowScope.Proofs.Relation.Path

/-!
# Joins of several paths

The joins of several paths from one root table are merged one path after the other (`mergedJoins`).
The alias of a join gives back the names up to its step, which lead to one table along one edge, so
joins of one alias are the same join and merging loses none (`Catalog.joinsAgree_pathJoins`). What
comes out is the list of all joins with each of them where it comes first
(`Catalog.merged_joins_exact`).
-/

namespace RowScope

/-- The joins of some paths, the root table going by an alias. -/
def pathJoins (root : String) (kind : JoinKind) (paths : List RelationPath) : List JoinClause :=
  paths.flatMap fun p => p.joins root kind

/-- The joins of some paths, merged one path after the other. -/
def mergedJoins (root : String) (kind : JoinKind) (paths : List RelationPath) : List JoinClause :=
  paths.foldl (fun joins p => mergeJoins joins (p.joins root kind)) []

/-- Merging path after path is merging the joins of all paths. -/
theorem mergedJoins_eq (root : String) (kind : JoinKind) (paths : List RelationPath) :
    mergedJoins root kind paths = mergeJoins [] (pathJoins root kind paths) := by
  -- The joins merged before are any, since each path adds to those of the paths before it.
  have fold : ∀ joins : List JoinClause,
      paths.foldl (fun joins p => mergeJoins joins (p.joins root kind)) joins =
        mergeJoins joins (pathJoins root kind paths) := by
    induction paths with
    | nil => exact fun _ => rfl
    | cons p paths ih =>
      intro joins
      rw [List.foldl_cons, ih]
      exact (mergeJoins_append joins (p.joins root kind) (pathJoins root kind paths)).symm
  exact fold []

/-- The joins of some paths refer to the root table or to joins before them. -/
theorem joinsBound_pathJoins (root : String) (kind : JoinKind) (paths : List RelationPath) :
    JoinsBound [root] (pathJoins root kind paths) := by
  induction paths with
  | nil => exact True.intro
  | cons p paths ih =>
    rw [pathJoins, List.flatMap_cons, joinsBound_append]
    exact ⟨RelationPath.joinsBound_joinsFrom kind root p.hops,
      ih.mono (List.subset_append_right _ _)⟩

/-- A join that refers to a bound alias does so to one bound at first or to one of the joins before
it. -/
theorem JoinsBound.refers {bound : List String} {before after : List JoinClause} {j : JoinClause}
    (h : JoinsBound bound (before ++ j :: after)) :
    j.other.aliasName ∈ bound ∨ j.other.aliasName ∈ before.map JoinClause.aliasName := by
  have hj := (joinsBound_append.1 h).2.1
  rw [List.mem_append, List.mem_reverse] at hj
  exact hj.symm

namespace Catalog

variable {c : Catalog} {table : String} {kind : JoinKind} {root : String}
  {paths : List RelationPath}

/-- Joins of one alias are equal among the joins of paths from one root table along names without
points. -/
theorem joinsAgree_pathJoins (hc : c.Coherent)
    (hpaths : ∀ p ∈ paths, ∃ names, DotFree names ∧ c.path table names = .ok p) :
    JoinsAgree (pathJoins root kind paths) := by
  cases hstart : c.table? table with
  | none =>
    -- There is no path from a table that the catalog does not know.
    have hnone : paths = [] := by
      refine List.eq_nil_iff_forall_not_mem.2 fun p hp => ?_
      obtain ⟨names, -, hpath⟩ := hpaths p hp
      obtain ⟨start, hstart', -⟩ := path_eq_ok hpath
      cases hstart.symm.trans hstart'
    rw [hnone]
    exact fun j hj => absurd hj List.not_mem_nil
  | some start =>
    apply joinsAgree_of_joinAt (c := c)
    intro j hj
    obtain ⟨p, hp, hj⟩ := List.mem_flatMap.1 hj
    obtain ⟨names, hdots, hpath⟩ := hpaths p hp
    obtain ⟨start', hstart', hhops, -⟩ := path_eq_ok hpath
    cases hstart.symm.trans hstart'
    obtain ⟨steps, edge, hsteps, hat, -⟩ :=
      joinAt_of_mem hc .here hhops (fun _ h => absurd h List.not_mem_nil) hdots hj
    exact ⟨steps, edge, hsteps, hat⟩

/-- Among the joins of paths from one root table along names without points, those of one alias are
the same join. Merged one path after the other they are the list of all these joins with each of
them once, where it comes first, and each refers to the root table or to a join before it. Merging
more joins leaves them as they are, in front, and merging joins of theirs again adds none. -/
theorem merged_joins_exact (hc : c.Built)
    (hpaths : ∀ p ∈ paths, ∃ names, DotFree names ∧ c.path table names = .ok p) (root : String)
    (kind : JoinKind) :
    (∀ j ∈ pathJoins root kind paths, ∀ k ∈ pathJoins root kind paths,
      j.aliasName = k.aliasName → j = k) ∧
    mergedJoins root kind paths = (pathJoins root kind paths).eraseDups ∧
    (∀ j ∈ pathJoins root kind paths, (mergedJoins root kind paths).count j = 1) ∧
    (∀ before j after, mergedJoins root kind paths = before ++ j :: after →
      j.other.aliasName = root ∨ j.other.aliasName ∈ before.map JoinClause.aliasName) ∧
    (∀ others, mergedJoins root kind paths <+: mergeJoins (mergedJoins root kind paths) others) ∧
    ∀ others ⊆ pathJoins root kind paths,
      mergeJoins (mergedJoins root kind paths) others = mergedJoins root kind paths := by
  have hagree : JoinsAgree (pathJoins root kind paths) := joinsAgree_pathJoins hc.coherent hpaths
  have hmerged := mergedJoins_eq root kind paths
  refine ⟨hagree, ?_, fun j hj => ?_, fun before j after h => ?_, fun others => ?_,
    fun others hothers => ?_⟩
  · rw [hmerged, mergeJoins_eq hagree]
    simp
  · -- No alias is taken twice, so no join is there twice.
    have hmem : j ∈ mergedJoins root kind paths := hmerged ▸ subset_mergeJoins hagree hj
    have haliases : ((mergedJoins root kind paths).map JoinClause.aliasName).Nodup := by
      rw [hmerged]
      exact nodup_mergeJoins _ List.nodup_nil
    exact List.count_eq_one_of_mem (.of_map JoinClause.aliasName haliases) hmem
  · have hbound : JoinsBound [root] (mergeJoins [] (pathJoins root kind paths)) :=
      joinsBound_mergeJoins True.intro (joinsBound_pathJoins root kind paths)
    rw [← hmerged, h] at hbound
    exact hbound.refers.imp_left List.mem_singleton.1
  · exact mergeJoins_extends _ others
  · -- Joins that went in once have their aliases taken.
    apply mergeJoins_eq_self
    rw [hmerged]
    exact List.Subset.trans (List.map_subset _ hothers) (aliases_subset_mergeJoins [] _)

end Catalog

/-- Reports, the grants that they are about, and other entities that they are about. -/
def recipientAdditions : List Addition :=
  [.table (keyedTable "ActivityReports" ["id"]), .table (keyedTable "Grants" ["id"]),
    .table (keyedTable "OtherEntities" ["id"]),
    .table (keyedTable "ActivityRecipients"
      ["id", "activityReportId", "grantId", "otherEntityId"]),
    .edge (hasMany "ActivityReports" "activityRecipients" "ActivityRecipients" "activityReportId"),
    .edge (belongsTo "ActivityRecipients" "grant" "grantId" "Grants"),
    .edge (belongsTo "ActivityRecipients" "otherEntity" "otherEntityId" "OtherEntities")]

/-- The paths from reports to their grants and to the other entities that they are about. -/
def recipientPaths : List RelationPath :=
  let recipients : Hop :=
    ⟨"ActivityRecipients", "id", "activityRecipients", "activityReportId", "id", .oneToMany⟩
  [⟨"ActivityReports", "id", [recipients,
      ⟨"Grants", "id", "activityRecipients.grant", "id", "grantId", .manyToOne⟩], ["id"]⟩,
    ⟨"ActivityReports", "id", [recipients,
      ⟨"OtherEntities", "id", "activityRecipients.otherEntity", "id", "otherEntityId",
        .manyToOne⟩], ["id"]⟩]

/-- The two paths, which begin alike, have three joins together, and merging their four joins again
adds none. -/
theorem Catalog.merged_joins_recipients :
    (∀ p ∈ recipientPaths, ∃ names, DotFree names ∧
      (ofAdditions recipientAdditions).path "ActivityReports" names = .ok p) ∧
    (mergedJoins "Reports" .left recipientPaths).map JoinClause.aliasName =
      ["activityRecipients", "activityRecipients.grant", "activityRecipients.otherEntity"] ∧
    mergeJoins (mergedJoins "Reports" .left recipientPaths)
      (pathJoins "Reports" .left recipientPaths) = mergedJoins "Reports" .left recipientPaths := by
  have hpaths : ∀ p ∈ recipientPaths, ∃ names, DotFree names ∧
      (ofAdditions recipientAdditions).path "ActivityReports" names = .ok p :=
    List.forall_mem_cons.2
      ⟨⟨["activityRecipients", "grant"], by simp [DotFree], by decide +kernel⟩,
        List.forall_mem_singleton.2
          ⟨["activityRecipients", "otherEntity"], by simp [DotFree], by decide +kernel⟩⟩
  obtain ⟨-, -, -, -, -, again⟩ :=
    merged_joins_exact (built_iff.2 ⟨recipientAdditions, rfl⟩) hpaths "Reports" .left
  exact ⟨hpaths, by decide +kernel, again _ (List.Subset.refl _)⟩

end RowScope
