import RowScope.Proofs.Memory.Join

/-!
# Merged joins

`mergeJoins` keeps the joins that are there and adds those whose alias is not taken. Where an alias
determines its join (`JoinsAgree`), no join is lost: the merged list holds the joins of both lists,
each where it comes first (`mergeJoins_eq`).
-/

namespace RowScope

/-- Joins of one alias are equal. -/
def JoinsAgree (joins : List JoinClause) : Prop :=
  ∀ j ∈ joins, ∀ k ∈ joins, j.aliasName = k.aliasName → j = k

/-- A merged join is one of those that were merged. -/
theorem mem_of_mem_mergeJoins {joins others : List JoinClause} {j : JoinClause}
    (h : j ∈ mergeJoins joins others) : j ∈ joins ∨ j ∈ others := by
  induction others generalizing joins with
  | nil => exact .inl h
  | cons join rest ih =>
    rw [mergeJoins] at h
    split at h
    · exact (ih h).imp_right (List.mem_cons_of_mem join)
    · rcases ih h with h | h
      · rcases List.mem_append.1 h with h | h
        · exact .inl h
        · exact .inr (List.mem_singleton.1 h ▸ List.mem_cons_self)
      · exact .inr (List.mem_cons_of_mem join h)

/-- Merging keeps the joins that are there, in front. -/
theorem mergeJoins_extends (joins others : List JoinClause) :
    joins <+: mergeJoins joins others := by
  induction others generalizing joins with
  | nil => exact List.prefix_rfl
  | cons join rest ih =>
    rw [mergeJoins]
    split
    · exact ih joins
    · exact (List.prefix_append joins [join]).trans (ih _)

/-- Merging joins one list after the other is merging them all. -/
theorem mergeJoins_append (joins others more : List JoinClause) :
    mergeJoins joins (others ++ more) = mergeJoins (mergeJoins joins others) more := by
  induction others generalizing joins with
  | nil => rfl
  | cons join rest ih =>
    rw [List.cons_append, mergeJoins, mergeJoins]
    split
    · exact ih joins
    · exact ih (joins ++ [join])

/-- Joins whose aliases are taken are not merged. -/
theorem mergeJoins_eq_self {joins others : List JoinClause}
    (h : others.map JoinClause.aliasName ⊆ joins.map JoinClause.aliasName) :
    mergeJoins joins others = joins := by
  induction others with
  | nil => rfl
  | cons join rest ih =>
    obtain ⟨hjoin, hrest⟩ := List.cons_subset.1 h
    obtain ⟨k, hk, he⟩ := List.mem_map.1 hjoin
    rw [mergeJoins, if_pos (List.any_eq_true.2 ⟨k, hk, decide_eq_true he⟩)]
    exact ih hrest

/-- Joins among others of which those of one alias are equal are so themselves. -/
theorem JoinsAgree.mono {joins more : List JoinClause} (hsub : joins ⊆ more) (h : JoinsAgree more) :
    JoinsAgree joins :=
  fun j hj k hk => h j (hsub hj) k (hsub hk)

/-- If joins of one alias are equal, merging adds the joins that are not there, each where it comes
first. -/
theorem mergeJoins_eq {joins others : List JoinClause} (h : JoinsAgree (joins ++ others)) :
    mergeJoins joins others = joins ++ (others.filter (· ∉ joins)).eraseDups := by
  induction others generalizing joins with
  | nil => exact (List.append_nil joins).symm
  | cons join rest ih =>
    rw [mergeJoins]
    split
    · next taken =>
      -- The join that has the alias is the same join.
      obtain ⟨k, hk, he⟩ := List.any_eq_true.1 taken
      have same : k = join := h k (List.mem_append_left _ hk) join
        (List.mem_append_right _ List.mem_cons_self) (of_decide_eq_true he)
      have hthere : join ∈ joins := same ▸ hk
      rw [List.filter_cons_of_neg (by simpa using hthere), ih (h.mono (by simp))]
    · next free =>
      have hnew : join ∉ joins := fun hmem =>
        free (List.any_eq_true.2 ⟨join, hmem, decide_eq_true rfl⟩)
      have hlater : rest.filter (· ∉ joins ++ [join]) =
          (rest.filter (· ∉ joins)).filter fun j => !j == join := by
        rw [List.filter_filter]
        refine List.filter_congr fun j _ => ?_
        by_cases he : j = join <;> simp [he]
      rw [List.filter_cons_of_pos (by simpa using hnew), List.eraseDups_cons,
        ih (h.mono (by simp)), hlater, List.append_assoc, List.singleton_append]

/-- Merging loses no join if joins of one alias are equal. -/
theorem subset_mergeJoins {joins others : List JoinClause} (h : JoinsAgree (joins ++ others)) :
    others ⊆ mergeJoins joins others := by
  intro j hj
  rw [mergeJoins_eq h, List.mem_append, List.mem_eraseDups, List.mem_filter]
  by_cases hthere : j ∈ joins
  · exact .inl hthere
  · exact .inr ⟨hj, decide_eq_true hthere⟩

/-- Merging loses no alias. -/
theorem aliases_subset_mergeJoins (joins others : List JoinClause) :
    others.map JoinClause.aliasName ⊆ (mergeJoins joins others).map JoinClause.aliasName := by
  induction others generalizing joins with
  | nil => exact List.nil_subset _
  | cons join rest ih =>
    rw [mergeJoins]
    split
    · next taken =>
      obtain ⟨k, hk, he⟩ := List.any_eq_true.1 taken
      refine List.cons_subset.2 ⟨?_, ih joins⟩
      rw [← of_decide_eq_true he]
      exact List.mem_map_of_mem ((mergeJoins_extends joins rest).subset hk)
    · refine List.cons_subset.2 ⟨?_, ih _⟩
      exact List.mem_map_of_mem ((mergeJoins_extends _ rest).subset (by simp))

/-- The aliases of merged joins are distinct if those of the first joins are. -/
theorem nodup_mergeJoins {joins : List JoinClause} (others : List JoinClause)
    (h : (joins.map JoinClause.aliasName).Nodup) :
    ((mergeJoins joins others).map JoinClause.aliasName).Nodup := by
  induction others generalizing joins with
  | nil => exact h
  | cons join rest ih =>
    rw [mergeJoins]
    split
    · exact ih h
    · next free =>
      apply ih
      rw [List.map_append, List.nodup_append]
      refine ⟨h, by simp, ?_⟩
      intro a ha b hb e
      subst e
      obtain ⟨k, hk, rfl⟩ := List.mem_map.1 ha
      exact free (List.any_eq_true.2 ⟨k, hk, decide_eq_true (by simpa using hb)⟩)

/-- Merged joins refer to bound aliases if the joins of both lists do. -/
theorem joinsBound_mergeJoins {bound : List String} {joins others : List JoinClause}
    (hj : JoinsBound bound joins)
    (ho : JoinsBound ((joins.map JoinClause.aliasName).reverse ++ bound) others) :
    JoinsBound bound (mergeJoins joins others) := by
  induction others generalizing joins with
  | nil => exact hj
  | cons join rest ih =>
    rw [mergeJoins]
    split
    · next taken =>
      -- The alias is bound already, by the join that keeps it.
      obtain ⟨k, hk, he⟩ := List.any_eq_true.1 taken
      refine ih hj (ho.2.mono (List.cons_subset.2 ⟨?_, List.Subset.refl _⟩))
      rw [← of_decide_eq_true he]
      exact List.mem_append_left _ (List.mem_reverse.2 (List.mem_map_of_mem hk))
    · apply ih
      · exact joinsBound_append.2 ⟨hj, ho.1, True.intro⟩
      · rw [List.map_append, List.reverse_append]
        exact ho.2

end RowScope
