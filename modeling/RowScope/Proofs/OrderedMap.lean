import RowScope.OrderedMap

/-!
# Look-ups and entries

What is found under a key of an ordered map is the entry of that key, so the entries and the
look-ups of a map say the same. What a run over a list puts under a key is decided by the members of
the list that concern this key (`OrderedMap.get?_foldl`). A set made from a list has the members of
the list.
-/

namespace RowScope

variable {κ α β : Type} [Ordered κ]

namespace Ordered

/-- Of two keys one does not come after the other. -/
theorem cmp_ne_gt_total (a b : κ) : cmp a b ≠ .gt ∨ cmp b a ≠ .gt := by
  rw [← cmp_swap a b]
  cases cmp a b <;> simp

/-- Keys that do not come after one another are equal. -/
theorem eq_of_cmp_ne_gt {a b : κ} (hab : cmp a b ≠ .gt) (hba : cmp b a ≠ .gt) : a = b := by
  rw [← cmp_swap a b] at hba
  cases h : cmp a b with
  | eq => exact (cmp_eq_iff a b).1 h
  | lt =>
    rw [h] at hba
    exact absurd rfl hba
  | gt => exact absurd h hab

/-- A key that does not come after a second one comes after nothing that the second does not. -/
theorem cmp_ne_gt_trans {a b c : κ} (hab : cmp a b ≠ .gt) (hbc : cmp b c ≠ .gt) :
    cmp a c ≠ .gt := by
  intro hac
  -- Otherwise the last key comes before the first, and so before the second.
  have hca : cmp c a = .lt := (cmp_gt_iff a c).1 hac
  cases h : cmp a b with
  | eq =>
    rw [(cmp_eq_iff a b).1 h] at hac
    exact hbc hac
  | lt => exact hbc ((cmp_gt_iff b c).2 (cmp_trans c a b hca h))
  | gt => exact hab h

end Ordered

namespace OrderedMap

/-- What is found under a key is an entry of that key. -/
theorem mem_of_find? {key : κ} {value : α} {entries : List (κ × α)}
    (h : find? key entries = some value) : (key, value) ∈ entries := by
  induction entries with
  | nil => cases h
  | cons head rest ih =>
    obtain ⟨k, v⟩ := head
    rw [find?] at h
    split at h
    · next e =>
      rw [(Ordered.cmp_eq_iff key k).1 e, Option.some.inj h]
      exact List.mem_cons_self
    · exact List.mem_cons_of_mem _ (ih h)

/-- An entry in key order is what is found under its key. -/
theorem find?_of_mem {key : κ} {value : α} {entries : List (κ × α)} (hk : KeysIncrease entries)
    (h : (key, value) ∈ entries) : find? key entries = some value := by
  induction entries with
  | nil => exact absurd h List.not_mem_nil
  | cons head rest ih =>
    obtain ⟨k, v⟩ := head
    obtain ⟨first, others⟩ := List.pairwise_cons.1 hk
    rw [find?]
    rcases List.mem_cons.1 h with e | h
    · obtain ⟨rfl, rfl⟩ := Prod.mk.inj e
      rw [if_pos (Ordered.cmp_self key)]
    · -- The first key is smaller than that of the entry.
      have hlt : Ordered.cmp k key = .lt := first _ h
      have hne : Ordered.cmp key k ≠ .eq := by
        intro e
        rw [(Ordered.cmp_eq_iff key k).1 e, Ordered.cmp_self] at hlt
        cases hlt
      rw [if_neg hne]
      exact ih others h

/-- What a map holds under a key is its entry of that key. -/
theorem get?_eq_some_iff {m : OrderedMap κ α} {key : κ} {value : α} :
    m.get? key = some value ↔ (key, value) ∈ m.entries :=
  ⟨mem_of_find?, find?_of_mem m.increasing⟩

/-- A map is determined by its entries. -/
theorem eq_of_entries {m n : OrderedMap κ α} (h : m.entries = n.entries) : m = n := by
  cases m
  cases n
  cases h
  rfl

/-- Entries in key order are determined by their members. -/
theorem eq_of_same_members {entries others : List (κ × α)} (h : KeysIncrease entries)
    (hothers : KeysIncrease others) (hmem : ∀ e, e ∈ entries ↔ e ∈ others) : entries = others := by
  have irreflexive : ∀ a : κ × α, Ordered.cmp a.1 a.1 ≠ .lt := by
    intro a hlt
    rw [Ordered.cmp_self] at hlt
    cases hlt
  have nodup : ∀ {entries : List (κ × α)}, KeysIncrease entries → entries.Nodup := by
    intro entries hk
    refine List.Pairwise.imp ?_ hk
    rintro a b hlt rfl
    exact irreflexive a hlt
  apply List.Perm.eq_of_pairwise _ h hothers
  · exact (List.perm_ext_iff_of_nodup (nodup h) (nodup hothers)).2 hmem
  · -- No key stands before another one and after it.
    intro a b _ _ hab hba
    exact absurd (Ordered.cmp_trans a.1 b.1 a.1 hab hba) (irreflexive a)

/-- Maps that agree on some keys have the same entries of these keys. -/
theorem filter_entries_eq {m n : OrderedMap κ α} (keep : κ → Bool)
    (h : ∀ key, keep key = true → m.get? key = n.get? key) :
    m.entries.filter (fun e => keep e.1) = n.entries.filter fun e => keep e.1 := by
  apply eq_of_same_members (m.increasing.filter _) (n.increasing.filter _)
  rintro ⟨key, value⟩
  simp only [List.mem_filter, ← get?_eq_some_iff]
  constructor
  · rintro ⟨hget, hkeep⟩
    exact ⟨h key hkeep ▸ hget, hkeep⟩
  · rintro ⟨hget, hkeep⟩
    exact ⟨(h key hkeep).trans hget, hkeep⟩

/-- Maps that agree on every key are equal. -/
theorem eq_of_get? {m n : OrderedMap κ α} (h : ∀ key, m.get? key = n.get? key) : m = n := by
  refine eq_of_entries (eq_of_same_members m.increasing n.increasing ?_)
  rintro ⟨key, value⟩
  rw [← get?_eq_some_iff, ← get?_eq_some_iff, h]

/-- An entry whose key is greater than all others is put behind them. -/
theorem put_of_lt {key : κ} {value : α} {entries : List (κ × α)}
    (h : ∀ e ∈ entries, Ordered.cmp e.1 key = .lt) :
    put key value entries = entries ++ [(key, value)] := by
  induction entries with
  | nil => rfl
  | cons head rest ih =>
    obtain ⟨k, v⟩ := head
    have hgt : Ordered.cmp key k = .gt := (Ordered.cmp_gt_iff key k).2 (h _ List.mem_cons_self)
    rw [put, hgt, List.cons_append, ← ih fun e he => h e (List.mem_cons_of_mem _ he)]

/-- A map is that of its entries. -/
theorem ofList_entries (m : OrderedMap κ α) : ofList m.entries = m := by
  -- The entries come in key order, so each one is put behind those before it.
  have fold : ∀ (later : List (κ × α)) (m : OrderedMap κ α), KeysIncrease (m.entries ++ later) →
      (later.foldl (fun m e => m.insert e.1 e.2) m).entries = m.entries ++ later := by
    intro later
    induction later with
    | nil => exact fun m _ => (List.append_nil _).symm
    | cons e later ih =>
      intro m hkeys
      have hput : (m.insert e.1 e.2).entries = m.entries ++ [e] :=
        put_of_lt fun f hf => (List.pairwise_append.1 hkeys).2.2 f hf e List.mem_cons_self
      have hlater := ih (m.insert e.1 e.2) (by
        rwa [hput, List.append_assoc, List.singleton_append])
      rwa [hput, List.append_assoc, List.singleton_append] at hlater
  exact eq_of_entries (fold m.entries empty m.increasing)

/-- Nothing is found in the map without entries. -/
theorem get?_empty (key : κ) : (empty : OrderedMap κ α).get? key = none := rfl

/-- What a map holds stays when something is put under a key that was free. -/
theorem get?_insert_of_free [DecidableEq κ] {m : OrderedMap κ α} {key other : κ} {value found : α}
    (hfree : m.get? key = none) (h : m.get? other = some found) :
    (m.insert key value).get? other = some found := by
  rw [get?_insert, if_neg]
  · exact h
  · rintro rfl
    rw [hfree] at h
    cases h

/-- What a map holds after an insertion is new or was there before. -/
theorem of_get?_insert [DecidableEq κ] {m : OrderedMap κ α} {key other : κ} {value found : α}
    (h : (m.insert key value).get? other = some found) :
    (other = key ∧ found = value) ∨ m.get? other = some found := by
  rw [get?_insert] at h
  split at h
  · next e => exact .inl ⟨e, (Option.some.inj h).symm⟩
  · exact .inr h

/-- A run whose steps change what is under one key each, if any, changes what is under a key by its
steps for that key. -/
theorem get?_foldl [DecidableEq κ] {step : OrderedMap κ α → β → OrderedMap κ α}
    {name : β → Option κ} {change : β → Option α → α}
    (hstep : ∀ m b key, (step m b).get? key =
      if name b = some key then some (change b (m.get? key)) else m.get? key)
    (bs : List β) (m : OrderedMap κ α) (key : κ) :
    (bs.foldl step m).get? key =
      (bs.filter fun b => name b = some key).foldl (fun found b => some (change b found))
        (m.get? key) := by
  induction bs generalizing m with
  | nil => rfl
  | cons b bs ih =>
    rw [List.foldl_cons, ih, hstep]
    by_cases h : name b = some key
    · rw [if_pos h, List.filter_cons_of_pos (by simpa using h), List.foldl_cons]
    · rw [if_neg h, List.filter_cons_of_neg (by simpa using h)]

/-- A run whose steps replace what is under one key each, if any, leaves under a key what the last
step for that key puts there. -/
theorem get?_foldl_replace [DecidableEq κ] {step : OrderedMap κ α → β → OrderedMap κ α}
    {name : β → Option κ} {content : β → α}
    (hstep : ∀ m b key, (step m b).get? key =
      if name b = some key then some (content b) else m.get? key)
    (bs : List β) (key : κ) :
    (bs.foldl step empty).get? key =
      (bs.filter fun b => name b = some key).getLast?.map content := by
  have hrun : (bs.foldl step empty).get? key =
      (bs.filter fun b => name b = some key).foldl (fun _ b => some (content b)) none :=
    get?_foldl hstep bs empty key
  rw [hrun]
  rcases List.eq_nil_or_concat (bs.filter fun b => name b = some key) with h | ⟨front, b, h⟩
  · rw [h]
    rfl
  · rw [h, List.concat_eq_append, List.foldl_append, List.getLast?_concat]
    rfl

/-- A map made from a list holds under a key what comes last with it in the list. -/
theorem get?_ofList [DecidableEq κ] (entries : List (κ × α)) (key : κ) :
    (ofList entries).get? key = (entries.filter fun e => e.1 = key).getLast?.map Prod.snd := by
  have hstep : ∀ (m : OrderedMap κ α) (e : κ × α) (key : κ), (m.insert e.1 e.2).get? key =
      if some e.1 = some key then some e.2 else m.get? key := by
    intro m e key
    simp only [get?_insert, Option.some.injEq, eq_comm]
  rw [ofList, get?_foldl_replace hstep]
  simp only [Option.some.injEq]

/-- The entries of a map of one key. -/
theorem entries_insert_empty (key : κ) (value : α) :
    ((empty : OrderedMap κ α).insert key value).entries = [(key, value)] := rfl

/-- A map with an entry put into it is not empty. -/
theorem isEmpty_insert (m : OrderedMap κ α) (key : κ) (value : α) :
    (m.insert key value).isEmpty = false := by
  obtain ⟨entries, _⟩ := m
  cases entries with
  | nil => rfl
  | cons head rest =>
    show (put key value (head :: rest)).isEmpty = false
    unfold put
    split <;> rfl

/-- No key comes twice. -/
theorem nodup_keys (m : OrderedMap κ α) : m.keys.Nodup := by
  unfold keys
  rw [List.Nodup, List.pairwise_map]
  refine m.increasing.imp fun {a b} hlt he => ?_
  rw [he, Ordered.cmp_self] at hlt
  cases hlt

end OrderedMap

namespace OrderedSet

/-- A set made from a list with a member is not empty. -/
theorem isEmpty_ofList_cons (k : κ) (members : List κ) :
    OrderedMap.isEmpty (ofList (k :: members)) = false := by
  -- The first member is put into the empty set, and no other one empties it.
  have fold : ∀ (members : List κ) (m : OrderedMap κ Unit), m.isEmpty = false →
      ((members.map fun j => (j, ())).foldl (fun m e => m.insert e.1 e.2) m).isEmpty = false := by
    intro members
    induction members with
    | nil => exact fun _ h => h
    | cons j members ih => exact fun m _ => ih _ (m.isEmpty_insert j ())
  exact fold members _ (OrderedMap.isEmpty_insert OrderedMap.empty k ())

/-- The members of a set made from a list are those of the list. -/
theorem mem_toList_ofList [DecidableEq κ] {members : List κ} {k : κ} :
    k ∈ (ofList members).toList ↔ k ∈ members := by
  -- A key is in the list of keys if something is found under it.
  have mem_keys : ∀ m : OrderedMap κ Unit, k ∈ m.keys ↔ m.get? k = some () := by
    intro m
    rw [OrderedMap.get?_eq_some_iff, OrderedMap.keys, List.mem_map]
    constructor
    · rintro ⟨⟨j, ⟨⟩⟩, hj, rfl⟩
      exact hj
    · exact fun h => ⟨(k, ()), h, rfl⟩
  -- Each member of the list is put into the set, and what was in it stays.
  have fold : ∀ (members : List κ) (m : OrderedMap κ Unit),
      ((members.map fun j => (j, ())).foldl (fun m e => m.insert e.1 e.2) m).get? k = some () ↔
        m.get? k = some () ∨ k ∈ members := by
    intro members
    induction members with
    | nil => simp
    | cons j members ih =>
      intro m
      rw [List.map_cons, List.foldl_cons, ih, OrderedMap.get?_insert]
      by_cases h : k = j <;> simp [h]
  unfold toList ofList OrderedMap.ofList
  rw [mem_keys, fold members OrderedMap.empty, OrderedMap.get?_empty]
  simp

/-- A set made from a list with members lists some. -/
theorem toList_ofList_ne_nil [DecidableEq κ] {members : List κ} (h : members ≠ []) :
    (ofList members).toList ≠ [] := by
  obtain ⟨k, hk⟩ := List.exists_mem_of_ne_nil members h
  exact List.ne_nil_of_mem (mem_toList_ofList.2 hk)

/-- The members of a set are as many as its size. -/
theorem length_toList (s : OrderedSet κ) : s.toList.length = s.size := List.length_map ..

/-- The size of a set made from a list is the length of any list with the members of that list, each
of them once. -/
theorem size_ofList [DecidableEq κ] {members others : List κ} (hnodup : others.Nodup)
    (hmem : ∀ k, k ∈ others ↔ k ∈ members) : (ofList members).size = others.length := by
  have hperm : (ofList members).toList.Perm others :=
    (List.perm_ext_iff_of_nodup (OrderedMap.nodup_keys _) hnodup).2 fun k =>
      mem_toList_ofList.trans (hmem k).symm
  rw [← length_toList, hperm.length_eq]

end OrderedSet

end RowScope
