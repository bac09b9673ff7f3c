import Mathlib.Data.List.Forall2

/-!
# Computations on lists that may fail

A traversal of a list whose computations all succeed is the pure function on the list. Conversely a
traversal that succeeds has succeeded at every member.
-/

namespace RowScope.Traversal

variable {α β γ ε : Type}

/-- Two computations in a row succeed if the first does and the second does on its result. -/
theorem bind_eq_ok {x : Except ε α} {f : α → Except ε β} {b : β} :
    (x >>= f) = .ok b ↔ ∃ a, x = .ok a ∧ f a = .ok b := by
  cases x <;> simp [bind, Except.bind]

/-- Two computations in a row fail if the first does or the second does on its result. -/
theorem bind_eq_error {x : Except ε α} {f : α → Except ε β} {e : ε} :
    (x >>= f) = .error e ↔ x = .error e ∨ ∃ a, x = .ok a ∧ f a = .error e := by
  cases x <;> simp [bind, Except.bind]

/-- A changed error does not change success. -/
theorem mapError_eq_ok {x : Except ε α} {f : ε → γ} {a : α} :
    x.mapError f = .ok a ↔ x = .ok a := by
  cases x with
  | error e => constructor <;> exact fun h => by cases h
  | ok b =>
    constructor <;> intro h <;> cases h <;> rfl

/-- A mapped result comes from a result. -/
theorem map_eq_ok {x : Except ε α} {f : α → β} {b : β} :
    x.map f = .ok b ↔ ∃ a, x = .ok a ∧ f a = b := by
  cases x <;> simp [Except.map]

/-- A mapped result fails as the result does. -/
theorem map_eq_error {x : Except ε α} {f : α → β} {e : ε} :
    x.map f = .error e ↔ x = .error e := by
  cases x <;> simp [Except.map]

/-- A computation succeeds if it has a result. -/
theorem isOk_iff {x : Except ε α} : x.isOk = true ↔ ∃ a, x = .ok a := by
  cases x <;> simp [Except.isOk, Except.toBool]

/-- A computation that has known results at the members has them on the list. -/
theorem mapM_eq_ok {f : α → Except ε β} {g : α → β} {xs : List α}
    (h : ∀ a ∈ xs, f a = .ok (g a)) : xs.mapM f = .ok (xs.map g) := by
  induction xs with
  | nil => rfl
  | cons a xs ih =>
    rw [List.mapM_cons, h a List.mem_cons_self, ih fun b hb => h b (List.mem_cons_of_mem a hb)]
    rfl

/-- A computation that succeeds on a list succeeds at its first member and on the others. -/
theorem mapM_cons_eq_ok {f : α → Except ε β} {a : α} {xs : List α} {ys : List β} :
    (a :: xs).mapM f = .ok ys ↔
      ∃ b bs, f a = .ok b ∧ xs.mapM f = .ok bs ∧ ys = b :: bs := by
  simp only [List.mapM_cons, bind_eq_ok, pure, Except.pure, Except.ok.injEq]
  constructor
  · rintro ⟨b, hb, bs, hbs, rfl⟩
    exact ⟨b, bs, hb, hbs, rfl⟩
  · rintro ⟨b, bs, hb, hbs, rfl⟩
    exact ⟨b, hb, bs, hbs, rfl⟩

/-- A computation that succeeds on a list gives its result at each member, in their order. -/
theorem mapM_eq_ok_iff {f : α → Except ε β} {xs : List α} {ys : List β} :
    xs.mapM f = .ok ys ↔ List.Forall₂ (fun a b => f a = .ok b) xs ys := by
  induction xs generalizing ys with
  | nil =>
    rw [List.forall₂_nil_left_iff]
    simp [pure, Except.pure, eq_comm]
  | cons a xs ih =>
    rw [mapM_cons_eq_ok, List.forall₂_cons_left_iff]
    simp only [ih]

/-- A computation that succeeds at each member succeeds on the list. -/
theorem exists_mapM {f : α → Except ε β} {xs : List α} (h : ∀ a ∈ xs, ∃ b, f a = .ok b) :
    ∃ ys, xs.mapM f = .ok ys := by
  induction xs with
  | nil => exact ⟨[], rfl⟩
  | cons a xs ih =>
    obtain ⟨⟨b, hb⟩, hrest⟩ := List.forall_mem_cons.1 h
    obtain ⟨bs, hbs⟩ := ih hrest
    exact ⟨b :: bs, mapM_cons_eq_ok.2 ⟨b, bs, hb, hbs, rfl⟩⟩

/-- A computation that succeeds on a list succeeds at every member. -/
theorem ok_of_mem {f : α → Except ε β} {xs : List α} {ys : List β} (h : xs.mapM f = .ok ys)
    {a : α} (ha : a ∈ xs) : ∃ b ∈ ys, f a = .ok b := by
  induction xs generalizing ys with
  | nil => exact absurd ha List.not_mem_nil
  | cons x xs ih =>
    obtain ⟨b, bs, hb, hbs, rfl⟩ := mapM_cons_eq_ok.1 h
    rcases List.mem_cons.1 ha with rfl | ha
    · exact ⟨b, List.mem_cons_self, hb⟩
    · obtain ⟨c, hc, hac⟩ := ih hbs ha
      exact ⟨c, List.mem_cons_of_mem b hc, hac⟩

/-- A result of a computation on a list is the result at some member. -/
theorem mem_of_ok {f : α → Except ε β} {xs : List α} {ys : List β} (h : xs.mapM f = .ok ys)
    {b : β} (hb : b ∈ ys) : ∃ a ∈ xs, f a = .ok b := by
  induction xs generalizing ys with
  | nil =>
    cases h
    exact absurd hb List.not_mem_nil
  | cons x xs ih =>
    obtain ⟨c, cs, hc, hcs, rfl⟩ := mapM_cons_eq_ok.1 h
    rcases List.mem_cons.1 hb with rfl | hb
    · exact ⟨x, List.mem_cons_self, hc⟩
    · obtain ⟨a, ha, hab⟩ := ih hcs hb
      exact ⟨a, List.mem_cons_of_mem x ha, hab⟩

/-- A computation that fails on a list fails so at some member. -/
theorem error_of_mapM {f : α → Except ε β} {xs : List α} {e : ε} (h : xs.mapM f = .error e) :
    ∃ a ∈ xs, f a = .error e := by
  induction xs with
  | nil => cases h
  | cons a xs ih =>
    rw [List.mapM_cons] at h
    rcases bind_eq_error.1 h with h | ⟨b, -, h⟩
    · exact ⟨a, List.mem_cons_self, h⟩
    · rcases bind_eq_error.1 h with h | ⟨bs, -, h⟩
      · obtain ⟨x, hx, he⟩ := ih h
        exact ⟨x, List.mem_cons_of_mem a hx, he⟩
      · cases h

/-- A computation that fails in one way only fails so on a list if it does at some member. -/
theorem mapM_eq_error {f : α → Except ε β} {xs : List α} {e : ε}
    (h : ∀ a ∈ xs, (∃ b, f a = .ok b) ∨ f a = .error e) (hfails : ∃ a ∈ xs, f a = .error e) :
    xs.mapM f = .error e := by
  obtain ⟨a, ha, hfails⟩ := hfails
  cases hall : xs.mapM f with
  | ok ys =>
    obtain ⟨b, -, hb⟩ := ok_of_mem hall ha
    rw [hfails] at hb
    cases hb
  | error other =>
    -- The failure of the list is that of a member.
    obtain ⟨x, hx, hother⟩ := error_of_mapM hall
    have hone := h x hx
    rw [hother] at hone
    rcases hone with ⟨b, hb⟩ | hone
    · cases hb
    · cases hone
      rfl

/-- The results of a computation that changes the results of another one at every member. -/
theorem mapM_map {f : α → Except ε β} {g : α → Except ε γ} {change : β → γ} {xs : List α}
    (h : ∀ a ∈ xs, g a = (f a).map change) : xs.mapM g = (xs.mapM f).map (List.map change) := by
  induction xs with
  | nil => rfl
  | cons a xs ih =>
    rw [List.mapM_cons, List.mapM_cons, h a List.mem_cons_self,
      ih fun b hb => h b (List.mem_cons_of_mem a hb)]
    cases f a with
    | error e => rfl
    | ok b => cases xs.mapM f <;> rfl

/-- What every step of a run preserves holds at its end if it holds at its beginning. -/
theorem foldlM_preserves {P : β → Prop} {f : β → α → Except ε β} {xs : List α}
    (hstep : ∀ a ∈ xs, ∀ s t, P s → f s a = .ok t → P t) {first last : β} (hfirst : P first)
    (h : xs.foldlM f first = .ok last) : P last := by
  induction xs generalizing first with
  | nil =>
    cases h
    exact hfirst
  | cons a xs ih =>
    rw [List.foldlM_cons] at h
    obtain ⟨next, hnext, h⟩ := bind_eq_ok.1 h
    have hrest : ∀ b ∈ xs, ∀ s t, P s → f s b = .ok t → P t :=
      fun b hb => hstep b (List.mem_cons_of_mem a hb)
    exact ih hrest (hstep a List.mem_cons_self first next hfirst hnext) h

/-- Runs whose steps do the same at every member do the same. -/
theorem foldlM_congr {f g : β → α → Except ε β} {xs : List α} (h : ∀ a ∈ xs, ∀ s, f s a = g s a)
    (first : β) : xs.foldlM f first = xs.foldlM g first := by
  induction xs generalizing first with
  | nil => rfl
  | cons a xs ih =>
    have hrest : ∀ b ∈ xs, ∀ s, f s b = g s b := fun b hb => h b (List.mem_cons_of_mem a hb)
    rw [List.foldlM_cons, List.foldlM_cons, h a List.mem_cons_self]
    exact bind_congr fun s => ih hrest s

/-- A run fails as the first of its steps does that fails. -/
theorem foldlM_eq_error_iff {f : β → α → Except ε β} {xs : List α} {first : β} {e : ε} :
    xs.foldlM f first = .error e ↔
      ∃ before a after s, xs = before ++ a :: after ∧ before.foldlM f first = .ok s ∧
        f s a = .error e := by
  induction xs generalizing first with
  | nil => simp [pure, Except.pure]
  | cons x xs ih =>
    rw [List.foldlM_cons, bind_eq_error]
    constructor
    · rintro (hfails | ⟨next, hnext, hrest⟩)
      · exact ⟨[], x, xs, first, rfl, rfl, hfails⟩
      · obtain ⟨before, a, after, s, rfl, hbefore, hfails⟩ := ih.1 hrest
        exact ⟨x :: before, a, after, s, rfl, bind_eq_ok.2 ⟨next, hnext, hbefore⟩, hfails⟩
    · rintro ⟨before, a, after, s, hsplit, hbefore, hfails⟩
      cases before with
      | nil =>
        cases hsplit
        cases hbefore
        exact .inl hfails
      | cons y before =>
        cases hsplit
        obtain ⟨next, hnext, hbefore⟩ := bind_eq_ok.1 hbefore
        exact .inr ⟨next, hnext, ih.2 ⟨before, a, after, s, rfl, hbefore, hfails⟩⟩

/-- A run whose steps fail or not whatever the state is fails as the first of the members in order
does that fail. -/
theorem foldlM_eq_error {f : β → α → Except ε β} (g : α → Except ε γ) (put : β → α → γ → β)
    (hstep : ∀ s a, f s a = (g a).map (put s a)) (before : α → α → Prop)
    (hirrefl : ∀ a, ¬ before a a) (hasymm : ∀ a b, before a b → ¬ before b a) {xs : List α}
    (hxs : xs.Pairwise before) {first : β} {e : ε} :
    xs.foldlM f first = .error e ↔
      ∃ a ∈ xs, g a = .error e ∧ ∀ b ∈ xs, before b a → ∃ y, g b = .ok y := by
  induction xs generalizing first with
  | nil => simp [pure, Except.pure]
  | cons x xs ih =>
    obtain ⟨hx, hxs⟩ := List.pairwise_cons.1 hxs
    rw [List.foldlM_cons, bind_eq_error, hstep, map_eq_error]
    simp only [map_eq_ok]
    constructor
    · rintro (hhere | ⟨_, ⟨y, hy, rfl⟩, hrest⟩)
      · refine ⟨x, List.mem_cons_self, hhere, fun b hb hbefore => ?_⟩
        -- Nothing in the list stands before its first member.
        rcases List.mem_cons.1 hb with rfl | hb
        · exact absurd hbefore (hirrefl b)
        · exact absurd hbefore (hasymm x b (hx b hb))
      · obtain ⟨a, ha, hfails, hearlier⟩ := (ih hxs).1 hrest
        refine ⟨a, List.mem_cons_of_mem x ha, hfails, fun b hb hbefore => ?_⟩
        rcases List.mem_cons.1 hb with rfl | hb
        · exact ⟨y, hy⟩
        · exact hearlier b hb hbefore
    · rintro ⟨a, ha, hfails, hearlier⟩
      rcases List.mem_cons.1 ha with rfl | ha
      · exact .inl hfails
      · obtain ⟨y, hy⟩ := hearlier x List.mem_cons_self (hx a ha)
        refine .inr ⟨_, ⟨y, hy, rfl⟩, (ih hxs).2 ⟨a, ha, hfails, fun b hb => ?_⟩⟩
        exact hearlier b (List.mem_cons_of_mem x hb)

/-- A test that succeeds at every member filters the list. -/
theorem filterM_eq_ok {p : α → Except ε Bool} {q : α → Bool} {xs : List α}
    (h : ∀ a ∈ xs, p a = .ok (q a)) : xs.filterM p = .ok (xs.filter q) := by
  -- The filter keeps what it has seen in reverse.
  have acc : ∀ seen : List α, List.filterAuxM p xs seen = .ok ((xs.filter q).reverse ++ seen) := by
    induction xs with
    | nil => exact fun _ => rfl
    | cons a xs ih =>
      intro seen
      rw [List.filterAuxM, h a List.mem_cons_self]
      show List.filterAuxM p xs (bif q a then a :: seen else seen) = _
      rw [ih fun b hb => h b (List.mem_cons_of_mem a hb)]
      cases hq : q a <;> simp [hq]
  unfold List.filterM
  rw [acc []]
  simp [bind, Except.bind, pure, Except.pure]

/-- A test that fails at the first member fails on the list. -/
theorem filterM_cons_eq_error {p : α → Except ε Bool} {a : α} {xs : List α} {e : ε}
    (h : p a = .error e) : (a :: xs).filterM p = .error e := by
  unfold List.filterM
  rw [List.filterAuxM, h]
  rfl

/-- A test that succeeds at every member is met by one of them or by none. -/
theorem anyM_eq_ok {p : α → Except ε Bool} {q : α → Bool} {xs : List α}
    (h : ∀ a ∈ xs, p a = .ok (q a)) : xs.anyM p = .ok (xs.any q) := by
  induction xs with
  | nil => rfl
  | cons a xs ih =>
    rw [List.anyM, h a List.mem_cons_self, List.any_cons]
    cases q a with
    | true => rfl
    | false => exact ih fun b hb => h b (List.mem_cons_of_mem a hb)

end RowScope.Traversal
