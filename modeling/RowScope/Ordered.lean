/-!
# Ordered keys

The sorted containers of the library compare their keys with `Ordered.cmp`. An instance is a linear
order: `cmp` answers `.eq` only on equal keys, reverses with its arguments, and its `.lt` is
transitive. Text is ordered by code point, lists and pairs lexicographically, and any other key type
by an injection into one that is ordered already (`Ordered.via`).
-/

namespace RowScope

/-- A linear order given by its comparison. -/
class Ordered (κ : Type) where
  /-- The comparison. -/
  cmp : κ → κ → Ordering
  /-- Keys compare equal only if they are equal. -/
  cmp_eq_iff (a b : κ) : cmp a b = .eq ↔ a = b
  /-- Exchanging the keys reverses the answer. -/
  cmp_swap (a b : κ) : (cmp a b).swap = cmp b a
  /-- The strict order is transitive. -/
  cmp_trans (a b c : κ) : cmp a b = .lt → cmp b c = .lt → cmp a c = .lt

namespace Ordered

variable {κ μ : Type}

/-- A key compares equal to itself. -/
@[simp] theorem cmp_self [Ordered κ] (a : κ) : cmp a a = .eq := (cmp_eq_iff a a).2 rfl

/-- The answer is `.gt` exactly when the exchanged answer is `.lt`. -/
theorem cmp_gt_iff [Ordered κ] (a b : κ) : cmp a b = .gt ↔ cmp b a = .lt := by
  rw [← cmp_swap a b]
  cases cmp a b <;> simp 

/-- The order that an injection `f` carries back from `μ`. -/
@[reducible] def via [Ordered μ] (f : κ → μ) (injective : ∀ a b, f a = f b → a = b) :
    Ordered κ where
  cmp a b := cmp (f a) (f b)
  cmp_eq_iff a b := (cmp_eq_iff (f a) (f b)).trans ⟨injective a b, congrArg f⟩
  cmp_swap a b := cmp_swap (f a) (f b)
  cmp_trans a b c := cmp_trans (f a) (f b) (f c)

/-! ## Numbers and characters -/

/-- The comparison of two integers. -/
def cmpInt (a b : Int) : Ordering := if a < b then .lt else if a = b then .eq else .gt

theorem cmpInt_eq_iff (a b : Int) : cmpInt a b = .eq ↔ a = b := by
  unfold cmpInt
  split
  · simp only [reduceCtorEq, false_iff]; omega
  · split <;> simp_all

theorem cmpInt_lt_iff (a b : Int) : cmpInt a b = .lt ↔ a < b := by
  unfold cmpInt
  split
  · simp_all
  · split <;> simp_all

theorem cmpInt_swap (a b : Int) : (cmpInt a b).swap = cmpInt b a := by
  unfold cmpInt
  by_cases h : a < b
  · simp [h, show ¬ b < a by omega, show b ≠ a by omega]
  · by_cases e : a = b
    · simp [e]
    · simp [h, e, show b < a by omega]

theorem cmpInt_trans (a b c : Int) (hab : cmpInt a b = .lt) (hbc : cmpInt b c = .lt) :
    cmpInt a c = .lt := by
  rw [cmpInt_lt_iff] at *
  omega

/-- Integers by size. -/
instance : Ordered Int := ⟨cmpInt, cmpInt_eq_iff, cmpInt_swap, cmpInt_trans⟩

/-- Natural numbers by size. -/
instance : Ordered Nat := via Int.ofNat fun _ _ h => Int.ofNat.inj h

/-- `false` before `true`. -/
instance : Ordered Bool := via Bool.toNat fun | false, false, _ => rfl | true, true, _ => rfl

/-- Words by the integer they stand for. -/
instance : Ordered Int64 := via Int64.toInt fun _ _ h => Int64.toInt_inj.1 h

/-- Characters by code point. -/
instance : Ordered Char := via Char.toNat fun _ _ h => Char.toNat_inj.1 h

/-! ## Lists, text and pairs -/

/-- The first difference decides; a proper beginning stands before the longer list. -/
def cmpList [Ordered κ] : List κ → List κ → Ordering
  | [], [] => .eq
  | [], _ :: _ => .lt
  | _ :: _, [] => .gt
  | a :: as, b :: bs =>
    match cmp a b with
    | .eq => cmpList as bs
    | answer => answer

theorem cmpList_eq_iff [Ordered κ] (as bs : List κ) : cmpList as bs = .eq ↔ as = bs := by
  induction as generalizing bs with
  | nil => cases bs <;> simp [cmpList]
  | cons a as ih =>
    cases bs with
    | nil => simp [cmpList]
    | cons b bs =>
      have hab := cmp_eq_iff a b
      cases h : cmp a b <;> simp [cmpList, h] at hab ⊢ <;> simp [hab, ih]

theorem cmpList_swap [Ordered κ] (as bs : List κ) : (cmpList as bs).swap = cmpList bs as := by
  induction as generalizing bs with
  | nil => cases bs <;> simp [cmpList]
  | cons a as ih =>
    cases bs with
    | nil => simp [cmpList]
    | cons b bs =>
      have hab := cmp_swap a b
      cases h : cmp a b <;> simp [h] at hab <;>
        simp [cmpList, h, ← hab]
      exact ih bs

theorem cmpList_trans [Ordered κ] (as bs cs : List κ) :
    cmpList as bs = .lt → cmpList bs cs = .lt → cmpList as cs = .lt := by
  induction as generalizing bs cs with
  | nil => cases bs <;> cases cs <;> simp [cmpList]
  | cons a as ih =>
    cases bs with
    | nil => simp [cmpList]
    | cons b bs =>
      cases cs with
      | nil => simp [cmpList]
      | cons c cs =>
        intro h k
        simp only [cmpList] at h k ⊢
        cases hab : cmp a b <;> simp [hab] at h
        · cases hbc : cmp b c <;> simp [hbc] at k
          · simp [cmp_trans a b c hab hbc]
          · obtain rfl := (cmp_eq_iff b c).1 hbc
            simp [hab]
        · obtain rfl := (cmp_eq_iff a b).1 hab
          cases hbc : cmp a c <;> simp [hbc] at k
          · simp
          · exact ih bs cs h k

/-- Lists lexicographically. -/
instance [Ordered κ] : Ordered (List κ) := ⟨cmpList, cmpList_eq_iff, cmpList_swap, cmpList_trans⟩

/-- Text by code points. -/
instance : Ordered String := via String.toList fun _ _ h => String.toList_inj.1 h

/-- The first parts decide, then the second parts. -/
def cmpPair [Ordered κ] [Ordered μ] (a b : κ × μ) : Ordering :=
  match cmp a.1 b.1 with
  | .eq => cmp a.2 b.2
  | answer => answer

theorem cmpPair_eq_iff [Ordered κ] [Ordered μ] (a b : κ × μ) : cmpPair a b = .eq ↔ a = b := by
  have h1 := cmp_eq_iff a.1 b.1
  have h2 := cmp_eq_iff a.2 b.2
  cases h : cmp a.1 b.1 <;> simp [cmpPair, h] at h1 ⊢ <;> simp [Prod.ext_iff, h1, h2]

theorem cmpPair_swap [Ordered κ] [Ordered μ] (a b : κ × μ) :
    (cmpPair a b).swap = cmpPair b a := by
  have h1 := cmp_swap a.1 b.1
  have h2 := cmp_swap a.2 b.2
  cases h : cmp a.1 b.1 <;> simp [cmpPair, h] at h1 ⊢ <;> simp [← h1]
  exact h2

theorem cmpPair_trans [Ordered κ] [Ordered μ] (a b c : κ × μ) :
    cmpPair a b = .lt → cmpPair b c = .lt → cmpPair a c = .lt := by
  unfold cmpPair
  intro h k
  cases hab : cmp a.1 b.1 <;> simp [hab] at h
  · cases hbc : cmp b.1 c.1 <;> simp [hbc] at k
    · simp [cmp_trans a.1 b.1 c.1 hab hbc]
    · simp [← (cmp_eq_iff b.1 c.1).1 hbc, hab]
  · have e := (cmp_eq_iff a.1 b.1).1 hab
    cases hbc : cmp b.1 c.1 <;> simp [hbc] at k
    · simp [e, hbc]
    · simp [e, hbc, cmp_trans a.2 b.2 c.2 h k]

/-- Pairs lexicographically. -/
instance [Ordered κ] [Ordered μ] : Ordered (κ × μ) :=
  ⟨cmpPair, cmpPair_eq_iff, cmpPair_swap, cmpPair_trans⟩

end Ordered

end RowScope
