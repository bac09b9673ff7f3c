import RowScope.Scope.Fingerprint

/-!
# Framed bytes

The bytes of a text are those of its characters, and a character above `\x02` has no byte up to 2
(`unmarked_iff`). Such bytes are content: parts that begin each with a byte 0 or 1 and go on with
content are told apart in the bytes that hold them one after the other (`framed_inj`). The
hexadecimal digits of bytes give the bytes back (`Digest.hexText_injective`).
-/

namespace RowScope

/-! ## Bytes of texts -/

/-- The bytes of a text are those of its characters. -/
theorem utf8Bytes_eq (s : String) : utf8Bytes s = s.toList.flatMap String.utf8EncodeChar := by
  have hbytes : s.toUTF8 = (s.toList.flatMap String.utf8EncodeChar).toByteArray :=
    String.utf8Encode_toList.symm
  rw [utf8Bytes, hbytes, List.data_toByteArray]

/-- A text is determined by its bytes. -/
theorem utf8Bytes_injective {s t : String} (h : utf8Bytes s = utf8Bytes t) : s = t := by
  rw [utf8Bytes_eq, utf8Bytes_eq] at h
  apply String.toByteArray_inj.1
  rw [← String.utf8Encode_toList, ← String.utf8Encode_toList, List.utf8Encode, List.utf8Encode, h]

/-- A text has none of the bytes that tell parts apart. -/
def Unmarked (s : String) : Prop := ∀ b ∈ utf8Bytes s, 2 < b

instance (s : String) : Decidable (Unmarked s) :=
  List.decidableBAll _ (utf8Bytes s)

/-- The bytes of a character lie above 2 if the character does. -/
theorem two_lt_utf8EncodeChar (c : Char) :
    (∀ b ∈ String.utf8EncodeChar c, 2 < b) ↔ 2 < c.toNat := by
  have above : ∀ n < 256, (2 < UInt8.ofNat n ↔ 2 < n) := by
    intro n h
    simp [UInt8.lt_iff_toNat_lt, Nat.mod_eq_of_lt h]
  have hvalue : c.val.toNat = c.toNat := rfl
  rw [String.utf8EncodeChar, hvalue]
  -- Every byte of a longer code is at least 128.
  split
  · rw [List.forall_mem_singleton, above _ (by omega)]
  · split
    · simp only [List.forall_mem_cons, List.not_mem_nil, false_implies, implies_true, and_true]
      rw [above _ (by omega), above _ (by omega)]
      omega
    · split
      · simp only [List.forall_mem_cons, List.not_mem_nil, false_implies, implies_true, and_true]
        rw [above _ (by omega), above _ (by omega), above _ (by omega)]
        omega
      · simp only [List.forall_mem_cons, List.not_mem_nil, false_implies, implies_true, and_true]
        rw [above _ (by omega), above _ (by omega), above _ (by omega), above _ (by omega)]
        omega

/-- A text is unmarked if all of its characters lie above `\x02`. -/
theorem unmarked_iff {s : String} : Unmarked s ↔ ∀ c ∈ s.toList, 2 < c.toNat := by
  simp only [Unmarked, utf8Bytes_eq, List.mem_flatMap, ← two_lt_utf8EncodeChar]
  constructor
  · exact fun h c hc b hb => h b ⟨c, hc, hb⟩
  · rintro h b ⟨c, hc, hb⟩
    exact h c hc b hb

/-! ## Parts -/

/-- Parts, each of a byte that says what it is and its content, one after the other. -/
def framed (parts : List (UInt8 × List UInt8)) : List UInt8 :=
  parts.flatMap fun part => part.1 :: part.2

theorem framed_cons (part : UInt8 × List UInt8) (parts : List (UInt8 × List UInt8)) :
    framed (part :: parts) = part.1 :: (part.2 ++ framed parts) := rfl

/-- Parts that can be told apart: they begin with a byte below 2 and go on with bytes above. -/
def Framed (parts : List (UInt8 × List UInt8)) : Prop :=
  ∀ part ∈ parts, part.1 < 2 ∧ ∀ b ∈ part.2, 2 < b

/-- Content ends where a byte up to 2 stands. -/
theorem content_inj {xs ys rest more : List UInt8} {a b : UInt8} (hx : ∀ x ∈ xs, 2 < x)
    (hy : ∀ y ∈ ys, 2 < y) (ha : a ≤ 2) (hb : b ≤ 2) (h : xs ++ a :: rest = ys ++ b :: more) :
    xs = ys ∧ a :: rest = b :: more := by
  have hax : ∀ zs : List UInt8, (∀ z ∈ zs, 2 < z) → ∀ c ≤ 2, c ∉ zs :=
    fun zs hz c hc hmem => absurd (hz c hmem) (UInt8.not_lt.2 hc)
  induction xs generalizing ys with
  | nil =>
    cases ys with
    | nil => exact ⟨rfl, h⟩
    | cons y ys =>
      obtain rfl := (List.cons.inj h).1
      exact absurd List.mem_cons_self (hax _ hy a ha)
  | cons x xs ih =>
    cases ys with
    | nil =>
      obtain rfl := (List.cons.inj h).1
      exact absurd List.mem_cons_self (hax _ hx x hb)
    | cons y ys =>
      obtain ⟨hhead, htail⟩ := List.cons.inj h
      obtain ⟨hsame, hrest⟩ := ih (List.forall_mem_cons.1 hx).2 (List.forall_mem_cons.1 hy).2 htail
      exact ⟨by rw [hhead, hsame], hrest⟩

/-- Framed parts are followed by a byte up to 2. -/
theorem framed_head (parts : List (UInt8 × List UInt8)) (h : Framed parts) (rest : List UInt8) :
    ∃ a more, framed parts ++ 2 :: rest = a :: more ∧ a ≤ 2 := by
  cases parts with
  | nil => exact ⟨2, rest, rfl, UInt8.le_refl 2⟩
  | cons part parts =>
    exact ⟨part.1, _, rfl, UInt8.le_of_lt (h part List.mem_cons_self).1⟩

/-- Parts are determined by their bytes up to the byte 2 after them. -/
theorem framed_inj {parts others : List (UInt8 × List UInt8)} {rest more : List UInt8}
    (hparts : Framed parts) (hothers : Framed others)
    (h : framed parts ++ 2 :: rest = framed others ++ 2 :: more) :
    parts = others ∧ rest = more := by
  induction parts generalizing others with
  | nil =>
    cases others with
    | nil => exact ⟨rfl, (List.cons.inj h).2⟩
    | cons other others =>
      have hmark : other.1 = 2 := (List.cons.inj h).1.symm
      exact absurd (hothers other List.mem_cons_self).1 (hmark ▸ UInt8.lt_irrefl 2)
  | cons part parts ih =>
    obtain ⟨hpart, hparts⟩ := List.forall_mem_cons.1 hparts
    cases others with
    | nil =>
      have hmark : part.1 = 2 := (List.cons.inj h).1
      exact absurd hpart.1 (hmark ▸ UInt8.lt_irrefl 2)
    | cons other others =>
      obtain ⟨hother, hothers⟩ := List.forall_mem_cons.1 hothers
      rw [framed_cons, framed_cons, List.cons_append, List.cons_append, List.append_assoc,
        List.append_assoc] at h
      obtain ⟨hkind, hcontent⟩ := List.cons.inj h
      obtain ⟨a, later, ha, hale⟩ := framed_head parts hparts rest
      obtain ⟨b, after, hb, hble⟩ := framed_head others hothers more
      rw [ha, hb] at hcontent
      obtain ⟨hsame, hrest⟩ := content_inj hpart.2 hother.2 hale hble hcontent
      rw [← ha, ← hb] at hrest
      obtain ⟨rfl, hmore⟩ := ih hparts hothers hrest
      exact ⟨congrArg (· :: parts) (Prod.ext hkind hsame), hmore⟩

namespace Digest

/-- Two messages have one digest. -/
def Collision (xs ys : List UInt8) : Prop := xs ≠ ys ∧ sha256 xs = sha256 ys

/-- Bytes are determined by their hexadecimal digits. -/
theorem hexText_injective {xs ys : List UInt8} (h : hexText xs = hexText ys) : xs = ys := by
  have digits : ∀ n < 16, ∀ m < 16, Nat.digitChar n = Nat.digitChar m → n = m := by decide
  replace h := String.ofList_injective h
  induction xs generalizing ys with
  | nil =>
    cases ys with
    | nil => rfl
    | cons y ys => cases h
  | cons x xs ih =>
    cases ys with
    | nil => cases h
    | cons y ys =>
      rw [List.flatMap_cons, List.flatMap_cons] at h
      obtain ⟨hhigh, h⟩ := List.cons.inj h
      obtain ⟨hlow, h⟩ := List.cons.inj h
      have hx := x.toNat_lt
      have hy := y.toNat_lt
      have hdiv := digits _ (by omega) _ (by omega) hhigh
      have hmod := digits _ (Nat.mod_lt _ (by decide)) _ (Nat.mod_lt _ (by decide)) hlow
      have hxy : x = y := UInt8.toNat_inj.1 (by omega)
      rw [hxy, ih h]

end Digest

end RowScope
