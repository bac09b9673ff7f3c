import Mathlib.Data.List.DropRight
import RowScope.Text.Blank

/-!
# Trimmed texts

A character that is not blank shields what stands behind it from trimming at the front, and what
stands before it from trimming at the end (`trimChars_append_cons`). So the two ends are trimmed
independently of each other (`dropBlank_dropBlankEnd`), and trimming again changes nothing: the
trimmed texts are those without blanks at their ends (`trimChars_eq_self_iff`).
-/

namespace RowScope.Text

variable {a b cs : List Char} {c : Char}

/-- Leading blanks are sought no further than to a character that is not blank. -/
theorem dropBlank_append_cons (h : isBlank c = false) :
    dropBlank (a ++ c :: b) = dropBlank a ++ c :: b := by
  unfold dropBlank
  induction a with
  | nil => simp [h]
  | cons d a ih =>
    rw [List.cons_append, List.dropWhile_cons, List.dropWhile_cons, ih]
    split <;> rfl

/-- Trailing blanks are sought no further than to a character that is not blank. -/
theorem dropBlankEnd_append_cons (h : isBlank c = false) :
    dropBlankEnd (a ++ c :: b) = a ++ c :: dropBlankEnd b := by
  have hreverse := dropBlank_append_cons (a := b.reverse) (b := a.reverse) h
  unfold dropBlank at hreverse
  unfold dropBlankEnd
  rw [List.reverse_append, List.reverse_cons, List.append_assoc, List.singleton_append, hreverse]
  simp

/-- Around a character that is not blank a text is trimmed at either end. -/
theorem trimChars_append_cons (h : isBlank c = false) :
    trimChars (a ++ c :: b) = dropBlank a ++ c :: dropBlankEnd b := by
  rw [trimChars, dropBlank_append_cons h, dropBlankEnd_append_cons h]

/-- The ends of a text may be trimmed in either order. -/
theorem dropBlank_dropBlankEnd (cs : List Char) :
    dropBlank (dropBlankEnd cs) = dropBlankEnd (dropBlank cs) := by
  by_cases hall : ∀ c ∈ cs, isBlank c = true
  · -- A blank text is trimmed to nothing at either end.
    have hfront : dropBlank cs = [] := List.dropWhile_eq_nil_iff.2 hall
    have hend : dropBlankEnd cs = [] := List.rdropWhile_eq_nil_iff.2 hall
    rw [hfront, hend]
    rfl
  · obtain ⟨c, hc, hblank⟩ : ∃ c ∈ cs, isBlank c = false := by simpa using hall
    obtain ⟨a, b, rfl⟩ := List.append_of_mem hc
    rw [dropBlankEnd_append_cons hblank, dropBlank_append_cons hblank,
      dropBlank_append_cons hblank, dropBlankEnd_append_cons hblank]

/-- Leading blanks do not count for the trimmed text. -/
theorem trimChars_dropBlank (cs : List Char) : trimChars (dropBlank cs) = trimChars cs :=
  congrArg dropBlankEnd (List.dropWhile_idempotent isBlank cs)

/-- Trailing blanks do not count for the trimmed text. -/
theorem trimChars_dropBlankEnd (cs : List Char) : trimChars (dropBlankEnd cs) = trimChars cs := by
  rw [trimChars, dropBlank_dropBlankEnd]
  exact List.rdropWhile_idempotent isBlank (dropBlank cs)

/-- A trimmed text has nothing to be trimmed. -/
theorem trimChars_trimChars (cs : List Char) : trimChars (trimChars cs) = trimChars cs := by
  calc trimChars (trimChars cs)
      = trimChars (dropBlank cs) := trimChars_dropBlankEnd (dropBlank cs)
    _ = trimChars cs := trimChars_dropBlank cs

/-- Blanks around a text do not count for the trimmed text. -/
theorem trimChars_margins (hfront : ∀ d ∈ a, isBlank d = true) (hback : ∀ d ∈ b, isBlank d = true) :
    trimChars (a ++ cs ++ b) = trimChars cs := by
  have hbackwards : ∀ d ∈ b.reverse, isBlank d = true := fun d hd => hback d (List.mem_reverse.1 hd)
  have hend : dropBlankEnd (cs ++ b) = dropBlankEnd cs := by
    rw [dropBlankEnd, List.reverse_append, List.dropWhile_append_of_pos hbackwards, dropBlankEnd]
  calc trimChars (a ++ cs ++ b)
      = trimChars (dropBlank (a ++ (cs ++ b))) := by rw [trimChars_dropBlank, List.append_assoc]
    _ = trimChars (cs ++ b) := by
      rw [dropBlank, List.dropWhile_append_of_pos hfront, ← dropBlank, trimChars_dropBlank]
    _ = trimChars (dropBlankEnd cs) := by rw [← trimChars_dropBlankEnd, hend]
    _ = trimChars cs := trimChars_dropBlankEnd cs

/-- Trimming leaves the characters that are not blank. -/
theorem mem_trimChars (h : isBlank c = false) : c ∈ trimChars cs ↔ c ∈ cs := by
  constructor
  · intro hc
    exact (List.dropWhile_suffix isBlank).subset ((List.rdropWhile_prefix isBlank _).subset hc)
  · intro hc
    obtain ⟨a, b, rfl⟩ := List.append_of_mem hc
    rw [trimChars_append_cons h]
    exact List.mem_append_right _ List.mem_cons_self

/-- The trimmed text read backwards. -/
theorem trimChars_reverse (cs : List Char) : trimChars cs.reverse = (trimChars cs).reverse := by
  have hend : dropBlankEnd (dropBlankEnd cs).reverse = (dropBlank (dropBlankEnd cs)).reverse := by
    rw [dropBlankEnd, List.reverse_reverse, dropBlank]
  have hfront : dropBlank cs.reverse = (dropBlankEnd cs).reverse := by
    rw [dropBlankEnd, List.reverse_reverse, dropBlank]
  calc trimChars cs.reverse
      = dropBlankEnd (dropBlankEnd cs).reverse := congrArg dropBlankEnd hfront
    _ = (dropBlank (dropBlankEnd cs)).reverse := hend
    _ = (trimChars cs).reverse := congrArg List.reverse (dropBlank_dropBlankEnd cs)

/-! ## Ends that are not blank -/

/-- No blank stands at either end of a text. -/
def BareEnds (cs : List Char) : Prop :=
  (∀ c ∈ cs.head?, isBlank c = false) ∧ ∀ c ∈ cs.getLast?, isBlank c = false

/-- Without blanks there are none at the ends. -/
theorem bareEnds_of_forall (h : ∀ c ∈ cs, isBlank c = false) : BareEnds cs :=
  ⟨fun c hc => h c (List.mem_of_mem_head? hc), fun c hc => h c (List.mem_of_mem_getLast? hc)⟩

/-- After the leading blanks no blank comes first. -/
theorem isBlank_head_dropBlank (h : c ∈ (dropBlank cs).head?) : isBlank c = false := by
  have hnot := List.head?_dropWhile_not isBlank cs
  rw [← dropBlank, Option.mem_def.1 h] at hnot
  exact hnot

/-- A trimmed text has no blanks at its ends. -/
theorem bareEnds_trimChars (cs : List Char) : BareEnds (trimChars cs) := by
  constructor
  · intro c hc
    rw [trimChars, ← dropBlank_dropBlankEnd] at hc
    exact isBlank_head_dropBlank hc
  · intro c hc
    rw [← List.head?_reverse, ← trimChars_reverse, trimChars, ← dropBlank_dropBlankEnd] at hc
    exact isBlank_head_dropBlank hc

/-- The texts that trimming leaves as they are. -/
theorem trimChars_eq_self_iff : trimChars cs = cs ↔ BareEnds cs := by
  refine ⟨fun h => h ▸ bareEnds_trimChars cs, fun ⟨hhead, hlast⟩ => ?_⟩
  have hfront : ∀ cs : List Char, (∀ c ∈ cs.head?, isBlank c = false) → dropBlank cs = cs := by
    intro cs h
    cases cs with
    | nil => rfl
    | cons c cs => exact List.dropWhile_cons_of_neg (by simpa using h)
  have hend : dropBlankEnd cs = cs := by
    have hreverse := hfront cs.reverse (by rwa [List.head?_reverse])
    rw [dropBlankEnd, ← dropBlank, hreverse, List.reverse_reverse]
  rw [trimChars, hfront cs hhead, hend]

instance (cs : List Char) : Decidable (BareEnds cs) :=
  decidable_of_iff (trimChars cs = cs) trimChars_eq_self_iff

/-- A text is left as it is by trimming if no blank stands at its ends. -/
theorem trim_eq_self_iff {s : String} : trim s = s ↔ BareEnds s.toList := by
  rw [← trimChars_eq_self_iff, ← String.toList_inj, trim, String.toList_ofList]

/-- A text is the trimmed one with blanks around it. -/
theorem exists_margins (cs : List Char) : ∃ front back, cs = front ++ trimChars cs ++ back ∧
    (∀ c ∈ front, isBlank c = true) ∧ ∀ c ∈ back, isBlank c = true := by
  refine ⟨cs.takeWhile isBlank, ((dropBlank cs).reverse.takeWhile isBlank).reverse, ?_, ?_, ?_⟩
  · rw [List.append_assoc, trimChars, dropBlankEnd, ← List.reverse_append,
      List.takeWhile_append_dropWhile, List.reverse_reverse]
    exact List.takeWhile_append_dropWhile.symm
  · exact fun c hc => List.mem_takeWhile_imp hc
  · exact fun c hc => List.mem_takeWhile_imp (List.mem_reverse.1 hc)

end RowScope.Text
