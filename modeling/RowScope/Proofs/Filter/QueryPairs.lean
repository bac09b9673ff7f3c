import RowScope.Filter.FilterSet
import RowScope.Proofs.OrderedMap

/-!
# Pairs of a query string

What a set that is read from a query string holds under a key is made of the values of the pairs
that spell the key (`FilterSet.pairsOf`), all of them and in their order: nothing, one value alone,
or the list of them (`FilterSet.grouped`). Whether one value stands alone is decided by the first
spelling of the key. So pairs of other keys and pairs without a key have no say, wherever they stand
(`FilterSet.ofQueryPairs_groups`).
-/

namespace RowScope.FilterSet

/-! ## Pairs of one key -/

/-- The pairs that spell a key, in their order. -/
def pairsOf (key : FilterKey) (pairs : List (String × String)) : List (String × String) :=
  pairs.filter fun p => FilterKey.ofText? p.1 = some key

/-- The pairs that spell a key in two lists one after the other. -/
theorem pairsOf_append (key : FilterKey) (pairs others : List (String × String)) :
    pairsOf key (pairs ++ others) = pairsOf key pairs ++ pairsOf key others :=
  List.filter_append ..

/-- The values of the pairs that spell a key, in their order. -/
def valuesOf (key : FilterKey) (pairs : List (String × String)) : List String :=
  (pairsOf key pairs).map Prod.snd

/-- The first spelling of a key. -/
def firstSpelling? (key : FilterKey) (pairs : List (String × String)) : Option String :=
  (pairsOf key pairs).head?.map Prod.fst

/-- Whether a text ends in a pair of brackets, blanks aside. -/
def EndsInBrackets (raw : String) : Prop := ['[', ']'] <:+ Text.dropBlankEnd raw.toList

instance (raw : String) : Decidable (EndsInBrackets raw) :=
  inferInstanceAs (Decidable (_ <:+ _))

/-- Whether a key has one value that stands alone. -/
def StandsAlone (key : FilterKey) (pairs : List (String × String)) (v : String) : Prop :=
  valuesOf key pairs = [v] ∧ ∀ raw ∈ firstSpelling? key pairs, ¬EndsInBrackets raw

/-- A raw key announces a list if it ends in a pair of brackets. -/
theorem announcesList_iff {raw : String} : announcesList raw = true ↔ EndsInBrackets raw := by
  unfold announcesList EndsInBrackets
  rw [beq_iff_eq, ← List.reverse_prefix, List.prefix_iff_eq_take, eq_comm]
  rfl

/-! ## One pair after the other -/

/-- The value under the key of a pair once the pair has been added. -/
def withPair (pair : String × String) : Option FilterValue → FilterValue
  | some value => value.push pair.2
  | none => if announcesList pair.1 then .many [pair.2] else .single pair.2

/-- A pair changes what is under its key, and nothing if it has none. -/
theorem get?_insertPair (filters : FilterSet) (pair : String × String) (key : FilterKey) :
    (insertPair filters pair).get? key =
      if FilterKey.ofText? pair.1 = some key then some (withPair pair (filters.get? key))
      else filters.get? key := by
  unfold insertPair
  cases FilterKey.ofText? pair.1 with
  | none => rfl
  | some other =>
    show OrderedMap.get? (OrderedMap.alter filters other (withPair pair)) key = _
    rw [OrderedMap.alter, OrderedMap.get?_insert]
    by_cases h : key = other
    · rw [if_pos h, if_pos (congrArg some h.symm), h]
    · rw [if_neg h, if_neg fun he => h (Option.some.inj he).symm]

/-- What some pairs of one key leave under it. -/
def grouped : List (String × String) → Option FilterValue
  | [] => none
  | [pair] => some (if announcesList pair.1 then .many [pair.2] else .single pair.2)
  | first :: next :: others => some (.many ((first :: next :: others).map Prod.snd))

/-- Pairs that follow a value of their key are joined with it in a list. -/
theorem foldl_withPair (value : FilterValue) (pair : String × String)
    (pairs : List (String × String)) :
    (pair :: pairs).foldl (fun found p => some (withPair p found)) (some value) =
      some (.many (value.entries ++ (pair :: pairs).map Prod.snd)) := by
  induction pairs generalizing value pair with
  | nil => rfl
  | cons next pairs ih =>
    have hpush : (value.push pair.2).entries = value.entries ++ [pair.2] := rfl
    rw [List.foldl_cons, withPair, ih, hpush, List.append_assoc]
    rfl

/-- What is under a key comes from the pairs that spell it. -/
theorem get?_ofQueryPairs (pairs : List (String × String)) (key : FilterKey) :
    (ofQueryPairs pairs).get? key = grouped (pairsOf key pairs) := by
  have hrun : (ofQueryPairs pairs).get? key =
      (pairsOf key pairs).foldl (fun found p => some (withPair p found)) none :=
    OrderedMap.get?_foldl get?_insertPair pairs OrderedMap.empty key
  rw [hrun]
  match pairsOf key pairs with
  | [] => rfl
  | [first] => rfl
  | first :: next :: others =>
    rw [List.foldl_cons, foldl_withPair, withPair, grouped]
    -- The first value is one text, in a list or alone.
    split <;> rfl

/-! ## Groups -/

/-- Under a key there is nothing, or the one value of the key if it stands alone, or else the list
of its values. -/
theorem get?_ofQueryPairs_iff (pairs : List (String × String)) (key : FilterKey) :
    ((ofQueryPairs pairs).get? key = none ↔ valuesOf key pairs = []) ∧
      (∀ v, (ofQueryPairs pairs).get? key = some (.single v) ↔ StandsAlone key pairs v) ∧
      ∀ vs, (ofQueryPairs pairs).get? key = some (.many vs) ↔
        valuesOf key pairs = vs ∧ vs ≠ [] ∧ ∀ v, ¬StandsAlone key pairs v := by
  rw [get?_ofQueryPairs]
  unfold StandsAlone valuesOf firstSpelling?
  match pairsOf key pairs with
  | [] => simp [grouped, eq_comm]
  | [first] =>
    rw [grouped]
    by_cases h : EndsInBrackets first.1
    · rw [if_pos (announcesList_iff.2 h)]
      simp [h]
    · rw [if_neg fun ha => h (announcesList_iff.1 ha)]
      simp [h]
  | first :: next :: others => simp [grouped]

/-- Sets agree if each key has the same pairs in the same order. -/
theorem ofQueryPairs_congr {pairs others : List (String × String)}
    (h : ∀ key, pairsOf key pairs = pairsOf key others) :
    ofQueryPairs pairs = ofQueryPairs others :=
  OrderedMap.eq_of_get? fun key => by rw [get?_ofQueryPairs, get?_ofQueryPairs, h]

/-- The set of the pairs of a query string holds nothing under a key that no pair spells, one value
if the key has only one and its spelling does not end in brackets, and else the list of all values
of the key in their order. It is the set of any other pairs that spell each key in the same order
with the same values; so pairs that spell different keys can be exchanged, and pairs that spell none
can be added anywhere. -/
theorem ofQueryPairs_groups (pairs : List (String × String)) :
    (∀ key, ((ofQueryPairs pairs).get? key = none ↔ valuesOf key pairs = []) ∧
      (∀ v, (ofQueryPairs pairs).get? key = some (.single v) ↔ StandsAlone key pairs v) ∧
      ∀ vs, (ofQueryPairs pairs).get? key = some (.many vs) ↔
        valuesOf key pairs = vs ∧ vs ≠ [] ∧ ∀ v, ¬StandsAlone key pairs v) ∧
    (∀ others, (∀ key, pairsOf key others = pairsOf key pairs) →
      ofQueryPairs others = ofQueryPairs pairs) ∧
    (∀ before p q after, pairs = before ++ p :: q :: after →
      FilterKey.ofText? p.1 ≠ FilterKey.ofText? q.1 →
      ofQueryPairs (before ++ q :: p :: after) = ofQueryPairs pairs) ∧
    ∀ before added after, pairs = before ++ after →
      (∀ p ∈ added, FilterKey.ofText? p.1 = none) →
      ofQueryPairs (before ++ added ++ after) = ofQueryPairs pairs := by
  refine ⟨get?_ofQueryPairs_iff pairs, fun others => ofQueryPairs_congr, ?_, ?_⟩
  · rintro before p q after rfl hne
    refine ofQueryPairs_congr fun key => ?_
    have hswap : pairsOf key (q :: p :: after) = pairsOf key (p :: q :: after) := by
      -- At most one of the two spells the key.
      by_cases hp : FilterKey.ofText? p.1 = some key
      · have hq : FilterKey.ofText? q.1 ≠ some key := fun hq => hne (hp.trans hq.symm)
        simp [pairsOf, hp, hq]
      · simp [pairsOf, List.filter_cons, hp]
    rw [pairsOf_append, hswap, pairsOf_append]
  · rintro before added after rfl hnone
    refine ofQueryPairs_congr fun key => ?_
    have hadded : pairsOf key added = [] :=
      List.filter_eq_nil_iff.2 fun p hp => by simp [hnone p hp]
    rw [pairsOf_append, pairsOf_append, hadded, List.append_nil, pairsOf_append]

/-- Two values of one key around one of another key. -/
def regionPairs : List (String × String) :=
  [("region.in[]", "1"), ("goalName.ctn", "pig"), (" region.in", "4")]

/-- The two values are in one list and the other one stands alone. The pair between them may as well
stand in front, and a pair without a key may be added. -/
theorem ofQueryPairs_regionPairs :
    (ofQueryPairs regionPairs).get? ⟨"region", "in"⟩ = some (.many ["1", "4"]) ∧
      (ofQueryPairs regionPairs).get? ⟨"goalName", "ctn"⟩ = some (.single "pig") ∧
      ofQueryPairs [("goalName.ctn", "pig"), ("region.in[]", "1"), (" region.in", "4")] =
        ofQueryPairs regionPairs ∧
      ofQueryPairs [("region.in[]", "1"), ("goalName.ctn", "pig"), ("bogus", "x"),
          (" region.in", "4")] = ofQueryPairs regionPairs := by
  obtain ⟨hgroups, -, hswap, hadd⟩ := ofQueryPairs_groups regionPairs
  refine ⟨?_, ?_, ?_, ?_⟩
  · have hvalues : valuesOf ⟨"region", "in"⟩ regionPairs = ["1", "4"] := by decide
    refine (hgroups _).2.2 _ |>.2 ⟨hvalues, by decide, fun v halone => ?_⟩
    rw [StandsAlone, hvalues] at halone
    simp at halone
  · exact ((hgroups _).2.1 "pig").2 ⟨by decide, by decide⟩
  · exact hswap [] _ _ _ rfl (by decide)
  · exact hadd [_, _] [("bogus", "x")] _ rfl (by decide)

end RowScope.FilterSet
