import RowScope.Filter.FilterSet
import RowScope.Proofs.Json.Decoding
import RowScope.Proofs.OrderedMap

/-!
# Members of a filter object

A filter set is read from the members of a JSON object (`FilterSet.HasMembers`). Several of them may
spell one filter key: a raw key repeated, or with `[]` behind it, or with blanks around it. They are
inserted in the order of their raw keys and not in that of the text, so of the members that spell a
key the last one with the greatest raw key counts (`FilterSet.ofJson_greatest_spelling`). For the
keys whose last spelling is the greatest (`FilterSet.LastIsGreatest`) the order of the text and that
of the raw keys say the same.
-/

namespace RowScope

open RowScope.Json

/-! ## Members -/

namespace FilterSet

/-- Whether a text is a JSON object with the given members, in the order of the text. -/
def HasMembers (text : String) (members : List (String × FilterValue)) : Prop :=
  ∃ found : List Member, Reading.ofText text = ⟨.object found .closed, false⟩ ∧
    List.Forall₂ (fun m e => m.key.reading = .ok e.1 ∧
      FilterValue.decode (nestingLimit - 1) m.value = .ok e.2) found members

/-- The triples of the members whose raw keys are filter keys, in the order of the members. -/
def triplesOf (members : List (String × FilterValue)) : List FilterTriple :=
  members.filterMap fun e =>
    (FilterKey.ofText? e.1).map fun key => ⟨key.topic, key.condition, e.2⟩

/-- Whether the raw key of a member does not come after that of another one. -/
def rawLE (a b : String × FilterValue) : Bool := Ordered.cmp a.1 b.1 ≠ .gt

/-- The members in the order of their raw keys, those with one raw key in the order in which they
stand. -/
def byRawKey (members : List (String × FilterValue)) : List (String × FilterValue) :=
  members.mergeSort rawLE

/-- The last member that spells a key. -/
def lastMember (key : FilterKey) (members : List (String × FilterValue)) :
    Option (String × FilterValue) :=
  (members.filter fun e => FilterKey.ofText? e.1 = some key).getLast?

/-- Whether no member spells the key with a greater raw key than the last one that spells it. -/
def LastIsGreatest (key : FilterKey) (members : List (String × FilterValue)) : Prop :=
  ∀ last ∈ lastMember key members, ∀ e ∈ members, FilterKey.ofText? e.1 = some key →
    Ordered.cmp e.1 last.1 ≠ .gt

/-! ## Reading the members -/

variable {members others : List (String × FilterValue)} {key : FilterKey} {text : String}

/-- A set is read from the members of an object. -/
theorem ofJson_eq_ok {filters : FilterSet} :
    ofJson text = .ok filters ↔
      ∃ members, HasMembers text members ∧ filters = ofRawEntries members := by
  have hread : ∀ members, decodeText (decodeMap .ok FilterValue.decode) text = .ok members ↔
      HasMembers text members := by
    intro members
    rw [decodeText_eq_ok]
    constructor
    · rintro ⟨hdecode, htrailing⟩
      obtain ⟨found, hdocument, hfound⟩ := decodeMap_eq_ok.1 hdecode
      exact ⟨found, by rw [← hdocument, ← htrailing], hfound⟩
    · rintro ⟨found, hreading, hfound⟩
      rw [hreading]
      exact ⟨decodeMap_eq_ok.2 ⟨found, rfl, hfound⟩, rfl⟩
  rw [ofJson, Traversal.bind_eq_ok]
  simp only [hread, pure, Except.pure, Except.ok.injEq, eq_comm]

/-- Strings under raw keys, written as an object, are its members. -/
theorem hasMembers_text (pairs : List (String × String)) :
    HasMembers (Json.obj (pairs.map fun p => (p.1, .str p.2))).text
      (pairs.map fun p => (p.1, .single p.2)) := by
  refine ⟨_, ofText_text _, ?_⟩
  rw [memberDocuments_eq_map, List.map_map, List.forall₂_map_left_iff, List.forall₂_map_right_iff,
    List.forall₂_same]
  exact fun p _ => ⟨rfl, rfl⟩

/-! ## Inserting the members -/

/-- A filter under a raw key is found under the key that the raw key spells. -/
theorem get?_insertRaw (filters : FilterSet) (e : String × FilterValue) (key : FilterKey) :
    (insertRaw filters e.1 e.2).get? key =
      if FilterKey.ofText? e.1 = some key then some e.2 else filters.get? key := by
  unfold insertRaw
  cases FilterKey.ofText? e.1 with
  | none => rfl
  | some other =>
    show OrderedMap.get? (OrderedMap.insert filters other e.2) key = _
    simp only [OrderedMap.get?_insert, Option.some.injEq, eq_comm]

/-- The triples of some members are inserted as the members are. -/
theorem ofTriples_triplesOf (members : List (String × FilterValue)) :
    ofTriples (triplesOf members) =
      members.foldl (fun filters e => insertRaw filters e.1 e.2) OrderedMap.empty := by
  rw [ofTriples, triplesOf, List.foldl_filterMap]
  congr
  funext filters e
  unfold insertRaw
  cases FilterKey.ofText? e.1 <;> rfl

/-- The last member that spells a key decides what is under it. -/
theorem get?_ofTriples (members : List (String × FilterValue)) (key : FilterKey) :
    (ofTriples (triplesOf members)).get? key = (lastMember key members).map Prod.snd := by
  rw [ofTriples_triplesOf]
  exact OrderedMap.get?_foldl_replace get?_insertRaw members key

/-! ## The order of the raw keys -/

/-- The last member with a raw key. -/
def lastOf (raw : String) (members : List (String × FilterValue)) : Option (String × FilterValue) :=
  (members.filter fun e => e.1 = raw).getLast?

/-- Raw keys that rise in two steps rise. -/
theorem rawLE_trans (a b c : String × FilterValue) (hab : rawLE a b = true)
    (hbc : rawLE b c = true) : rawLE a c = true :=
  decide_eq_true (Ordered.cmp_ne_gt_trans (of_decide_eq_true hab) (of_decide_eq_true hbc))

/-- Of two raw keys one does not come after the other. -/
theorem rawLE_total (a b : String × FilterValue) : (rawLE a b || rawLE b a) = true := by
  simpa [rawLE] using Ordered.cmp_ne_gt_total a.1 b.1

/-- Members with one raw key keep their order when members are put in that of the raw keys. -/
theorem filter_byRawKey (raw : String) (members : List (String × FilterValue)) :
    (byRawKey members).filter (fun e => e.1 = raw) = members.filter fun e => e.1 = raw := by
  have hone : (members.filter fun e => e.1 = raw).Pairwise fun a b => rawLE a b = true := by
    refine List.pairwise_of_forall_mem_list fun a ha b hb => ?_
    have hkeys : a.1 = b.1 := by
      rw [of_decide_eq_true (List.mem_filter.1 ha).2, of_decide_eq_true (List.mem_filter.1 hb).2]
    rw [rawLE, hkeys, Ordered.cmp_self]
    rfl
  have hkept : (members.filter fun e => e.1 = raw).Sublist (byRawKey members) :=
    List.sublist_mergeSort rawLE_trans rawLE_total hone List.filter_sublist
  have hperm : ((byRawKey members).filter fun e => e.1 = raw).Perm
      (members.filter fun e => e.1 = raw) := (List.mergeSort_perm members _).filter _
  -- Nothing else has that raw key, so nothing stands between them.
  have hall := hkept.filter fun e => e.1 = raw
  simp only [List.filter_filter, Bool.and_self] at hall
  exact (hall.eq_of_length hperm.length_eq.symm).symm

/-- Members in the order of their raw keys. -/
theorem pairwise_byRawKey (members : List (String × FilterValue)) :
    (byRawKey members).Pairwise fun a b => Ordered.cmp a.1 b.1 ≠ .gt :=
  (List.pairwise_mergeSort rawLE_trans rawLE_total members).imp of_decide_eq_true

/-- The last member that spells a key comes last. -/
theorem lastMember_eq_some {e : String × FilterValue} :
    lastMember key members = some e ↔
      ∃ front, members.filter (fun e => FilterKey.ofText? e.1 = some key) = front ++ [e] :=
  List.getLast?_eq_some_iff

/-- Of members in the order of their raw keys the last one that spells a key is the greatest. -/
theorem lastIsGreatest_of_pairwise (h : members.Pairwise fun a b => Ordered.cmp a.1 b.1 ≠ .gt)
    (key : FilterKey) : LastIsGreatest key members := by
  intro last hlast e he hspells
  obtain ⟨front, hfront⟩ := lastMember_eq_some.1 hlast
  have hmem : e ∈ members.filter fun e => FilterKey.ofText? e.1 = some key :=
    List.mem_filter.2 ⟨he, decide_eq_true hspells⟩
  have hsorted := h.filter fun e => FilterKey.ofText? e.1 = some key
  rw [hfront] at hmem hsorted
  rcases List.mem_append.1 hmem with hmem | hmem
  · exact (List.pairwise_append.1 hsorted).2.2 e hmem last List.mem_cons_self
  · rw [List.mem_singleton.1 hmem, Ordered.cmp_self]
    decide

/-- The last member that spells a key spells it. -/
theorem spells_of_lastMember {e : String × FilterValue} (h : lastMember key members = some e) :
    e ∈ members ∧ FilterKey.ofText? e.1 = some key := by
  obtain ⟨hmem, hspells⟩ := List.mem_filter.1 (List.mem_of_getLast? h)
  exact ⟨hmem, of_decide_eq_true hspells⟩

/-- The last member that spells a key is the last one with its raw key. -/
theorem lastOf_of_lastMember {e : String × FilterValue} (h : lastMember key members = some e) :
    lastOf e.1 members = some e := by
  obtain ⟨-, hspells⟩ := spells_of_lastMember h
  obtain ⟨front, hfront⟩ := lastMember_eq_some.1 h
  have hone : members.filter (fun f => f.1 = e.1) =
      (members.filter fun f => FilterKey.ofText? f.1 = some key).filter fun f => f.1 = e.1 := by
    rw [List.filter_filter]
    refine List.filter_congr fun f _ => ?_
    by_cases hf : f.1 = e.1 <;> simp [hf, hspells]
  rw [lastOf, hone, hfront, List.filter_append, List.getLast?_append]
  simp

/-- A raw key has a last member if it has any. -/
theorem lastOf_eq_none {raw : String} : lastOf raw members = none ↔ ∀ e ∈ members, e.1 ≠ raw := by
  simp [lastOf]

/-- What is last with a raw key is what the map of the members holds under it. -/
theorem lastOf_eq (raw : String) (members : List (String × FilterValue)) :
    lastOf raw members = ((OrderedMap.ofList members).get? raw).map (Prod.mk raw) := by
  rw [OrderedMap.get?_ofList, lastOf]
  cases h : (members.filter fun e => e.1 = raw).getLast? with
  | none => rfl
  | some e =>
    have hraw : e.1 = raw := of_decide_eq_true (List.mem_filter.1 (List.mem_of_getLast? h)).2
    rw [← hraw]
    rfl

/-- A filter key with a last member in a list has one in every list with the same last members for
the raw keys, and its raw key is no smaller if it is the greatest there. -/
theorem exists_lastMember (hlast : ∀ raw, lastOf raw members = lastOf raw others)
    (hothers : LastIsGreatest key others) {e : String × FilterValue}
    (he : lastMember key members = some e) :
    ∃ last, lastMember key others = some last ∧ Ordered.cmp e.1 last.1 ≠ .gt := by
  obtain ⟨hmem, hspells⟩ := spells_of_lastMember he
  have hoccurs : ∃ f ∈ others, f.1 = e.1 := by
    by_contra hnone
    have hlost : lastOf e.1 others = none :=
      lastOf_eq_none.2 fun f hf hkey => hnone ⟨f, hf, hkey⟩
    exact lastOf_eq_none.1 ((hlast e.1).trans hlost) e hmem rfl
  obtain ⟨f, hf, hkey⟩ := hoccurs
  rw [← hkey] at hspells ⊢
  cases h : lastMember key others with
  | none =>
    have hnone := List.filter_eq_nil_iff.1 (List.getLast?_eq_none_iff.1 h) f hf
    exact absurd (decide_eq_true hspells) hnone
  | some last => exact ⟨last, rfl, hothers last h f hf hspells⟩

/-- A filter key has the same last member in two lists with the same last members for the raw keys
if it is the greatest in both. -/
theorem lastMember_congr (hlast : ∀ raw, lastOf raw members = lastOf raw others)
    (hmembers : LastIsGreatest key members) (hothers : LastIsGreatest key others) :
    lastMember key members = lastMember key others := by
  cases hother : lastMember key others with
  | none =>
    cases h : lastMember key members with
    | none => rfl
    | some e =>
      obtain ⟨last, hsome, -⟩ := exists_lastMember hlast hothers h
      rw [hother] at hsome
      cases hsome
  | some f =>
    obtain ⟨e, he, hfe⟩ := exists_lastMember (fun raw => (hlast raw).symm) hmembers hother
    obtain ⟨_, hf, hef⟩ := exists_lastMember hlast hothers he
    cases hother.symm.trans hf
    -- The two raw keys are the same, so both members are the last with it.
    have hkeys : e.1 = f.1 := Ordered.eq_of_cmp_ne_gt hef hfe
    rw [he, ← lastOf_of_lastMember he, hlast, hkeys, lastOf_of_lastMember hother]

/-- The order of the raw keys keeps the last member of each raw key. -/
theorem lastOf_byRawKey (raw : String) (members : List (String × FilterValue)) :
    lastOf raw (byRawKey members) = lastOf raw members := by
  rw [lastOf, filter_byRawKey, lastOf]

/-- The last member that spells a key stays the last one in the order of the raw keys exactly if it
is the greatest. -/
theorem lastMember_byRawKey_iff :
    lastMember key (byRawKey members) = lastMember key members ↔ LastIsGreatest key members := by
  have hsorted := lastIsGreatest_of_pairwise (pairwise_byRawKey members) key
  constructor
  · intro heq last hlast e he hspells
    have hmem : e ∈ byRawKey members := (List.mergeSort_perm members _).mem_iff.2 he
    exact hsorted last (heq ▸ hlast) e hmem hspells
  · exact lastMember_congr (fun raw => lastOf_byRawKey raw members) hsorted

/-- The set of some members under raw keys is that of their triples in the order of the raw keys. -/
theorem ofRawEntries_eq (members : List (String × FilterValue)) :
    ofRawEntries members = ofTriples (triplesOf (byRawKey members)) := by
  have hraw : ofRawEntries members =
      ofTriples (triplesOf (OrderedMap.ofList members).entries) :=
    (ofTriples_triplesOf _).symm
  have hincreasing : (OrderedMap.ofList members).entries.Pairwise fun a b =>
      Ordered.cmp a.1 b.1 ≠ .gt := by
    refine (OrderedMap.ofList members).increasing.imp fun {a b} hlt => ?_
    rw [hlt]
    decide
  have hlast : ∀ raw, lastOf raw (OrderedMap.ofList members).entries =
      lastOf raw (byRawKey members) := by
    intro raw
    rw [lastOf_byRawKey, lastOf_eq, lastOf_eq, OrderedMap.ofList_entries]
  rw [hraw]
  refine OrderedMap.eq_of_get? fun key => ?_
  rw [get?_ofTriples, get?_ofTriples, lastMember_congr hlast]
  · exact lastIsGreatest_of_pairwise hincreasing key
  · exact lastIsGreatest_of_pairwise (pairwise_byRawKey members) key

/-- A set that is read from a text is that of the triples of its members in the order of their raw
keys. It is that of the triples in the order of the text exactly if for every key the last member
that spells it has the value of the last one in the order of the raw keys, and they are one member
exactly if no other one spells the key with a greater raw key. -/
theorem ofJson_greatest_spelling (text : String) :
    (∀ filters, ofJson text = .ok filters → ∃ members, HasMembers text members) ∧
    ∀ members, HasMembers text members →
      ofJson text = .ok (ofTriples (triplesOf (byRawKey members))) ∧
      (ofJson text = .ok (ofTriples (triplesOf members)) ↔ ∀ key,
        (lastMember key (byRawKey members)).map Prod.snd =
          (lastMember key members).map Prod.snd) ∧
      ∀ key, lastMember key (byRawKey members) = lastMember key members ↔
        LastIsGreatest key members := by
  refine ⟨fun filters h => ?_, fun members hmembers => ?_⟩
  · obtain ⟨members, hmembers, -⟩ := ofJson_eq_ok.1 h
    exact ⟨members, hmembers⟩
  · have hread : ofJson text = .ok (ofTriples (triplesOf (byRawKey members))) :=
      ofJson_eq_ok.2 ⟨members, hmembers, (ofRawEntries_eq members).symm⟩
    refine ⟨hread, ?_, fun key => lastMember_byRawKey_iff⟩
    rw [hread, Except.ok.injEq]
    simp only [← get?_ofTriples]
    exact ⟨fun h key => congrArg (OrderedMap.get? · key) h, OrderedMap.eq_of_get?⟩

/-- Of two spellings of one key in the order of their raw keys the second decides. -/
theorem ofJson_rising_spellings :
    HasMembers "\x7b\"region.in\":\"4\",\"region.in[]\":\"1\"\x7d"
        [("region.in", .single "4"), ("region.in[]", .single "1")] ∧
      ofJson "\x7b\"region.in\":\"4\",\"region.in[]\":\"1\"\x7d" =
        .ok (ofTriples (triplesOf [("region.in", .single "4"), ("region.in[]", .single "1")])) ∧
      ofTriples (triplesOf [("region.in", .single "4"), ("region.in[]", .single "1")]) =
        ofTriples [⟨"region", "in", .single "1"⟩] := by
  have hmembers := hasMembers_text [("region.in", "4"), ("region.in[]", "1")]
  have hsorted : List.Pairwise (fun a b => Ordered.cmp a.1 b.1 ≠ .gt)
      [("region.in", FilterValue.single "4"), ("region.in[]", .single "1")] := by decide
  refine ⟨hmembers, ?_, by decide⟩
  obtain ⟨-, hread, hlast⟩ := (ofJson_greatest_spelling _).2 _ hmembers
  refine hread.2 fun key => ?_
  rw [(hlast key).2 (lastIsGreatest_of_pairwise hsorted key)]

/-- Of two spellings of one key against the order of their raw keys the first decides, and not the
one that stands last in the text. -/
theorem ofJson_falling_spellings :
    HasMembers "\x7b\"region.in[]\":\"1\",\"region.in\":\"4\"\x7d"
        [("region.in[]", .single "1"), ("region.in", .single "4")] ∧
      ofJson "\x7b\"region.in[]\":\"1\",\"region.in\":\"4\"\x7d" =
        .ok (ofTriples [⟨"region", "in", .single "1"⟩]) ∧
      ofJson "\x7b\"region.in[]\":\"1\",\"region.in\":\"4\"\x7d" ≠
        .ok (ofTriples (triplesOf [("region.in[]", .single "1"), ("region.in", .single "4")])) := by
  have hmembers := hasMembers_text [("region.in[]", "1"), ("region.in", "4")]
  have hread : ofJson "\x7b\"region.in[]\":\"1\",\"region.in\":\"4\"\x7d" =
      .ok (ofTriples [⟨"region", "in", .single "1"⟩]) :=
    ofJson_eq_ok.2 ⟨_, hmembers, by decide⟩
  refine ⟨hmembers, hread, ?_⟩
  rw [hread]
  decide

end FilterSet

end RowScope
