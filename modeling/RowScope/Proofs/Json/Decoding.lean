import RowScope.Proofs.Json.Reading
import RowScope.Proofs.Traversal

/-!
# Decoding what was written

A decoder takes a written value for `a` (`Json.Decodes`) if it gives `a` wherever it may open as
many arrays and objects as the value nests (`Json.depth`). Each way to build a decoder has a lemma
that says which values it takes; for a record that is how its members fill its state one after the
other (`Json.Fills`). A text of such a value is then decoded as a whole (`Json.decodeText_text`).
Of any other text it is said what it must hold to be decoded at all (`Json.decodeMap_eq_ok`).
-/

namespace RowScope

namespace Json

/-! ## Nesting -/

mutual

/-- The number of arrays and objects that a value nests. -/
def depth : Json → Nat
  | .null | .bool _ | .int _ | .str _ => 0
  | .arr items => itemsDepth items + 1
  | .obj members => membersDepth members + 1

/-- The number of arrays and objects that some items nest. -/
def itemsDepth : List Json → Nat
  | [] => 0
  | item :: items => max item.depth (itemsDepth items)

/-- The number of arrays and objects that some members nest. -/
def membersDepth : List (String × Json) → Nat
  | [] => 0
  | (_, value) :: members => max value.depth (membersDepth members)

end

/-- Items nest no deeper than each of them. -/
theorem itemsDepth_le_iff {items : List Json} {n : Nat} :
    itemsDepth items ≤ n ↔ ∀ item ∈ items, item.depth ≤ n := by
  induction items with
  | nil => simp [itemsDepth]
  | cons item items ih => rw [itemsDepth, Nat.max_le, ih, List.forall_mem_cons]

/-- Members nest no deeper than each of their values. -/
theorem membersDepth_le_iff {members : List (String × Json)} {n : Nat} :
    membersDepth members ≤ n ↔ ∀ member ∈ members, member.2.depth ≤ n := by
  induction members with
  | nil => simp [membersDepth]
  | cons member members ih => rw [membersDepth, Nat.max_le, ih, List.forall_mem_cons]

/-- An item nests less than its array. -/
theorem depth_lt_arr {items : List Json} {item : Json} (h : item ∈ items) :
    item.depth < (arr items).depth :=
  Nat.lt_succ_of_le (itemsDepth_le_iff.1 (Nat.le_refl _) item h)

/-- A value nests less than the object that it is a member of. -/
theorem depth_lt_obj {members : List (String × Json)} (name : String) {value : Json}
    (h : (name, value) ∈ members) : value.depth < (obj members).depth :=
  Nat.lt_succ_of_le (membersDepth_le_iff.1 (Nat.le_refl _) _ h)

/-- An object nests one level more than its members. -/
theorem depth_obj (members : List (String × Json)) :
    (obj members).depth = membersDepth members + 1 := rfl

/-- An object with one member nests one level more than the member. -/
theorem depth_tagged (name : String) (j : Json) : (tagged name j).depth = j.depth + 1 := by
  rw [tagged, depth_obj, membersDepth, membersDepth, Nat.max_zero]

/-- A string nests nothing. -/
theorem depth_str (s : String) : (str s).depth = 0 := rfl

/-- An array nests one level more than its items. -/
theorem depth_arr_map_le {α : Type} {write : α → Json} {as : List α} {n : Nat}
    (h : ∀ a ∈ as, (write a).depth ≤ n) : (arr (as.map write)).depth ≤ n + 1 :=
  Nat.succ_le_succ (itemsDepth_le_iff.2 (List.forall_mem_map.2 h))

/-- An array of strings nests nothing else. -/
theorem depth_strings_le (texts : List String) : (strings texts).depth ≤ 1 :=
  depth_arr_map_le fun s _ => Nat.le_of_eq (depth_str s)

/-! ## Decoders -/

variable {α β σ : Type}

/-- Whether a decoder takes a written value for `a`. -/
def Decodes (decode : Decoder α) (j : Json) (a : α) : Prop :=
  ∀ depth, j.depth ≤ depth → decode depth j.document = .ok a

/-- An array is decoded if it is wherever one array more may be opened than its items nest. -/
theorem decodes_of_arr {decode : Decoder α} {items : List Json} {a : α}
    (h : ∀ depth, itemsDepth items ≤ depth →
      decode (depth + 1) (.array (itemDocuments items) .closed) = .ok a) :
    Decodes decode (.arr items) a := by
  intro depth hdepth
  obtain ⟨depth, rfl⟩ := Nat.exists_eq_add_one.2 (Nat.lt_of_lt_of_le (Nat.succ_pos _) hdepth)
  exact h depth (Nat.le_of_succ_le_succ hdepth)

/-- An object is decoded if it is wherever one object more may be opened than its members nest. -/
theorem decodes_of_obj {decode : Decoder α} {members : List (String × Json)} {a : α}
    (h : ∀ depth, membersDepth members ≤ depth →
      decode (depth + 1) (.object (memberDocuments members) .closed) = .ok a) :
    Decodes decode (.obj members) a := by
  intro depth hdepth
  obtain ⟨depth, rfl⟩ := Nat.exists_eq_add_one.2 (Nat.lt_of_lt_of_le (Nat.succ_pos _) hdepth)
  exact h depth (Nat.le_of_succ_le_succ hdepth)

/-- The text of a value that nests no deeper than a text may is decoded as a whole. -/
theorem decodeText_text {decode : Decoder α} {j : Json} {a : α} (h : Decodes decode j a)
    (hdepth : j.depth ≤ nestingLimit) : decodeText decode j.text = .ok a := by
  rw [decodeText, ofText_text]
  simp only [h nestingLimit hdepth]
  rfl

/-- A string is decoded. -/
theorem decodes_string (s : String) : Decodes decodeString (.str s) s := fun _ _ => rfl

/-- A truth value is decoded. -/
theorem decodes_bool (b : Bool) : Decodes decodeBool (.bool b) b := fun _ _ => rfl

/-- The number of a literal is what one reads there. -/
theorem reading_finishedNumber {l : Literal} {m : Number} (h : l.number? = some m) :
    (finishedNumber l []).1.reading = .ok m := by
  rw [finishedNumber, h]

/-- The text of an integer of 64 bits is read as an integer. -/
theorem exists_reading_integer {i : Int} (hlow : Int64.minValue.toInt ≤ i)
    (hhigh : i ≤ Int64.maxValue.toInt) :
    ∃ m, (integer i).reading = .ok m ∧ m.int64? = RowScope.Number.int64? i := by
  have hmin : Int64.minValue.toInt = -9223372036854775808 := by decide
  have hmax : Int64.maxValue.toInt = 9223372036854775807 := by decide
  have hgreatest : greatestNatural = 18446744073709551615 := by decide
  cases i with
  | ofNat k =>
    refine ⟨.natural k, reading_finishedNumber ?_, rfl⟩
    have hk : ¬greatestNatural < k := by
      have hcast : (k : Int) ≤ Int64.maxValue.toInt := hhigh
      omega
    simp [Literal.number?, RowScope.Number.digitsValue_natText, hk]
  | negSucc k =>
    refine ⟨.negative k, reading_finishedNumber ?_, rfl⟩
    have hk : ¬greatestNatural < k + 1 ∧ ¬Nat.pow 2 63 < k + 1 := by
      have hpow : Nat.pow 2 63 = 9223372036854775808 := by decide
      omega
    simp [Literal.number?, RowScope.Number.digitsValue_natText, hk]

/-- An integer of 64 bits is decoded. -/
theorem decodes_int64 (n : Int64) : Decodes decodeInt64 (.int64 n) n := by
  intro depth _
  have hlow := Int64.minValue_le_toInt n
  have hhigh := Int64.toInt_le n
  have hfit : RowScope.Number.int64? n.toInt = some n := by
    rw [RowScope.Number.int64?, if_pos ⟨hlow, hhigh⟩, Int64.ofInt_toInt]
  obtain ⟨m, hreading, hm⟩ := exists_reading_integer hlow hhigh
  rw [hfit] at hm
  rw [Json.int64, document, decodeInt64, hreading]
  refine Traversal.bind_eq_ok.2 ⟨m, rfl, ?_⟩
  rw [hm]
  rfl

/-- The documents of some items, item by item. -/
theorem itemDocuments_eq_map (items : List Json) : itemDocuments items = items.map document := by
  induction items with
  | nil => rfl
  | cons item items ih => rw [itemDocuments, ih, List.map_cons]

/-- The documents of some members, member by member. -/
theorem memberDocuments_eq_map (members : List (String × Json)) :
    memberDocuments members =
      members.map fun member => ⟨⟨.ok member.1, none⟩, member.2.document⟩ := by
  induction members with
  | nil => rfl
  | cons member members ih => rw [memberDocuments, ih, List.map_cons]

/-- An array is decoded item by item. -/
theorem decodes_list {decode : Decoder α} {write : α → Json} {as : List α}
    (h : ∀ a ∈ as, Decodes decode (write a) a) :
    Decodes (decodeList decode) (.arr (as.map write)) as := by
  refine decodes_of_arr fun depth hdepth => ?_
  have hitems : ∀ a ∈ as, decode depth (write a).document = .ok (id a) := fun a ha =>
    h a ha depth (itemsDepth_le_iff.1 hdepth _ (List.mem_map_of_mem ha))
  have hmap : (itemDocuments (as.map write)).mapM (decode depth) = .ok as := by
    rw [itemDocuments_eq_map, List.map_map, List.mapM_map]
    exact (Traversal.mapM_eq_ok hitems).trans (by rw [List.map_id])
  rw [decodeList, hmap]
  rfl

/-- An object is decoded member by member. -/
theorem decodes_map {readKey : String → Except Fault β} {decode : Decoder α} {name : β → String}
    {write : α → Json} (entries : List (β × α))
    (hkey : ∀ e ∈ entries, readKey (name e.1) = .ok e.1)
    (hvalue : ∀ e ∈ entries, Decodes decode (write e.2) e.2) :
    Decodes (decodeMap readKey decode) (.obj (entries.map fun e => (name e.1, write e.2)))
      entries := by
  refine decodes_of_obj fun depth hdepth => ?_
  have hmembers : ∀ e ∈ entries, (do
      let k ← readKey (name e.1)
      return (k, ← decode depth (write e.2).document)) = Except.ok (ε := Fault) (id e) := by
    intro e he
    have hdeep : (write e.2).depth ≤ depth :=
      membersDepth_le_iff.1 hdepth _ (List.mem_map_of_mem he)
    rw [hkey e he, hvalue e he depth hdeep]
    rfl
  have hmap := Traversal.mapM_eq_ok hmembers
  rw [List.map_id] at hmap
  rw [decodeMap, memberDocuments_eq_map, List.map_map, List.mapM_map]
  exact Traversal.bind_eq_ok.2 ⟨entries, hmap, rfl⟩

/-! ## Alternatives -/

/-- An alternative without data is decoded from its name. -/
theorem decodes_plain {alternatives : List (Alternative α)} {name : String} {a : α}
    (h : findAlternative alternatives name = .ok (.plain name a)) :
    Decodes (decodeAlternative alternatives) (.str name) a := by
  intro depth _
  show (findAlternative alternatives name >>= fun alternative => required alternative.bare) = _
  rw [h]
  rfl

/-- An alternative with data is decoded from the value under its name. -/
theorem decodes_carrying {alternatives : List (Alternative α)} {name : String}
    {content : Decoder α} {j : Json} {a : α}
    (h : findAlternative alternatives name = .ok (.carrying name content))
    (hcontent : Decodes content j a) :
    Decodes (decodeAlternative alternatives) (.tagged name j) a := by
  refine decodes_of_obj fun depth hdepth => ?_
  have hdeep : j.depth ≤ depth := membersDepth_le_iff.1 hdepth _ List.mem_cons_self
  rw [memberDocuments, memberDocuments, decodeAlternative]
  exact Traversal.bind_eq_ok.2 ⟨name, rfl, Traversal.bind_eq_ok.2
    ⟨_, h, Traversal.bind_eq_ok.2 ⟨a, hcontent depth hdeep, rfl⟩⟩⟩

/-! ## Records -/

/-- Whether some members, in the order of some fields, turn one state into another. -/
inductive Fills : List (Field σ) → List (String × Json) → σ → σ → Prop
  /-- Without members the state stays. -/
  | nil (s : σ) : Fills [] [] s s
  /-- A member fills a slot that has been empty. -/
  | cons {τ : Type} {name : String} {get : σ → Option τ} {set : τ → σ → σ} {decode : Decoder τ}
    {j : Json} {v : τ} {fields : List (Field σ)} {members : List (String × Json)} {s t : σ}
    (hempty : get s = none) (hvalue : Decodes decode j v)
    (hrest : Fills fields members (set v s) t) :
    Fills (.slot name get set decode :: fields) ((name, j) :: members) s t

/-- A field is found by its name if no field before it has that name. -/
theorem find?_field {before fields : List (Field σ)} {field : Field σ}
    (h : ((before ++ field :: fields).map Field.name).Nodup) :
    (before ++ field :: fields).find? (fun other => other.name == field.name) = some field := by
  rw [List.map_append, List.map_cons, List.nodup_append] at h
  have hbefore : before.find? (fun other => other.name == field.name) = none := by
    rw [List.find?_eq_none]
    intro other hother hname
    exact h.2.2 _ (List.mem_map_of_mem hother) _ List.mem_cons_self (beq_iff_eq.1 hname)
  rw [List.find?_append, hbefore, Option.none_or]
  exact List.find?_cons_of_pos (beq_self_eq_true field.name)

/-- Members that fill a state are read into it, whichever fields come before theirs. -/
theorem readMembersInto_of_fills {fields : List (Field σ)} {members : List (String × Json)}
    {s t : σ} (h : Fills fields members s t) : ∀ (before : List (Field σ)) (depth : Nat),
    ((before ++ fields).map Field.name).Nodup → membersDepth members ≤ depth →
    readMembersInto (before ++ fields) depth (memberDocuments members) s = .ok t := by
  induction h with
  | nil s => exact fun _ _ _ _ => rfl
  | @cons τ name get set decode j v fields members s t hempty hvalue _ ih =>
    intro before depth hnames hdepth
    have hdeep : j.depth ≤ depth ∧ membersDepth members ≤ depth := Nat.max_le.1 hdepth
    have hrest := ih (before ++ [.slot name get set decode]) depth
      (by rwa [List.append_assoc, List.singleton_append]) hdeep.2
    rw [List.append_assoc, List.singleton_append] at hrest
    have hfind : (before ++ .slot name get set decode :: fields).find?
        (fun field => field.name == name) = some (.slot name get set decode) := find?_field hnames
    have hunread : (Field.slot name get set decode).isRead s = false := by
      show (get s).isSome = false
      rw [hempty]
      rfl
    have hread : (Field.slot name get set decode).read depth j.document s = .ok (set v s) :=
      Traversal.bind_eq_ok.2 ⟨v, hvalue depth hdeep.1, rfl⟩
    rw [memberDocuments, readMembersInto]
    refine Traversal.bind_eq_ok.2 ⟨name, rfl, ?_⟩
    simp only [hfind, hunread, hread]
    exact hrest

/-- A record is decoded from the members that fill it. -/
theorem decodes_record {fields : List (Field σ)} {short : Bool} {start s : σ}
    {finish : σ → Except Fault α} {members : List (String × Json)} {a : α}
    (hnames : (fields.map Field.name).Nodup) (hfills : Fills fields members start s)
    (hfinish : finish s = .ok a) :
    Decodes (decodeRecord fields short start finish) (.obj members) a := by
  refine decodes_of_obj fun depth hdepth => ?_
  have hread := readMembersInto_of_fills hfills [] depth hnames hdepth
  rw [List.nil_append] at hread
  rw [decodeRecord, hread]
  exact hfinish

/-! ## Any text -/

/-- A text is decoded if its document is and nothing follows it. -/
theorem decodeText_eq_ok {decode : Decoder α} {text : String} {a : α} :
    decodeText decode text = .ok a ↔
      decode nestingLimit (Reading.ofText text).document = .ok a ∧
        (Reading.ofText text).trailing = false := by
  rw [decodeText, Traversal.bind_eq_ok]
  cases (Reading.ofText text).trailing <;> simp

/-- A document is decoded as a map by names if it is a closed object with members that are. -/
theorem decodeMap_eq_ok {decode : Decoder α} {depth : Nat} {document : Document}
    {entries : List (String × α)} :
    decodeMap .ok decode (depth + 1) document = .ok entries ↔
      ∃ found, document = .object found .closed ∧
        List.Forall₂ (fun m e => m.key.reading = .ok e.1 ∧ decode depth m.value = .ok e.2)
          found entries := by
  have hmember : ∀ (m : Member) (e : String × α), (do
        let k ← Except.ok (ε := Fault) (← m.key.reading)
        return (k, ← decode depth m.value)) = .ok e ↔
      m.key.reading = .ok e.1 ∧ decode depth m.value = .ok e.2 := by
    intro m e
    simp only [Traversal.bind_eq_ok]
    constructor
    · rintro ⟨k, hk, _, ⟨⟩, v, hv, ⟨⟩⟩
      exact ⟨hk, hv⟩
    · rintro ⟨hk, hv⟩
      exact ⟨e.1, hk, e.1, rfl, e.2, hv, rfl⟩
  constructor
  · intro h
    cases document with
    | object found ending =>
      obtain ⟨_, hfound, h⟩ := Traversal.bind_eq_ok.1 h
      obtain ⟨_, hending, ⟨⟩⟩ := Traversal.bind_eq_ok.1 h
      simp only [Traversal.mapM_eq_ok_iff, hmember] at hfound
      cases ending with
      | closed => exact ⟨found, rfl, hfound⟩
      | broken next last => cases hending
    | _ => cases h
  · rintro ⟨found, rfl, hfound⟩
    refine Traversal.bind_eq_ok.2 ⟨entries, ?_, rfl⟩
    simpa only [Traversal.mapM_eq_ok_iff, hmember] using hfound

end Json

end RowScope
