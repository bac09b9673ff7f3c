import RowScope.Ordered

/-!
# Maps and sets in key order

`OrderedMap κ α` is a finite map kept as the list of its entries in strictly increasing key order,
so two maps with the same look-ups are the same map. `OrderedSet κ` holds keys alone.
-/

namespace RowScope

variable {κ α β : Type}

/-- Entries whose keys strictly increase. -/
def KeysIncrease [Ordered κ] (entries : List (κ × α)) : Prop :=
  entries.Pairwise fun a b => Ordered.cmp a.1 b.1 = .lt

/-- A finite map, listed in key order. -/
structure OrderedMap (κ α : Type) [Ordered κ] where
  /-- The entries in key order. -/
  entries : List (κ × α)
  /-- Each key stands once, before every greater key. -/
  increasing : KeysIncrease entries

namespace OrderedMap

variable [Ordered κ]

instance [DecidableEq κ] [DecidableEq α] : DecidableEq (OrderedMap κ α) := fun a b =>
  if h : a.entries = b.entries then
    .isTrue (by cases a; cases b; cases h; rfl)
  else
    .isFalse fun e => h (e ▸ rfl)

/-- The map without entries. -/
def empty : OrderedMap κ α := ⟨[], List.Pairwise.nil⟩

instance : Inhabited (OrderedMap κ α) := ⟨empty⟩

/-! ## Look-up -/

/-- The value of the first entry with the key. -/
def find? (key : κ) : List (κ × α) → Option α
  | [] => none
  | (k, v) :: rest => if Ordered.cmp key k = .eq then some v else find? key rest

/-- The value held under a key. -/
def get? (m : OrderedMap κ α) (key : κ) : Option α := find? key m.entries

/-- Whether a key is present. -/
def contains (m : OrderedMap κ α) (key : κ) : Bool := (m.get? key).isSome

/-- The keys in order. -/
def keys (m : OrderedMap κ α) : List κ := m.entries.map (·.1)

/-- The number of keys. -/
def size (m : OrderedMap κ α) : Nat := m.entries.length

/-- Whether no key is present. -/
def isEmpty (m : OrderedMap κ α) : Bool := m.entries.isEmpty

/-! ## Insertion -/

/-- Puts an entry in its place, in the stead of one with the same key. -/
def put (key : κ) (value : α) : List (κ × α) → List (κ × α)
  | [] => [(key, value)]
  | (k, v) :: rest =>
    match Ordered.cmp key k with
    | .lt => (key, value) :: (k, v) :: rest
    | .eq => (key, value) :: rest
    | .gt => (k, v) :: put key value rest

/-- Every entry after `put` is the new one or was there before. -/
theorem mem_put {key : κ} {value : α} {entries : List (κ × α)} {e : κ × α}
    (h : e ∈ put key value entries) : e = (key, value) ∨ e ∈ entries := by
  induction entries with
  | nil => simpa [put] using h
  | cons head rest ih =>
    obtain ⟨k, v⟩ := head
    cases c : Ordered.cmp key k <;> simp [put, c] at h ⊢ <;> grind

/-- `put` keeps the key order. -/
theorem put_increasing (key : κ) (value : α) {entries : List (κ × α)}
    (h : KeysIncrease entries) : KeysIncrease (put key value entries) := by
  induction entries with
  | nil => simp [put, KeysIncrease]
  | cons head rest ih =>
    obtain ⟨k, v⟩ := head
    obtain ⟨first, others⟩ := List.pairwise_cons.1 h
    cases c : Ordered.cmp key k <;> simp only [put, c]
    · refine List.pairwise_cons.2 ⟨fun e he => ?_, h⟩
      rcases List.mem_cons.1 he with rfl | he
      · exact c
      · exact Ordered.cmp_trans _ _ _ c (first e he)
    · obtain rfl := (Ordered.cmp_eq_iff key k).1 c
      exact List.pairwise_cons.2 ⟨fun e he => first e he, others⟩
    · refine List.pairwise_cons.2 ⟨fun e he => ?_, ih others⟩
      rcases mem_put he with rfl | he
      · exact (Ordered.cmp_gt_iff key k).1 c
      · exact first e he

/-- The map with `value` under `key`, whatever stood there before. -/
def insert (m : OrderedMap κ α) (key : κ) (value : α) : OrderedMap κ α :=
  ⟨put key value m.entries, put_increasing key value m.increasing⟩

/-- The map of some entries; of entries with one key the last counts. -/
def ofList (entries : List (κ × α)) : OrderedMap κ α :=
  entries.foldl (fun m e => m.insert e.1 e.2) empty

/-- The map with the value under `key` replaced by `change` of the value found there. -/
def alter (m : OrderedMap κ α) (key : κ) (change : Option α → α) : OrderedMap κ α :=
  m.insert key (change (m.get? key))

/-- `put` decides what is found under its key. -/
theorem find?_put_self (key : κ) (value : α) (entries : List (κ × α)) :
    find? key (put key value entries) = some value := by
  induction entries with
  | nil => simp [put, find?]
  | cons head rest ih =>
    obtain ⟨k, v⟩ := head
    cases c : Ordered.cmp key k <;> simp [put, c, find?, ih]

/-- `put` leaves what is found under other keys. -/
theorem find?_put_of_ne {key other : κ} (h : other ≠ key) (value : α) (entries : List (κ × α)) :
    find? other (put key value entries) = find? other entries := by
  have hne : Ordered.cmp other key ≠ .eq := fun e => h ((Ordered.cmp_eq_iff _ _).1 e)
  induction entries with
  | nil => simp [put, find?, hne]
  | cons head rest ih =>
    obtain ⟨k, v⟩ := head
    cases c : Ordered.cmp key k
    · simp [put, c, find?, hne]
    · obtain rfl := (Ordered.cmp_eq_iff key k).1 c
      simp [put, find?, hne]
    · simp [put, c, find?, ih]

/-- After an insertion the new value is found under the key and the old ones under all others. -/
theorem get?_insert [DecidableEq κ] (m : OrderedMap κ α) (key other : κ) (value : α) :
    (m.insert key value).get? other = if other = key then some value else m.get? other := by
  split
  · next h => exact h ▸ find?_put_self key value m.entries
  · next h => exact find?_put_of_ne h value m.entries

/-! ## Removal -/

/-- The map without `key`. -/
def erase (m : OrderedMap κ α) (key : κ) : OrderedMap κ α :=
  ⟨m.entries.filter fun e => Ordered.cmp key e.1 != .eq, m.increasing.filter _⟩

end OrderedMap

/-- A finite set of keys, listed in order. -/
abbrev OrderedSet (κ : Type) [Ordered κ] : Type := OrderedMap κ Unit

namespace OrderedSet

variable [Ordered κ]

/-- The set of the members of a list. -/
def ofList (members : List κ) : OrderedSet κ :=
  OrderedMap.ofList (members.map fun k => (k, ()))

/-- The set with one more member. -/
def insert (s : OrderedSet κ) (key : κ) : OrderedSet κ := OrderedMap.insert s key ()

/-- The members in order. -/
def toList (s : OrderedSet κ) : List κ := OrderedMap.keys s

end OrderedSet

end RowScope
