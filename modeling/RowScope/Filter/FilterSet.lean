import RowScope.Filter.Key
import RowScope.Filter.Value
import RowScope.OrderedMap

/-!
# Filter sets

The filters of one request, at most one under each key. Keys that do not follow the grammar of
filter keys are dropped while a set is read; what a key means is of no concern here.
-/

namespace RowScope

open RowScope.Json

/-- A topic, a condition and the value that it compares with. -/
structure FilterTriple where
  /-- What the filter is about. -/
  topic : String
  /-- How it compares. -/
  condition : String
  /-- What it compares with. -/
  value : FilterValue
deriving DecidableEq, Repr

/-- The key of a triple. -/
def FilterTriple.key (t : FilterTriple) : FilterKey := ⟨t.topic, t.condition⟩

/-- The fields of a triple that have been read. -/
structure TripleParts where
  /-- The topic. -/
  topic : Option String := none
  /-- The condition. -/
  condition : Option String := none
  /-- The value. -/
  value : Option FilterValue := none

/-- Reads a triple. -/
def FilterTriple.decode : Decoder FilterTriple :=
  decodeRecord
    [.slot "topic" TripleParts.topic (fun v s => { s with topic := v }) decodeString,
      .slot "condition" TripleParts.condition (fun v s => { s with condition := v }) decodeString,
      .slot "value" TripleParts.value (fun v s => { s with value := v }) FilterValue.decode]
    false {} fun s => do
      return ⟨← required s.topic, ← required s.condition, ← required s.value⟩

/-- The filters of one request. -/
abbrev FilterSet : Type := OrderedMap FilterKey FilterValue

namespace FilterSet

/-- The set with one more filter, in the stead of one with its key. -/
def insertTriple (filters : FilterSet) (t : FilterTriple) : FilterSet :=
  OrderedMap.insert filters t.key t.value

/-- The set of some triples; of triples with one key the last counts. -/
def ofTriples (triples : List FilterTriple) : FilterSet :=
  triples.foldl insertTriple OrderedMap.empty

/-- The triples of a set in key order. -/
def triples (filters : FilterSet) : List FilterTriple :=
  filters.entries.map fun e => ⟨e.1.topic, e.1.condition, e.2⟩

/-! ## From query strings -/

/-- Whether a raw key announces a list. -/
def announcesList (raw : String) : Bool :=
  (Text.dropBlankEnd raw.toList).reverse.take 2 == [']', '[']

/-- Adds a pair of a query string. The first value of a key stands alone unless the key announces a
list; every further value joins it in a list. -/
def insertPair (filters : FilterSet) (pair : String × String) : FilterSet :=
  match FilterKey.ofText? pair.1 with
  | none => filters
  | some key =>
    OrderedMap.alter filters key fun
      | some value => value.push pair.2
      | none => if announcesList pair.1 then .many [pair.2] else .single pair.2

/-- The set of the decoded pairs of a query string. -/
def ofQueryPairs (pairs : List (String × String)) : FilterSet :=
  pairs.foldl insertPair OrderedMap.empty

/-! ## From JSON texts -/

/-- Adds a filter under a raw key. -/
def insertRaw (filters : FilterSet) (raw : String) (value : FilterValue) : FilterSet :=
  match FilterKey.ofText? raw with
  | none => filters
  | some key => OrderedMap.insert filters key value

/-- The set of some values under raw keys. Of values under one raw key the last counts; raw keys
that write the same filter key count in their order. -/
def ofRawEntries (entries : List (String × FilterValue)) : FilterSet :=
  (OrderedMap.ofList entries).entries.foldl (fun filters e => insertRaw filters e.1 e.2)
    OrderedMap.empty

/-- Reads a set from the text of a JSON object. -/
def ofJson (text : String) : Except Fault FilterSet := do
  return ofRawEntries (← decodeText (decodeMap .ok FilterValue.decode) text)

end FilterSet

end RowScope
