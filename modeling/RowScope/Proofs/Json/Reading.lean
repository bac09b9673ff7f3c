import RowScope.Json.Reader
import RowScope.Proofs.Json.Text

/-!
# Reading back JSON texts

A written value is a document without faults (`Json.document`), and the reader finds that document
in the text of the value (`Json.ofText_text`). A number is read up to where it ends, so the reader
is followed through the value with the text behind it in view (`Json.readValue_chars`): no character
there may go on with a number (`Json.Stops`). Two steps for every character are enough.
-/

namespace RowScope

namespace Json

/-! ## Documents of values -/

/-- What the reader makes of the text of an integer. -/
def integer : Int → Leaf Number
  | .ofNat n => (finishedNumber ⟨false, Number.natText n, none, none⟩ []).1
  | .negSucc n => (finishedNumber ⟨true, Number.natText (n + 1), none, none⟩ []).1

mutual

/-- The document of a value. -/
def document : Json → Document
  | .null => .null
  | .bool b => .bool b
  | .int n => .number (integer n)
  | .str s => .text ⟨.ok s, none⟩
  | .arr items => .array (itemDocuments items) .closed
  | .obj members => .object (memberDocuments members) .closed

/-- The documents of some items. -/
def itemDocuments : List Json → List Document
  | [] => []
  | item :: items => item.document :: itemDocuments items

/-- The documents of some members. -/
def memberDocuments : List (String × Json) → List Member
  | [] => []
  | (key, value) :: members => ⟨⟨.ok key, none⟩, value.document⟩ :: memberDocuments members

end

/-! ## Numbers -/

/-- Whether no character at the beginning of a text goes on with a number before it. -/
def Stops (rest : List Char) : Prop :=
  ∀ c ∈ rest.head?, c.isDigit = false ∧ c ≠ '.' ∧ c ≠ 'e' ∧ c ≠ 'E'

variable {rest : List Char}

/-- Nothing goes on with a number. -/
theorem stops_nil : Stops [] := nofun

/-- A number ends before a character that cannot stand in it. -/
theorem stops_cons {c : Char} (h : c.isDigit = false ∧ c ≠ '.' ∧ c ≠ 'e' ∧ c ≠ 'E')
    (rest : List Char) : Stops (c :: rest) := by
  rintro _ ⟨⟩
  exact h

/-- A number without fraction and exponent is finished where it stops. -/
theorem scanFraction_of_stops (isNegative : Bool) (whole : List Char) (h : Stops rest) :
    scanFraction isNegative whole rest =
      ((finishedNumber ⟨isNegative, whole, none, none⟩ []).1, some rest) := by
  have finished : ∀ l cs, finishedNumber l cs = ((finishedNumber l []).1, some cs) := by
    intro l cs
    simp only [finishedNumber]
    cases l.number? <;> rfl
  cases rest with
  | nil => exact finished _ _
  | cons c rest =>
    obtain ⟨-, hpoint, hlower, hupper⟩ := h c rfl
    have hfraction : scanFraction isNegative whole (c :: rest) =
        scanExponent isNegative whole none (c :: rest) := by
      simp [scanFraction, hpoint]
    have hexponent : ¬(c = 'e' ∨ c = 'E') := not_or.2 ⟨hlower, hupper⟩
    simp only [hfraction, scanExponent, hexponent, if_false]
    exact finished _ _

/-- The digits of a number are scanned as a whole. -/
theorem scanUnsigned_natText (isNegative : Bool) (n : Nat) (h : Stops rest) :
    scanUnsigned isNegative (Number.natText n ++ rest) =
      ((finishedNumber ⟨isNegative, Number.natText n, none, none⟩ []).1, some rest) := by
  obtain ⟨htake, hdrop⟩ := Number.takeWhile_isDigit_append
    (fun _ hc => Number.isDigit_of_mem_natText (n := n) hc) fun c hc => (h c hc).1
  rw [scanUnsigned, htake, hdrop]
  cases hdigits : Number.natText n with
  | nil => exact absurd hdigits (Number.natText_ne_nil n)
  | cons d ds =>
    -- A zero with further digits would be refused, but no number is written so.
    have hzero : ∀ c cs, d :: ds ≠ '0' :: c :: cs := hdigits ▸ Number.natText_ne_zero_cons n
    split
    · next h => cases h
    · next h => exact absurd h (hzero _ _)
    · exact scanFraction_of_stops isNegative (d :: ds) h

/-- The text of an integer is scanned as a whole. -/
theorem scanNumber_intText (n : Int) (h : Stops rest) :
    scanNumber (Number.intText n ++ rest) = (integer n, some rest) := by
  cases n with
  | ofNat n =>
    have hsign : scanNumber (Number.natText n ++ rest) =
        scanUnsigned false (Number.natText n ++ rest) := by
      cases hdigits : Number.natText n with
      | nil => exact absurd hdigits (Number.natText_ne_nil n)
      | cons d ds =>
        have hd : d ≠ '-' := by
          rintro rfl
          exact absurd (Number.isDigit_of_mem_natText (hdigits ▸ List.mem_cons_self)) (by decide)
        simp [scanNumber, hd]
    exact hsign.trans (scanUnsigned_natText false n h)
  | negSucc n => exact scanUnsigned_natText true (n + 1) h

/-- A number begins with a sign or a digit, which is no other character. -/
theorem ne_of_sign_or_digit {c d : Char} (hc : c = '-' ∨ c.isDigit = true)
    (hd : d ≠ '-' ∧ d.isDigit = false) : c ≠ d := by
  rintro rfl
  rcases hc with hc | hc
  · exact hd.1 hc
  · exact absurd (hc.symm.trans hd.2) (by decide)

/-- No number begins with a space. -/
theorem isSpace_of_sign_or_digit {c : Char} (hc : c = '-' ∨ c.isDigit = true) :
    isSpace c = false := by
  simp [isSpace, ne_of_sign_or_digit hc (d := ' ') (by decide),
    ne_of_sign_or_digit hc (d := '\n') (by decide),
    ne_of_sign_or_digit hc (d := '\t') (by decide),
    ne_of_sign_or_digit hc (d := '\r') (by decide)]

/-- The text of an integer begins with a sign or a digit. -/
theorem exists_intText_eq_cons (n : Int) :
    ∃ c cs, Number.intText n = c :: cs ∧ (c = '-' ∨ c.isDigit = true) := by
  cases n with
  | ofNat n =>
    obtain ⟨d, ds, hdigits⟩ := List.exists_cons_of_ne_nil (Number.natText_ne_nil n)
    exact ⟨d, ds, hdigits,
      .inr (Number.isDigit_of_mem_natText (hdigits ▸ List.mem_cons_self))⟩
  | negSucc n => exact ⟨_, _, rfl, .inl rfl⟩

/-- A text that begins as a number is read as one. -/
theorem readValue_eq_scanNumber {c : Char} (cs : List Char) (hc : c = '-' ∨ c.isDigit = true)
    (steps : Nat) : readValue (steps + 1) (c :: cs) =
      (.number (scanNumber (c :: cs)).1, (scanNumber (c :: cs)).2) := by
  have hword : c ≠ 'n' ∧ c ≠ 't' ∧ c ≠ 'f' ∧ c ≠ '"' :=
    ⟨ne_of_sign_or_digit hc (by decide), ne_of_sign_or_digit hc (by decide),
      ne_of_sign_or_digit hc (by decide), ne_of_sign_or_digit hc (by decide)⟩
  obtain ⟨hn, ht, hf, hquote⟩ := hword
  have hspace := isSpace_of_sign_or_digit hc
  rw [readValue, dropSpace, List.dropWhile_cons_of_neg (by simp [hspace])]
  simp only [hn, ht, hf, hquote, hc, if_false, if_true]

/-! ## Values -/

/-- The text of a value begins with a character that is no space and closes nothing. -/
theorem exists_chars_eq_cons (j : Json) :
    ∃ c cs, j.chars = c :: cs ∧ isSpace c = false ∧ c ≠ ']' := by
  cases j with
  | null => exact ⟨_, _, rfl, rfl, by decide⟩
  | bool b => cases b <;> exact ⟨_, _, rfl, rfl, by decide⟩
  | int n =>
    obtain ⟨c, cs, hchars, hc⟩ := exists_intText_eq_cons n
    exact ⟨c, cs, hchars, isSpace_of_sign_or_digit hc, ne_of_sign_or_digit hc (by decide)⟩
  | str s => exact ⟨_, _, rfl, rfl, by decide⟩
  | arr items => exact ⟨_, _, rfl, rfl, by decide⟩
  | obj members => exact ⟨_, _, rfl, rfl, by decide⟩

/-- The text of a value is not empty, so two steps for each of its characters are more than none. -/
theorem exists_steps (j : Json) {steps : Nat} (h : 2 * j.chars.length ≤ steps) :
    ∃ n, steps = n + 1 := by
  obtain ⟨c, cs, hchars, -⟩ := exists_chars_eq_cons j
  rw [hchars, List.length_cons] at h
  exact Nat.exists_eq_add_one.2 (by omega)

/-- The items that follow another one begin with a comma. -/
theorem itemsChars_false_cons (item : Json) (items : List Json) :
    itemsChars false (item :: items) = ',' :: (item.chars ++ itemsChars false items) := by
  simp [itemsChars]

/-- The members that follow another one begin with a comma and a quote. -/
theorem membersChars_false_cons (key : String) (value : Json) (members : List (String × Json)) :
    membersChars false ((key, value) :: members) = ',' :: '"' ::
      (key.toList.flatMap stringChar ++
        '"' :: ':' :: (value.chars ++ membersChars false members)) := by
  simp [membersChars, stringText]

variable {steps : Nat} {cs more : List Char} {d : Document} {c : Char}

/-- An array with items is read from its first item on. -/
theorem readValue_array (hspace : isSpace c = false) (hc : c ≠ ']') :
    readValue (steps + 1) ('[' :: c :: cs) =
      (.array (readItems steps (c :: cs)).1.1 (readItems steps (c :: cs)).1.2,
        (readItems steps (c :: cs)).2) := by
  have hbegin : dropSpace ('[' :: c :: cs) = '[' :: c :: cs := rfl
  have hfirst : dropSpace (c :: cs) = c :: cs := List.dropWhile_cons_of_neg (by simp [hspace])
  rw [readValue, hbegin]
  simp [hfirst, hc]

/-- The last item of an array. -/
theorem readItems_last (h : readValue steps cs = (d, some (']' :: rest))) :
    readItems (steps + 1) cs = (([d], .closed), some rest) := by
  rw [readItems, h]
  rfl

/-- An item of an array that another one follows. -/
theorem readItems_next (h : readValue steps cs = (d, some (',' :: c :: more)))
    (hspace : isSpace c = false) (hc : c ≠ ']') : readItems (steps + 1) cs =
      ((d :: (readItems steps (c :: more)).1.1, (readItems steps (c :: more)).1.2),
        (readItems steps (c :: more)).2) := by
  have hcomma : dropSpace (',' :: c :: more) = ',' :: c :: more := rfl
  have hnext : dropSpace (c :: more) = c :: more := List.dropWhile_cons_of_neg (by simp [hspace])
  rw [readItems, h]
  simp [hcomma, hnext, hc]

/-- The last member of an object. -/
theorem readMembers_last {key : String} (h : readValue steps cs = (d, some ('\x7d' :: rest))) :
    readMembers (steps + 1) (key.toList.flatMap stringChar ++ '"' :: ':' :: cs) =
      (([⟨⟨.ok key, none⟩, d⟩], .closed), some rest) := by
  have hcolon : dropSpace (':' :: cs) = ':' :: cs := rfl
  rw [readMembers, scanString_stringText]
  simp only [hcolon, h]
  rfl

/-- A member of an object that another one follows. -/
theorem readMembers_next {key : String}
    (h : readValue steps cs = (d, some (',' :: '"' :: more))) :
    readMembers (steps + 1) (key.toList.flatMap stringChar ++ '"' :: ':' :: cs) =
      ((⟨⟨.ok key, none⟩, d⟩ :: (readMembers steps more).1.1, (readMembers steps more).1.2),
        (readMembers steps more).2) := by
  have hcolon : dropSpace (':' :: cs) = ':' :: cs := rfl
  rw [readMembers, scanString_stringText]
  simp only [hcolon, h]
  rfl

-- The recursion is over the value. An entry of an array or an object is read with the text of the
-- others behind it, which begins with a comma or the closing bracket, so a number stops there.
mutual

/-- The reader finds the document of a value in its text. -/
theorem readValue_chars : (j : Json) → ∀ steps rest, 2 * j.chars.length ≤ steps → Stops rest →
    readValue steps (j.chars ++ rest) = (j.document, some rest)
  | .null | .bool true | .bool false => by
    intro steps rest hsteps _
    obtain ⟨steps, rfl⟩ := exists_steps _ hsteps
    rfl
  | .int n => by
    intro steps rest hsteps hstops
    obtain ⟨steps, rfl⟩ := exists_steps _ hsteps
    obtain ⟨c, cs, hchars, hc⟩ := exists_intText_eq_cons n
    have hscan := scanNumber_intText n hstops
    rw [chars, hchars, List.cons_append] at *
    rw [readValue_eq_scanNumber _ hc, hscan, document]
  | .str s => by
    intro steps rest hsteps _
    obtain ⟨steps, rfl⟩ := exists_steps _ hsteps
    have hchars : (str s).chars ++ rest = '"' :: (s.toList.flatMap stringChar ++ '"' :: rest) := by
      simp [chars, stringText]
    have hread : ∀ cs, readValue (steps + 1) ('"' :: cs) =
        (.text (scanString cs).1, (scanString cs).2) := fun _ => rfl
    rw [hchars, hread, scanString_stringText, document]
  | .arr [] => by
    intro steps rest hsteps _
    obtain ⟨steps, rfl⟩ := exists_steps _ hsteps
    rfl
  | .arr (item :: items) => by
    intro steps rest hsteps _
    obtain ⟨steps, rfl⟩ := exists_steps _ hsteps
    obtain ⟨c, cs, hitem, hspace, hc⟩ := exists_chars_eq_cons item
    have hitems := readItems_itemsChars item items steps rest (by
      simp only [chars, itemsChars, List.length_append, List.length_cons] at hsteps
      omega)
    have hchars : (arr (item :: items)).chars ++ rest =
        '[' :: (item.chars ++ (itemsChars false items ++ ']' :: rest)) := by
      simp [chars, itemsChars]
    rw [hchars]
    rw [hitem, List.cons_append] at hitems ⊢
    rw [readValue_array hspace hc, hitems, document]
  | .obj [] => by
    intro steps rest hsteps _
    obtain ⟨steps, rfl⟩ := exists_steps _ hsteps
    rfl
  | .obj ((key, value) :: members) => by
    intro steps rest hsteps _
    obtain ⟨steps, rfl⟩ := exists_steps _ hsteps
    have hmembers := readMembers_membersChars key value members steps rest (by
      simp only [chars, membersChars, List.length_append, List.length_cons] at hsteps
      omega)
    have hchars : (obj ((key, value) :: members)).chars ++ rest = '\x7b' :: '"' ::
        (key.toList.flatMap stringChar ++
          '"' :: ':' :: (value.chars ++ (membersChars false members ++ '\x7d' :: rest))) := by
      simp [chars, membersChars, stringText]
    have hread : ∀ cs, readValue (steps + 1) ('\x7b' :: '"' :: cs) =
        (.object (readMembers steps cs).1.1 (readMembers steps cs).1.2, (readMembers steps cs).2) :=
      fun _ => rfl
    rw [hchars, hread, hmembers, document]
termination_by j => sizeOf j

/-- The reader finds the documents of the items of an array. -/
theorem readItems_itemsChars : (item : Json) → (items : List Json) → ∀ steps rest,
    2 * (item.chars.length + (itemsChars false items).length) < steps →
    readItems steps (item.chars ++ (itemsChars false items ++ ']' :: rest)) =
      ((itemDocuments (item :: items), .closed), some rest)
  | item, [] => by
    intro steps rest hsteps
    obtain ⟨steps, rfl⟩ := Nat.exists_eq_add_one.2 (Nat.zero_lt_of_lt hsteps)
    exact readItems_last
      (readValue_chars item steps _ (by omega) (stops_cons (by decide) _))
  | item, next :: items => by
    intro steps rest hsteps
    obtain ⟨steps, rfl⟩ := Nat.exists_eq_add_one.2 (Nat.zero_lt_of_lt hsteps)
    rw [itemsChars_false_cons, List.length_cons, List.length_append] at hsteps
    obtain ⟨c, cs, hnext, hspace, hc⟩ := exists_chars_eq_cons next
    have hitems := readItems_itemsChars next items steps rest (by omega)
    have hitem := readValue_chars item steps
      (',' :: (next.chars ++ (itemsChars false items ++ ']' :: rest))) (by omega)
      (stops_cons (by decide) _)
    rw [hnext, List.cons_append] at hitems hitem
    rw [itemsChars_false_cons, hnext]
    simp only [List.cons_append, List.append_assoc]
    rw [readItems_next hitem hspace hc, hitems]
    rfl
termination_by item items => sizeOf item + sizeOf items

/-- The reader finds the documents of the members of an object. -/
theorem readMembers_membersChars : (key : String) → (value : Json) →
    (members : List (String × Json)) → ∀ steps rest,
    2 * (value.chars.length + (membersChars false members).length) < steps →
    readMembers steps (key.toList.flatMap stringChar ++
      '"' :: ':' :: (value.chars ++ (membersChars false members ++ '\x7d' :: rest))) =
        ((memberDocuments ((key, value) :: members), .closed), some rest)
  | key, value, [] => by
    intro steps rest hsteps
    obtain ⟨steps, rfl⟩ := Nat.exists_eq_add_one.2 (Nat.zero_lt_of_lt hsteps)
    exact readMembers_last
      (readValue_chars value steps _ (by omega) (stops_cons (by decide) _))
  | key, value, (nextKey, nextValue) :: members => by
    intro steps rest hsteps
    obtain ⟨steps, rfl⟩ := Nat.exists_eq_add_one.2 (Nat.zero_lt_of_lt hsteps)
    rw [membersChars_false_cons] at hsteps ⊢
    simp only [List.length_cons, List.length_append] at hsteps
    have hmembers := readMembers_membersChars nextKey nextValue members steps rest (by omega)
    have hvalue := readValue_chars value steps
      (',' :: '"' :: (nextKey.toList.flatMap stringChar ++
        '"' :: ':' :: (nextValue.chars ++ (membersChars false members ++ '\x7d' :: rest))))
      (by omega) (stops_cons (by decide) _)
    simp only [List.cons_append, List.append_assoc]
    rw [readMembers_next hvalue, hmembers]
    rfl
termination_by _ value members => sizeOf value + sizeOf members

end

/-- The reader finds the document of a value in its text, and nothing behind it. -/
theorem ofText_text (j : Json) : Reading.ofText j.text = ⟨j.document, false⟩ := by
  have hread := readValue_chars j (2 * j.chars.length + 2) [] (by omega) stops_nil
  rw [List.append_nil] at hread
  rw [Reading.ofText, text, String.toList_ofList, hread]
  rfl

end Json

end RowScope
