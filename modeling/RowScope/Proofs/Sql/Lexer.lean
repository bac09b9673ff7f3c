import RowScope.Number.Decimal

/-!
# SQL tokens

An SQL text is a sequence of tokens: names in double quotes, in which a quote is written twice,
placeholders `$n`, words, operators, and punctuation marks of one character. A word and an operator
go on for as long as characters of their kind follow. `Lexer.lex` splits a text so, and fails at a
quote that is not closed and at a `$` without a number. Two texts whose border no token crosses are
split one after the other (`Lexer.lexFrom_append`).
-/

namespace RowScope

/-- A token of an SQL text whose placeholders say something of type `α`. -/
inductive SqlToken (α : Type) where
  /-- A name in double quotes. -/
  | name (text : String)
  /-- A placeholder. -/
  | slot (content : α)
  /-- A word, an operator or a punctuation mark. -/
  | symbol (text : String)
deriving DecidableEq

namespace SqlToken

variable {α : Type}

/-- What a placeholder says. -/
def slot? : SqlToken α → Option α
  | slot content => some content
  | name _ | symbol _ => none

/-- The text of a word, an operator or a punctuation mark. -/
def symbol? : SqlToken α → Option String
  | symbol text => some text
  | name _ | slot _ => none

end SqlToken

namespace Lexer

/-- What a character is part of outside of names. -/
inductive CharKind where
  /-- It begins a name. -/
  | quote
  /-- It is part of a word, or begins a placeholder. -/
  | word
  /-- It is part of an operator. -/
  | operator
  /-- It stands for itself, or is space. -/
  | single
deriving DecidableEq

/-- The characters of operators. -/
def operatorChars : List Char :=
  ['+', '-', '*', '/', '<', '>', '=', '~', '!', '@', '#', '%', '^', '&', '|', '`', '?', ':']

/-- The kind of a character. -/
def charKind (c : Char) : CharKind :=
  if c = '"' then .quote
  else if c.isAlphanum || c = '_' || c = '$' || 127 < c.toNat then .word
  else if operatorChars.contains c then .operator
  else .single

/-- The token that is being read. -/
inductive Pending where
  | nothing
  /-- A name, so far. -/
  | quoted (read : List Char)
  /-- A name with its last quote, unless that turns out to be the first of two. -/
  | closed (read : List Char)
  /-- A placeholder without a digit so far. -/
  | dollar
  | number (digits : List Char)
  | word (read : List Char)
  | operator (read : List Char)

namespace Pending

/-- The kind of the last character of a token that may end here. -/
def kind : Pending → CharKind
  | nothing => .single
  | quoted _ | closed _ => .quote
  | dollar | number _ | word _ => .word
  | operator _ => .operator

/-- The token, if it may end here. -/
def finish : Pending → Option (List (SqlToken Nat))
  | nothing => some []
  | quoted _ | dollar => none
  | closed read => some [.name (String.ofList read)]
  | number digits => some [.slot (Number.digitsValue digits)]
  | word read | operator read => some [.symbol (String.ofList read)]

/-- The token with one more character, if that belongs to it. -/
def extend : Pending → Char → Option Pending
  | nothing, _ => none
  | quoted read, c => some (if c = '"' then closed read else quoted (read ++ [c]))
  | closed read, c => if c = '"' then some (quoted (read ++ [c])) else none
  | dollar, c => if c.isDigit then some (number [c]) else none
  | number digits, c => if c.isDigit then some (number (digits ++ [c])) else none
  | word read, c => if charKind c = .word then some (word (read ++ [c])) else none
  | operator read, c => if charKind c = .operator then some (operator (read ++ [c])) else none

end Pending

/-- What a character begins: a token that may go on, or one that does not. -/
def start (c : Char) : List (SqlToken Nat) × Pending :=
  match charKind c with
  | .quote => ([], .quoted [])
  | .word => ([], if c = '$' then .dollar else .word [c])
  | .operator => ([], .operator [c])
  | .single => (if c.isWhitespace then [] else [.symbol (String.singleton c)], .nothing)

/-- The tokens of a text, the first of which has been begun. -/
def lexFrom : Pending → List Char → Option (List (SqlToken Nat))
  | pending, [] => pending.finish
  | pending, c :: rest =>
    match pending.extend c with
    | some next => lexFrom next rest
    | none => do
      let ended ← pending.finish
      let others ← lexFrom (start c).2 rest
      return ended ++ (start c).1 ++ others

/-- The tokens of a text. -/
def lex (text : String) : Option (List (SqlToken Nat)) := lexFrom .nothing text.toList

/-! ## Borders between texts -/

/-- A digit is part of a word. -/
theorem charKind_of_isDigit {c : Char} (h : c.isDigit = true) : charKind c = .word := by
  have hquote : c ≠ '"' := by
    rintro rfl
    exact absurd h (by decide)
  simp [charKind, hquote, Char.isAlphanum, h]

/-- A token that is extended by a character and may end there is of the character's kind. -/
theorem kind_of_extend {pending next : Pending} {c : Char} {tokens : List (SqlToken Nat)}
    (h : pending.extend c = some next) (hfinish : next.finish = some tokens) :
    next.kind = charKind c := by
  cases pending with
  | nothing => cases h
  | quoted read =>
    by_cases hc : c = '"'
    · subst hc
      cases h
      rfl
    · -- A name that goes on may not end.
      rw [Pending.extend, if_neg hc] at h
      cases h
      cases hfinish
  | closed read =>
    obtain ⟨-, h⟩ := Option.ite_none_right_eq_some.1 h
    cases h
    cases hfinish
  | dollar | number digits =>
    obtain ⟨hc, h⟩ := Option.ite_none_right_eq_some.1 h
    cases h
    exact (charKind_of_isDigit hc).symm
  | word read | operator read =>
    obtain ⟨hc, h⟩ := Option.ite_none_right_eq_some.1 h
    cases h
    exact hc.symm

/-- What a character begins is of its kind. -/
theorem kind_start (c : Char) : (start c).2.kind = charKind c := by
  unfold start
  cases charKind c with
  | word => dsimp only; split <;> rfl
  | quote | operator | single => rfl

/-- A character of another kind does not belong to a token that may end. -/
theorem extend_eq_none {pending : Pending} {c : Char} {tokens : List (SqlToken Nat)}
    (hfinish : pending.finish = some tokens)
    (hkind : pending.kind = .single ∨ pending.kind ≠ charKind c) : pending.extend c = none := by
  cases pending with
  | nothing => rfl
  | quoted read => cases hfinish
  | dollar => cases hfinish
  | closed read =>
    refine if_neg fun hc => ?_
    subst hc
    exact hkind.elim nofun fun h => h rfl
  | number digits =>
    exact if_neg fun hc => hkind.elim nofun fun h => h (charKind_of_isDigit hc).symm
  | word read | operator read => exact if_neg fun hc => hkind.elim nofun fun h => h hc.symm

/-- The kind of the last character of a text, or of a token before it. -/
def lastKind (before : CharKind) (text : List Char) : CharKind :=
  (text.getLast?.map charKind).getD before

/-- The last character of a text with a first one does not depend on what is before it. -/
theorem lastKind_cons (before : CharKind) (c : Char) (text : List Char) :
    lastKind before (c :: text) = lastKind (charKind c) text := by
  cases text with
  | nil => rfl
  | cons d text => simp [lastKind, List.getLast?_cons]

/-- The last kind of characters after a token depends on the token only if there are none. -/
theorem lastKind_congr {before other : CharKind} {text : List Char}
    (h : text = [] → before = other) : lastKind before text = lastKind other text := by
  cases text with
  | nil => exact h rfl
  | cons c text => rw [lastKind_cons, lastKind_cons]

/-- A token ends before a character that does not belong to it. -/
theorem lexFrom_of_extend_eq_none {pending : Pending} {c : Char} {ended : List (SqlToken Nat)}
    (hextend : pending.extend c = none) (hfinish : pending.finish = some ended)
    (rest : List Char) :
    lexFrom pending (c :: rest) = (lexFrom .nothing (c :: rest)).map (ended ++ ·) := by
  rw [lexFrom, hextend, hfinish, lexFrom, Pending.extend, Pending.finish]
  cases lexFrom (start c).2 rest with
  | none => rfl
  | some others => simp

/-- A text is split before another one if the first character of that is of another kind than the
last one before it. -/
theorem lexFrom_append {pending : Pending} {front back : List Char} {tokens : List (SqlToken Nat)}
    (h : lexFrom pending front = some tokens)
    (hborder : ∀ c ∈ back.head?, lastKind pending.kind front = .single ∨
      lastKind pending.kind front ≠ charKind c) :
    lexFrom pending (front ++ back) = (lexFrom .nothing back).map (tokens ++ ·) := by
  -- The induction is over any token to begin with, since reading on changes it.
  induction front generalizing pending tokens with
  | nil =>
    cases back with
    | nil => simpa [lexFrom, Pending.finish] using h
    | cons c back => exact lexFrom_of_extend_eq_none (extend_eq_none h (hborder c rfl)) h back
  | cons c front ih =>
    rw [lastKind_cons] at hborder
    rw [lexFrom] at h
    rw [List.cons_append, lexFrom]
    cases hextend : pending.extend c with
    | some next =>
      rw [hextend] at h
      apply ih h
      rwa [lastKind_congr fun hnil => kind_of_extend hextend (hnil ▸ h)]
    | none =>
      rw [hextend] at h
      obtain ⟨ended, hended, h⟩ := Option.bind_eq_some_iff.1 h
      obtain ⟨others, hothers, h⟩ := Option.bind_eq_some_iff.1 h
      cases h
      dsimp only
      rw [hended, ih hothers (by rwa [kind_start])]
      cases lexFrom .nothing back with
      | none => rfl
      | some later => simp

end Lexer

end RowScope
