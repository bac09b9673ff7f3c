import RowScope.Proofs.Number.Decimal
import RowScope.Proofs.Sql.Legible

/-!
# The tokens of pieces

A piece of a rendered text is one token if it is a name or a value, and the words and signs of its
text if it is code (`SqlPiece.tokens`). The text of legible pieces is split into their tokens, with
the values numbered from left to right (`lexFrom_renderFrom`), so pieces with one text and the same
values have the same tokens (`tokens_inj`).
-/

namespace RowScope

open Lexer (charKind lastKind lex lexFrom)

/-- What the placeholders of some tokens say, in their order. -/
def slots {α : Type} (tokens : List (SqlToken α)) : List α := tokens.filterMap SqlToken.slot?

/-- The words, operators and punctuation marks of code. -/
def codeSymbols (text : String) : List String := ((lex text).getD []).filterMap SqlToken.symbol?

/-- The tokens of a piece, in which a value stands for its placeholder. -/
def SqlPiece.tokens : SqlPiece → List (SqlToken Value)
  | .code text => (codeSymbols text).map .symbol
  | .name text => [.name text]
  | .param value => [.slot value]

/-- The tokens of some pieces. -/
def tokens (pieces : List SqlPiece) : List (SqlToken Value) := pieces.flatMap SqlPiece.tokens

/-- Some tokens with numbers for their values, after so many values. -/
def numberedFrom (bound : Nat) : List (SqlToken Value) → List (SqlToken Nat)
  | [] => []
  | .slot _ :: rest => .slot (bound + 1) :: numberedFrom (bound + 1) rest
  | .name text :: rest => .name text :: numberedFrom bound rest
  | .symbol text :: rest => .symbol text :: numberedFrom bound rest

/-! ## Numbers for values -/

theorem tokens_cons (piece : SqlPiece) (pieces : List SqlPiece) :
    tokens (piece :: pieces) = piece.tokens ++ tokens pieces :=
  List.flatMap_cons

theorem tokens_append (xs ys : List SqlPiece) : tokens (xs ++ ys) = tokens xs ++ tokens ys :=
  List.flatMap_append

theorem slots_append {α : Type} (ts us : List (SqlToken α)) :
    slots (ts ++ us) = slots ts ++ slots us :=
  List.filterMap_append

/-- Tokens of code have no placeholders. -/
theorem slots_symbols {α : Type} (texts : List String) :
    slots (texts.map SqlToken.symbol : List (SqlToken α)) = [] := by
  rw [slots, List.filterMap_eq_nil_iff]
  intro token h
  obtain ⟨text, -, rfl⟩ := List.mem_map.1 h
  rfl

/-- The values among the tokens of some pieces are the values of the pieces. -/
theorem slots_tokens (pieces : List SqlPiece) : slots (tokens pieces) = params pieces := by
  induction pieces with
  | nil => rfl
  | cons piece pieces ih =>
    rw [tokens_cons, slots_append, ih]
    cases piece with
    | code text => rw [SqlPiece.tokens, slots_symbols, List.nil_append, params]
    | name text => rfl
    | param value => rfl

/-- Numbers go on after those of the tokens before. -/
theorem numberedFrom_append (bound : Nat) (ts us : List (SqlToken Value)) :
    numberedFrom bound (ts ++ us) =
      numberedFrom bound ts ++ numberedFrom (bound + (slots ts).length) us := by
  induction ts generalizing bound with
  | nil => rfl
  | cons t ts ih =>
    cases t with
    | name text | symbol text => exact congrArg (_ :: ·) (ih bound)
    | slot value =>
      have hlength : bound + (slots (.slot value :: ts)).length =
          bound + 1 + (slots ts).length := by
        rw [show slots (.slot value :: ts) = value :: slots ts from rfl, List.length_cons]
        omega
      rw [hlength]
      exact congrArg (_ :: ·) (ih (bound + 1))

/-- The numbers are those from 1 on. -/
theorem slots_numberedFrom (bound : Nat) (ts : List (SqlToken Value)) :
    slots (numberedFrom bound ts) = List.range' (bound + 1) (slots ts).length := by
  induction ts generalizing bound with
  | nil => rfl
  | cons t ts ih =>
    cases t with
    | name text | symbol text => exact ih bound
    | slot value => exact congrArg (_ :: ·) (ih (bound + 1))

/-- Numbered tokens have the names and symbols that the tokens had. -/
theorem of_mem_numberedFrom {bound : Nat} {ts : List (SqlToken Value)} {text : String} :
    (.name text ∈ numberedFrom bound ts → .name text ∈ ts) ∧
      (.symbol text ∈ numberedFrom bound ts → .symbol text ∈ ts) := by
  fun_induction numberedFrom bound ts with
  | case1 => exact ⟨nofun, nofun⟩
  | case2 bound value rest ih => simpa using ih
  | case3 bound name rest ih => exact ⟨by simpa using Or.imp_right ih.1, by simpa using ih.2⟩
  | case4 bound symbol rest ih => exact ⟨by simpa using ih.1, by simpa using Or.imp_right ih.2⟩

/-- Numbers and values determine tokens. -/
theorem numberedFrom_inj {bound : Nat} {ts us : List (SqlToken Value)}
    (h : numberedFrom bound ts = numberedFrom bound us) (hslots : slots ts = slots us) :
    ts = us := by
  induction ts generalizing bound us with
  | nil => cases us with
    | nil => rfl
    | cons u us => cases u <;> cases h
  | cons t ts ih =>
    cases us with
    | nil => cases t <;> cases h
    | cons u us =>
      cases t <;> cases u <;> obtain ⟨head, tail⟩ := List.cons.inj h <;> cases head
      · rw [ih tail hslots]
      · obtain ⟨hvalue, hslots⟩ := List.cons.inj hslots
        rw [hvalue, ih tail hslots]
      · rw [ih tail hslots]

/-! ## Texts of pieces -/

/-- Known code is split into its symbols. -/
theorem lex_code : ∀ text ∈ sqlCodes,
    lex text = some ((codeSymbols text).map .symbol) ∧ text.toList ≠ [] := by
  decide +kernel

/-- Characters inside of quotes, with each quote written twice, belong to the name. -/
theorem lexFrom_quoted (read cs : List Char) :
    lexFrom (.quoted read) (cs.flatMap (fun c => if c = '"' then ['"', '"'] else [c]) ++ ['"']) =
      some [.name (String.ofList (read ++ cs))] := by
  induction cs generalizing read with
  | nil => simp [lexFrom, Lexer.Pending.extend, Lexer.Pending.finish]
  | cons c cs ih =>
    rw [List.append_cons read c cs, ← ih]
    by_cases hc : c = '"' <;> simp [hc, lexFrom, Lexer.Pending.extend]

/-- A quoted name is one token. -/
theorem lexFrom_quoteName (s : String) : lexFrom .nothing (quoteName s) = some [.name s] := by
  have hname := lexFrom_quoted [] s.toList
  rw [List.nil_append, String.ofList_toList] at hname
  rw [quoteName, List.cons_append, lexFrom]
  simp [Lexer.Pending.extend, Lexer.Pending.finish, Lexer.start, charKind, hname]

/-- Digits go on a number. -/
theorem lexFrom_number (read digits : List Char) (h : ∀ c ∈ digits, c.isDigit = true) :
    lexFrom (.number read) digits = some [.slot (Number.digitsValue (read ++ digits))] := by
  induction digits generalizing read with
  | nil => simp [lexFrom, Lexer.Pending.finish]
  | cons c digits ih =>
    obtain ⟨hc, hdigits⟩ := List.forall_mem_cons.1 h
    rw [List.append_cons, ← ih (read ++ [c]) hdigits]
    simp [lexFrom, Lexer.Pending.extend, hc]

/-- A placeholder is one token. -/
theorem lexFrom_placeholder (n : Nat) :
    lexFrom .nothing ('$' :: Number.natText n) = some [.slot n] := by
  have hvalue := Number.digitsValue_natText n
  have hdigits : ∀ c ∈ Number.natText n, c.isDigit = true := fun _ => Number.isDigit_of_mem_natText
  cases htext : Number.natText n with
  | nil => exact absurd htext (Number.natText_ne_nil n)
  | cons d digits =>
    rw [htext] at hvalue hdigits
    obtain ⟨hd, hdigits⟩ := List.forall_mem_cons.1 hdigits
    have hnumber := lexFrom_number [d] digits hdigits
    rw [List.singleton_append, hvalue] at hnumber
    simp [lexFrom, Lexer.Pending.extend, Lexer.Pending.finish, Lexer.start, charKind,
      hd, hnumber]

/-- The text of pieces begins with that of the first one. -/
theorem renderFrom_cons (bound : Nat) (piece : SqlPiece) (rest : List SqlPiece) :
    renderFrom bound (piece :: rest) =
      renderFrom bound [piece] ++ renderFrom (bound + (params [piece]).length) rest := by
  cases piece <;> simp [renderFrom, params]

/-- The text of a piece is split into its tokens. -/
theorem lexFrom_piece {piece : SqlPiece} (h : Legible [piece]) (bound : Nat) :
    lexFrom .nothing (renderFrom bound [piece]) = some (numberedFrom bound piece.tokens) := by
  cases piece with
  | code text =>
    have hlex := (lex_code text (h.codes text (List.mem_singleton_self _))).1
    have hnumbered : ∀ texts : List String,
        numberedFrom bound (texts.map .symbol) = texts.map .symbol := by
      intro texts
      induction texts with
      | nil => rfl
      | cons text texts ih => exact congrArg (_ :: ·) ih
    rw [renderFrom, renderFrom, List.append_nil, SqlPiece.tokens, hnumbered]
    exact hlex
  | name text =>
    rw [renderFrom, renderFrom, List.append_nil]
    exact lexFrom_quoteName text
  | param value =>
    rw [renderFrom, renderFrom, List.append_nil]
    exact lexFrom_placeholder (bound + 1)

/-- The text of a piece ends as the piece does. -/
theorem lastKind_piece (piece : SqlPiece) (bound : Nat) :
    lastKind .single (renderFrom bound [piece]) = piece.lastKind := by
  cases piece with
  | code text => simp [renderFrom, SqlPiece.lastKind]
  | name text =>
    have hlast : (quoteName text).getLast? = some '"' := List.getLast?_concat
    rw [renderFrom, renderFrom, List.append_nil, lastKind, hlast]
    rfl
  | param value =>
    have hne := Number.natText_ne_nil (bound + 1)
    have hlast : (Number.natText (bound + 1)).getLast? = some _ :=
      List.getLast?_eq_some_getLast hne
    have hdigit := Number.isDigit_of_mem_natText (List.getLast_mem hne)
    simp [renderFrom, lastKind, List.getLast?_cons, hlast, Lexer.charKind_of_isDigit hdigit,
      SqlPiece.lastKind]

/-- The text of pieces begins as the first one does. -/
theorem firstKind_renderFrom {piece : SqlPiece} {rest : List SqlPiece} (h : Legible [piece])
    (bound : Nat) : ∀ c ∈ (renderFrom bound (piece :: rest)).head?,
      charKind c = piece.firstKind := by
  intro c hc
  cases piece with
  | code text =>
    have hne := (lex_code text (h.codes text (List.mem_singleton_self _))).2
    cases htext : text.toList with
    | nil => exact absurd htext hne
    | cons d ds =>
      rw [renderFrom, htext] at hc
      cases hc
      simp [SqlPiece.firstKind, htext]
  | name text =>
    cases hc
    rfl
  | param value =>
    cases hc
    rfl

/-- The text of legible pieces is split into their tokens. -/
theorem lexFrom_renderFrom {pieces : List SqlPiece} (h : Legible pieces) (bound : Nat) :
    lexFrom .nothing (renderFrom bound pieces) = some (numberedFrom bound (tokens pieces)) := by
  induction pieces generalizing bound with
  | nil => rfl
  | cons piece rest ih =>
    have hborder : ∀ c ∈ (renderFrom (bound + (params [piece]).length) rest).head?,
        lastKind .single (renderFrom bound [piece]) = .single ∨
          lastKind .single (renderFrom bound [piece]) ≠ charKind c := by
      rw [lastKind_piece]
      cases rest with
      | nil => exact fun c hc => nomatch hc
      | cons next rest =>
        intro c hc
        rw [firstKind_renderFrom (h.tail.singleton List.mem_cons_self) _ c hc]
        exact (List.isChain_cons_cons.1 h.borders).1
    have hslots : slots piece.tokens = params [piece] := by
      rw [← slots_tokens [piece], tokens, List.flatMap_singleton]
    have hpiece := lexFrom_piece (h.singleton List.mem_cons_self) bound
    rw [renderFrom_cons, Lexer.lexFrom_append hpiece hborder, ih h.tail]
    rw [tokens_cons, numberedFrom_append, hslots]
    rfl

example : lex (Predicate.overlaps ⟨"a\"b", "c"⟩ ["\""]).text =
    some [.name "a\"b", .symbol ".", .name "c", .symbol "&&", .slot 1, .symbol "::",
      .symbol "text", .symbol "[", .symbol "]"] := by
  decide +kernel

/-- Legible pieces of one text with the same values have the same tokens. -/
theorem tokens_inj {xs ys : List SqlPiece} (hx : Legible xs) (hy : Legible ys)
    (htext : render xs = render ys) (hparams : params xs = params ys) : tokens xs = tokens ys := by
  have hchars : renderFrom 0 xs = renderFrom 0 ys := String.ofList_injective htext
  have hlex := lexFrom_renderFrom hx 0
  rw [hchars, lexFrom_renderFrom hy 0] at hlex
  refine (numberedFrom_inj (Option.some.inj hlex) ?_).symm
  rw [slots_tokens, slots_tokens, hparams]

end RowScope
