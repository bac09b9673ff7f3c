import RowScope.Proofs.Sql.Canonical
import RowScope.Proofs.Sql.Names

/-!
# Reading predicates back

The tokens of a canonical predicate determine it: `readWithin` reads predicates from tokens by
recursive descent, and gives back every canonical one whatever follows its tokens
(`recovers_readWithin`). Hence two canonical predicates with one text and the same values are equal
(`Predicate.Canonical.eq_of_render`). A join is determined by its text alone
(`JoinClause.eq_of_text`).
-/

namespace RowScope

/-- Reads something from the beginning of some tokens, and gives the tokens after it. -/
abbrev Reads? (α : Type) : Type := List (SqlToken Value) → Option (α × List (SqlToken Value))

/-! ## The reader -/

/-- The comparison that an operator stands for. -/
def CompareOp.ofSymbol? : String → Option CompareOp
  | "=" => some eq
  | "<" => some lt
  | "<=" => some le
  | ">" => some gt
  | ">=" => some ge
  | _ => none

/-- The keyword that begins a join. -/
def JoinKind.keyword : JoinKind → String
  | inner => "INNER"
  | left => "LEFT"

/-- The join that a keyword begins. -/
def JoinKind.ofKeyword? : String → Option JoinKind
  | "INNER" => some inner
  | "LEFT" => some left
  | _ => none

/-- Reads values after the first one up to the end of the list. -/
def readValues : Reads? (List Value)
  | .symbol "," :: .slot value :: rest => (readValues rest).map fun (values, rest) =>
    (value :: values, rest)
  | .symbol ")" :: rest => some ([], rest)
  | _ => none

/-- Reads joins as long as there are some. -/
def readJoins : List (SqlToken Value) → List JoinClause × List (SqlToken Value)
  | .symbol keyword :: rest =>
    match JoinKind.ofKeyword? keyword, rest with
    | some kind, .symbol _ :: .name table :: .symbol _ :: .name aliasName :: .symbol _ :: .name _ ::
        .symbol _ :: .name onColumn :: .symbol _ :: .name other :: .symbol _ :: .name column ::
        rest =>
      let (joins, rest) := readJoins rest
      (⟨kind, table, aliasName, onColumn, ⟨other, column⟩⟩ :: joins, rest)
    | _, _ => ([], .symbol keyword :: rest)
  | tokens => ([], tokens)

section Reader

variable (inner : Reads? Predicate)

/-- Reads the condition of a subquery, which may be missing. -/
def readFilter : Reads? Predicate
  | .symbol "WHERE" :: rest => inner rest
  | tokens => some (.always, tokens)

/-- Reads the condition of a subquery on the rows of a key, which may be missing. -/
def readHaving : Reads? Having
  | .symbol "GROUP" :: .symbol _ :: .name _ :: .symbol _ :: .name _ :: .symbol _ ::
      .symbol "COALESCE" :: .symbol _ :: .symbol _ :: .symbol _ :: rest =>
    (inner rest).map fun (predicate, rest) => (.noneMatch predicate, rest.drop 6)
  | .symbol "GROUP" :: .symbol _ :: .name _ :: .symbol _ :: .name _ :: .symbol _ ::
      .symbol "COUNT" :: .symbol _ :: .symbol _ :: .name aliasName :: .symbol _ :: .name column ::
      .symbol _ :: .symbol operator :: .slot (.int n) :: rest =>
    (CompareOp.ofSymbol? operator).map fun op => (.count ⟨aliasName, column⟩ op n, rest)
  | tokens => some (.absent, tokens)

/-- Reads a subquery after its first keywords. -/
def readSource : Reads? Subquery
  | .name _ :: .symbol _ :: .name key :: .symbol _ :: .name table :: .symbol _ ::
      .name aliasName :: rest => do
    let (joins, rest) := readJoins rest
    let (filter, rest) ← readFilter inner rest
    let (having, rest) ← readHaving inner rest
    return (⟨table, aliasName, key, joins, filter, having⟩, rest)
  | _ => none

/-- Reads a comparison after its column. -/
def readComparison (column : ColumnRef) : Reads? Predicate
  | .symbol "BETWEEN" :: .slot low :: .symbol _ :: .slot high :: rest =>
    some (.between column low high, rest)
  | .symbol "ILIKE" :: .slot (.text pattern) :: rest => some (.like column pattern, rest)
  | .symbol "&&" :: .slot (.textArray values) :: rest =>
    some (.overlaps column values, rest.drop 4)
  | .symbol "IS" :: .symbol _ :: rest => some (.isNull column, rest)
  | .symbol "IN" :: .symbol _ :: .slot value :: rest =>
    (readValues rest).map fun (values, rest) => (.oneOf column (value :: values), rest)
  | .symbol "IN" :: .symbol _ :: .symbol _ :: .symbol _ :: rest =>
    (readSource inner rest).map fun (s, rest) => (.inSet column s, rest.drop 1)
  | .symbol "IN" :: .symbol _ :: .symbol _ :: rest =>
    (readSource inner rest).map fun (s, rest) => (.inSet column s, rest.drop 1)
  | .symbol "=" :: .slot value :: rest => some (.equals column value, rest)
  | .symbol operator :: .slot value :: rest =>
    (CompareOp.ofSymbol? operator).map fun op => (.compare column op value, rest)
  | _ => none

/-- Reads the parts of a connective after the first one, at most so many. -/
def readParts (separator : String) : Nat → Reads? (List Predicate)
  | 0, _ => none
  | bound + 1, .symbol text :: rest =>
    if text = separator then do
      let (part, rest) ← inner rest
      let (parts, rest) ← readParts separator bound rest
      return (part :: parts, rest)
    else some ([], rest)
  | _, _ => none

/-- Reads a predicate in parentheses after the opening one. An array that is compared with elements
in any order is no predicate up to its first sign. -/
def readGroup (bound : Nat) : Reads? Predicate := fun tokens =>
  match inner tokens with
  | some (first, .symbol "AND" :: rest) =>
    (readParts inner "AND" bound (.symbol "AND" :: rest)).map fun (parts, rest) =>
      (.all (first :: parts), rest)
  | some (first, .symbol "OR" :: rest) =>
    (readParts inner "OR" bound (.symbol "OR" :: rest)).map fun (parts, rest) =>
      (.any (first :: parts), rest)
  | some (first, rest) => some (.notTrue first, rest.drop 4)
  | none =>
    match tokens with
    | .name aliasName :: .symbol _ :: .name column :: .symbol _ :: .slot (.textArray values) ::
        rest => some (.sameElements ⟨aliasName, column⟩ values, rest.drop 15)
    | _ => none

/-- Reads a predicate, given how predicates inside it are read. -/
def readWith (bound : Nat) : Reads? Predicate
  | .symbol "TRUE" :: rest => some (.always, rest)
  | .symbol "FALSE" :: rest => some (.never, rest)
  | .symbol _ :: rest => readGroup inner bound rest
  | .name aliasName :: .symbol _ :: .name column :: rest =>
    readComparison inner ⟨aliasName, column⟩ rest
  | _ => none

end Reader

/-- Reads a predicate that holds others at most so many levels deep. -/
def readWithin : Nat → Reads? Predicate
  | 0 => fun _ => none
  | levels + 1 => readWith (readWithin levels) levels

/-! ## Reading gives back what was written -/

/-- The condition of a subquery with its keyword. -/
def filterPieces (filter : Predicate) : List SqlPiece :=
  if filter.isAlways then [] else .code " WHERE " :: filter.pieces

/-- Reading the tokens of a predicate gives the predicate back, whatever follows. -/
def Recovers (read : Reads? Predicate) (p : Predicate) : Prop :=
  ∀ rest, read (tokens p.pieces ++ rest) = some (p, rest)

/-- A reader that takes no test of arrays for containment for a predicate. -/
def RefusesContains (read : Reads? Predicate) : Prop :=
  ∀ aliasName column value rest, read (.name aliasName :: .symbol "." :: .name column ::
    .symbol "@>" :: .slot value :: rest) = none

/-- The keyword of a join stands for it. -/
theorem JoinKind.ofKeyword?_keyword (kind : JoinKind) : ofKeyword? kind.keyword = some kind := by
  cases kind <;> rfl

/-- The tokens of pieces with code between them. -/
theorem tokens_separated (separator : String) (first : List SqlPiece)
    (others : List (List SqlPiece)) :
    tokens (separated separator (first :: others)) =
      tokens first ++ others.flatMap fun pieces => tokens (.code separator :: pieces) := by
  induction others generalizing first with
  | nil => simp [separated]
  | cons second others ih =>
    rw [separated, tokens_append, tokens_cons, ih, List.flatMap_cons, tokens_cons,
      List.append_assoc]
    exact List.cons_ne_nil _ _

/-- The tokens of a join. -/
theorem JoinClause.tokens_eq (j : JoinClause) : tokens j.pieces =
    [.symbol j.kind.keyword, .symbol "JOIN", .name j.table, .symbol "AS", .name j.aliasName,
      .symbol "ON", .name j.aliasName, .symbol ".", .name j.onColumn, .symbol "=",
      .name j.other.aliasName, .symbol ".", .name j.other.column] := by
  have kind : codeSymbols j.kind.code = [j.kind.keyword, "JOIN"] := by
    cases j.kind <;> decide
  have code : codeSymbols " AS " = ["AS"] ∧ codeSymbols " ON " = ["ON"] ∧
      codeSymbols " = " = ["="] ∧ codeSymbols "." = ["."] := by
    decide
  simp [pieces, ColumnRef.pieces, tokens, SqlPiece.tokens, kind, code]

/-- The closing parenthesis is one token. -/
theorem tokens_closing : tokens [.code ")"] = [.symbol ")"] := by decide

/-- Values are read back. -/
theorem readValues_tokens (values : List Value) (rest : List (SqlToken Value)) :
    readValues ((values.map fun v => [.param v]).flatMap
      (fun pieces => tokens (.code ", " :: pieces)) ++ .symbol ")" :: rest) =
        some (values, rest) := by
  induction values with
  | nil => rfl
  | cons value values ih =>
    rw [List.map_cons, List.flatMap_cons, List.append_assoc]
    exact congrArg (Option.map _) ih

/-- A join is read back before others. -/
theorem readJoins_cons (j : JoinClause) (more : List (SqlToken Value)) :
    readJoins (tokens (.code " " :: j.pieces) ++ more) =
      (j :: (readJoins more).1, (readJoins more).2) := by
  have hspace : tokens (.code " " :: j.pieces) = tokens j.pieces := rfl
  have hkind := j.kind.ofKeyword?_keyword
  rw [hspace, j.tokens_eq]
  -- Only what the keyword stands for counts, not its characters.
  generalize j.kind.keyword = keyword at hkind
  simp only [List.cons_append, List.nil_append]
  rw [readJoins.eq_def]
  simp only [hkind]

/-- Joins are read back before a symbol that begins none. -/
theorem readJoins_tokens (joins : List JoinClause) {stop : String}
    (hstop : JoinKind.ofKeyword? stop = none) (rest : List (SqlToken Value)) :
    readJoins (tokens (joins.flatMap fun j => .code " " :: j.pieces) ++ .symbol stop :: rest) =
      (joins, .symbol stop :: rest) := by
  induction joins with
  | nil => simp [tokens, readJoins, hstop]
  | cons j joins ih =>
    rw [List.flatMap_cons, tokens_append, List.append_assoc, readJoins_cons, ih]

section Inner

variable {inner : Reads? Predicate} {bound : Nat}

/-- The parts of a connective after the first one are read back. -/
theorem readParts_tokens {separator symbol closing : String}
    (hsymbols : codeSymbols separator = [symbol]) (hclosing : closing ≠ symbol)
    {parts : List Predicate} (h : ∀ part ∈ parts, Recovers inner part)
    (hbound : parts.length < bound) (rest : List (SqlToken Value)) :
    readParts inner symbol bound ((parts.map Predicate.pieces).flatMap
      (fun pieces => tokens (.code separator :: pieces)) ++ .symbol closing :: rest) =
        some (parts, rest) := by
  induction parts generalizing bound with
  | nil =>
    obtain ⟨bound, rfl⟩ := Nat.exists_eq_succ_of_ne_zero (Nat.ne_zero_of_lt hbound)
    exact if_neg hclosing
  | cons part parts ih =>
    obtain ⟨bound, rfl⟩ := Nat.exists_eq_succ_of_ne_zero (Nat.ne_zero_of_lt hbound)
    obtain ⟨hpart, hparts⟩ := List.forall_mem_cons.1 h
    have hcode : tokens (.code separator :: part.pieces) =
        .symbol symbol :: tokens part.pieces := by
      show (codeSymbols separator).map SqlToken.symbol ++ _ = _
      rw [hsymbols]
      rfl
    have hrest := ih hparts (Nat.succ_lt_succ_iff.1 hbound)
    rw [List.map_cons, List.flatMap_cons, List.append_assoc, hcode, List.cons_append, readParts,
      if_pos rfl, hpart]
    exact congrArg (· >>= _) hrest

/-- A conjunction is read back after its parenthesis. -/
theorem readGroup_all {first second : Predicate} {others : List Predicate}
    (hfirst : Recovers inner first) (hothers : ∀ part ∈ second :: others, Recovers inner part)
    (hbound : (second :: others).length < bound) (rest : List (SqlToken Value)) :
    readGroup inner bound (tokens first.pieces ++
      (((second :: others).map Predicate.pieces).flatMap
        (fun pieces => tokens (.code " AND " :: pieces)) ++ .symbol ")" :: rest)) =
      some (.all (first :: second :: others), rest) := by
  have hsymbol : codeSymbols " AND " = ["AND"] := by decide
  have hparts := readParts_tokens hsymbol (show ")" ≠ "AND" by decide) hothers hbound rest
  unfold readGroup
  rw [hfirst]
  exact congrArg (Option.map _) hparts

/-- A disjunction is read back after its parenthesis. -/
theorem readGroup_any {first second : Predicate} {others : List Predicate}
    (hfirst : Recovers inner first) (hothers : ∀ part ∈ second :: others, Recovers inner part)
    (hbound : (second :: others).length < bound) (rest : List (SqlToken Value)) :
    readGroup inner bound (tokens first.pieces ++
      (((second :: others).map Predicate.pieces).flatMap
        (fun pieces => tokens (.code " OR " :: pieces)) ++ .symbol ")" :: rest)) =
      some (.any (first :: second :: others), rest) := by
  have hsymbol : codeSymbols " OR " = ["OR"] := by decide
  have hparts := readParts_tokens hsymbol (show ")" ≠ "OR" by decide) hothers hbound rest
  unfold readGroup
  rw [hfirst]
  exact congrArg (Option.map _) hparts

/-- A condition on the rows of a key is read back before the end of its subquery. -/
theorem readHaving_tokens {having : Having} (h : ∀ p, having = .noneMatch p → Recovers inner p)
    (key : ColumnRef) (rest : List (SqlToken Value)) :
    readHaving inner (tokens (having.pieces key.pieces) ++ .symbol ")" :: rest) =
      some (having, .symbol ")" :: rest) := by
  cases having with
  | absent => rfl
  | noneMatch p =>
    have hread := h p rfl (tokens [.code "), FALSE) = FALSE"] ++ .symbol ")" :: rest)
    rw [Having.pieces, tokens_append, List.append_assoc]
    exact congrArg (Option.map _) hread
  | count column op n => cases op <;> rfl

/-- The condition on the rows of a key, and what ends its subquery, begin with one of two
symbols. -/
theorem having_head (having : Having) (key : ColumnRef) (rest : List (SqlToken Value)) :
    ∃ stop more, tokens (having.pieces key.pieces) ++ .symbol ")" :: rest = .symbol stop :: more ∧
      (stop = ")" ∨ stop = "GROUP") := by
  cases having with
  | absent => exact ⟨")", rest, rfl, .inl rfl⟩
  | noneMatch p => exact ⟨"GROUP", _, rfl, .inr rfl⟩
  | count column op n => exact ⟨"GROUP", _, rfl, .inr rfl⟩

/-- The condition of a subquery is read back before another keyword. -/
theorem readFilter_tokens {filter : Predicate} (h : Recovers inner filter) {stop : String}
    (hstop : stop ≠ "WHERE") (more : List (SqlToken Value)) :
    readFilter inner (tokens (filterPieces filter) ++ .symbol stop :: more) =
      some (filter, .symbol stop :: more) := by
  unfold filterPieces
  split
  · next halways =>
    have hfilter : filter = .always := by
      cases filter <;> first | rfl | cases halways
    rw [hfilter]
    exact readFilter.eq_2 inner _ fun _ he => hstop (SqlToken.symbol.inj (List.cons.inj he).1)
  · exact h (.symbol stop :: more)

/-- What follows the joins of a subquery begins with no join. -/
theorem filter_head (filter : Predicate) {stop : String}
    (hstop : JoinKind.ofKeyword? stop = none) (more : List (SqlToken Value)) :
    ∃ keyword rest, tokens (filterPieces filter) ++ .symbol stop :: more =
      .symbol keyword :: rest ∧ JoinKind.ofKeyword? keyword = none := by
  unfold filterPieces
  split
  · exact ⟨stop, more, rfl, hstop⟩
  · exact ⟨"WHERE", tokens filter.pieces ++ .symbol stop :: more, rfl, rfl⟩

/-- The tokens of a subquery. -/
theorem Subquery.tokens_eq (s : Subquery) : tokens s.pieces =
    .symbol "SELECT" :: (tokens s.having.selection ++ .name s.aliasName :: .symbol "." ::
      .name s.key :: .symbol "FROM" :: .name s.table :: .symbol "AS" :: .name s.aliasName ::
      (tokens (s.joins.flatMap fun j => .code " " :: j.pieces) ++
        (tokens (filterPieces s.filter) ++ tokens (s.having.pieces s.keyColumn.pieces)))) := by
  obtain ⟨table, aliasName, key, joins, filter, having⟩ := s
  have code : codeSymbols "SELECT " = ["SELECT"] ∧ codeSymbols "." = ["."] ∧
      codeSymbols " FROM " = ["FROM"] ∧ codeSymbols " AS " = ["AS"] := by
    decide
  simp [Subquery.pieces, keyColumn, ColumnRef.pieces, tokens_append, tokens_cons, SqlPiece.tokens,
    code, filterPieces]

/-- A subquery is read back before the end of its parentheses. -/
theorem readSource_tokens {s : Subquery} (hfilter : Recovers inner s.filter)
    (hhaving : ∀ p, s.having = .noneMatch p → Recovers inner p) (rest : List (SqlToken Value)) :
    readSource inner (.name s.aliasName :: .symbol "." :: .name s.key :: .symbol "FROM" ::
      .name s.table :: .symbol "AS" :: .name s.aliasName ::
      (tokens (s.joins.flatMap fun j => .code " " :: j.pieces) ++ (tokens (filterPieces s.filter) ++
        (tokens (s.having.pieces s.keyColumn.pieces) ++ .symbol ")" :: rest)))) =
      some (s, .symbol ")" :: rest) := by
  have hrows := readHaving_tokens hhaving s.keyColumn rest
  obtain ⟨stop, more, hhead, hstop⟩ := having_head s.having s.keyColumn rest
  have hwhere : stop ≠ "WHERE" ∧ JoinKind.ofKeyword? stop = none := by
    rcases hstop with rfl | rfl <;> decide
  rw [hhead] at hrows ⊢
  have hcondition := readFilter_tokens hfilter hwhere.1 more
  obtain ⟨keyword, others, hsource, hkeyword⟩ := filter_head s.filter hwhere.2 more
  rw [hsource] at hcondition ⊢
  rw [readSource, readJoins_tokens s.joins hkeyword]
  simp only [hcondition, hrows, Option.bind_eq_bind, Option.bind_some]
  cases s
  rfl

/-- A test for the keys of a subquery is read back after its column. -/
theorem readComparison_inSet {s : Subquery} (hfilter : Recovers inner s.filter)
    (hhaving : ∀ p, s.having = .noneMatch p → Recovers inner p) (column : ColumnRef)
    (rest : List (SqlToken Value)) :
    readComparison inner column (.symbol "IN" :: .symbol "(" ::
      (tokens s.pieces ++ .symbol ")" :: rest)) = some (.inSet column s, rest) := by
  have hsource := readSource_tokens hfilter hhaving rest
  rw [s.tokens_eq]
  simp only [List.cons_append, List.append_assoc]
  -- Keys are selected distinct where there is no condition on their rows.
  cases hselection : s.having with
  | absent | noneMatch _ | count _ _ _ =>
    rw [hselection] at hsource
    exact congrArg (Option.map _) hsource

/-- Two comparisons of arrays are read back, if the first one is no predicate. -/
theorem recovers_sameElements (hcontains : RefusesContains inner) (column : ColumnRef)
    (values : List String) :
    Recovers (readWith inner bound) (.sameElements column values) := by
  intro rest
  have hcodes : codeSymbols "(" = ["("] ∧ codeSymbols "." = ["."] ∧
      codeSymbols " @> " = ["@>"] := by
    decide
  let after := tokens (.code "::text[] AND " :: (column.pieces ++
    [.code " <@ ", .param (.textArray values), .code "::text[])"]))
  have htokens : tokens (Predicate.sameElements column values).pieces ++ rest = .symbol "(" ::
      .name column.aliasName :: .symbol "." :: .name column.column :: .symbol "@>" ::
      .slot (.textArray values) :: (after ++ rest) := by
    simp [Predicate.pieces, ColumnRef.pieces, tokens, SqlPiece.tokens, hcodes, after]
  have hlength : after.length = 15 := rfl
  rw [htokens]
  show readGroup inner bound _ = _
  unfold readGroup
  rw [hcontains]
  simp [List.drop_left' hlength]

/-- A list of values is read back after its column. -/
theorem recovers_oneOf (column : ColumnRef) (value : Value) (values : List Value) :
    Recovers (readWith inner bound) (.oneOf column (value :: values)) := by
  intro rest
  rw [Predicate.pieces, tokens_append, tokens_append, tokens_cons, List.map_cons, tokens_separated,
    tokens_closing]
  simp only [List.append_assoc]
  exact congrArg (Option.map _) (readValues_tokens values rest)

/-- A plain comparison is read back. -/
theorem recovers_comparison {a : Predicate} {column : ColumnRef}
    (hcol : a.comparison? = some column) (hplain : a.isPlain = true)
    (hcontains : RefusesContains inner) : Recovers (readWith inner bound) a := by
  cases a <;> cases hcol
  case equals | between | like | overlaps => exact fun _ => rfl
  case compare op value =>
    cases op
    case eq => cases hplain
    all_goals exact fun _ => rfl
  case oneOf values =>
    cases values with
    | nil => cases hplain
    | cons value values => exact recovers_oneOf column value values
  case sameElements values => exact recovers_sameElements hcontains column values

/-- The tokens of a connective after the first parenthesis. -/
theorem tokens_connective (separator : String) (first : Predicate) (others : List Predicate)
    (rest : List (SqlToken Value)) :
    tokens (.code "(" :: separated separator (piecesOfParts (first :: others)) ++ [.code ")"]) ++
      rest = tokens [.code "("] ++ (tokens first.pieces ++ ((others.map Predicate.pieces).flatMap
        (fun pieces => tokens (.code separator :: pieces)) ++ .symbol ")" :: rest)) := by
  rw [piecesOfParts_eq, List.map_cons, tokens_append, tokens_cons, tokens_separated, tokens_closing]
  simp [tokens]

/-- A list of predicates has fewer members than its size. -/
theorem length_lt_sizeOf (parts : List Predicate) : parts.length < sizeOf parts := by
  induction parts with
  | nil => simp
  | cons part parts ih =>
    rw [List.length_cons, List.cons.sizeOf_spec]
    omega

/-- The conditions of a subquery are smaller than the test for its keys. -/
theorem sizeOf_lt_inSet (column : ColumnRef) (s : Subquery) :
    sizeOf s.filter < sizeOf (Predicate.inSet column s) ∧
      ∀ p, s.having = .noneMatch p → sizeOf p < sizeOf (Predicate.inSet column s) := by
  obtain ⟨table, aliasName, key, joins, filter, having⟩ := s
  rw [Predicate.inSet.sizeOf_spec, Subquery.mk.sizeOf_spec]
  refine ⟨by dsimp only; omega, ?_⟩
  rintro p rfl
  rw [Having.noneMatch.sizeOf_spec]
  omega

/-- The parts of a canonical connective are read back if all smaller predicates are. -/
theorem recovers_parts {first : Predicate} {others : List Predicate}
    (hparts : ∀ part ∈ first :: others, part.Canonical)
    (hinner : ∀ q : Predicate, q.Canonical → sizeOf q < 1 + sizeOf (first :: others) →
      Recovers inner q) (hbound : 1 + sizeOf (first :: others) ≤ bound + 1) :
    Recovers inner first ∧ (∀ part ∈ others, Recovers inner part) ∧ others.length < bound := by
  have hread : ∀ part ∈ first :: others, Recovers inner part := by
    intro part hpart
    exact hinner part (hparts part hpart) (Nat.lt_add_left 1 (List.sizeOf_lt_of_mem hpart))
  have hlength := length_lt_sizeOf others
  rw [List.cons.sizeOf_spec] at hbound
  obtain ⟨hfirst, hothers⟩ := List.forall_mem_cons.1 hread
  exact ⟨hfirst, hothers, by omega⟩

/-- A canonical predicate is read back if all smaller ones are. -/
theorem recovers_readWith {p : Predicate} (h : p.Canonical)
    (hinner : ∀ q : Predicate, q.Canonical → sizeOf q < sizeOf p → Recovers inner q)
    (hbound : sizeOf p ≤ bound + 1)
    (hcontains : RefusesContains inner) : Recovers (readWith inner bound) p := by
  cases h with
  | always | never | isNull => exact fun _ => rfl
  | comparison hcol hplain => exact recovers_comparison hcol hplain hcontains
  | all hparts =>
    rw [Predicate.all.sizeOf_spec] at hinner hbound
    obtain ⟨hfirst, hothers, hlength⟩ := recovers_parts hparts hinner hbound
    intro rest
    rw [Predicate.pieces, tokens_connective]
    exact readGroup_all hfirst hothers hlength rest
  | any hparts =>
    rw [Predicate.any.sizeOf_spec] at hinner hbound
    obtain ⟨hfirst, hothers, hlength⟩ := recovers_parts hparts hinner hbound
    intro rest
    rw [Predicate.pieces, tokens_connective]
    exact readGroup_any hfirst hothers hlength rest
  | @notTrue part hpart =>
    have hpart := hinner part hpart (by simp)
    intro rest
    rw [Predicate.pieces, tokens_append, tokens_cons, List.append_assoc, List.append_assoc]
    show readGroup inner bound (tokens part.pieces ++ _) = _
    unfold readGroup
    rw [hpart]
    rfl
  | @inSet column s hfilter hhaving =>
    obtain ⟨hless, hhavingLess⟩ := sizeOf_lt_inSet column s
    intro rest
    rw [Predicate.pieces, tokens_append, tokens_append, tokens_cons, tokens_closing]
    simp only [List.append_assoc]
    exact readComparison_inSet (hinner s.filter hfilter hless)
      (fun p hp => hinner p (hhaving p hp) (hhavingLess p hp)) column rest

end Inner

/-- A canonical predicate is read back within as many levels as its size. -/
theorem recovers_readWithin (levels : Nat) {p : Predicate} (h : p.Canonical)
    (hlevels : sizeOf p ≤ levels) : Recovers (readWithin levels) p := by
  induction levels generalizing p with
  | zero => cases p <;> simp at hlevels
  | succ levels ih =>
    refine recovers_readWith h (fun q hq hless => ih hq (by omega)) hlevels ?_
    intro a c v rest
    cases levels <;> rfl

/-- Canonical predicates with the same tokens are equal. -/
theorem Predicate.Canonical.eq_of_tokens {p q : Predicate} (hp : p.Canonical) (hq : q.Canonical)
    (h : tokens p.pieces = tokens q.pieces) : p = q := by
  have hread := recovers_readWithin (max (sizeOf p) (sizeOf q)) hp (le_max_left _ _) []
  rw [h, recovers_readWithin (max (sizeOf p) (sizeOf q)) hq (le_max_right _ _) []] at hread
  cases hread
  rfl

/-- Canonical predicates with one text and the same values are equal. -/
theorem Predicate.Canonical.eq_of_render {p q : Predicate} (hp : p.Canonical) (hq : q.Canonical)
    (htext : p.text = q.text) (hparams : p.params = q.params) : p = q :=
  hp.eq_of_tokens hq (tokens_inj p.legible q.legible htext hparams)

/-- Joins with one text are equal. -/
theorem JoinClause.eq_of_text {j k : JoinClause} (h : j.text = k.text) : j = k := by
  have hstop : JoinKind.ofKeyword? ")" = none := rfl
  have htokens : tokens ([j].flatMap fun j => .code " " :: j.pieces) =
      tokens ([k].flatMap fun j => .code " " :: j.pieces) := by
    rw [List.flatMap_singleton, List.flatMap_singleton, tokens_cons, tokens_cons,
      tokens_inj j.legible k.legible h rfl]
  have hread := readJoins_tokens [j] hstop []
  rw [htokens, readJoins_tokens [k] hstop []] at hread
  cases hread
  rfl

end RowScope
