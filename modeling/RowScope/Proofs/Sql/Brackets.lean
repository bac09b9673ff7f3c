import RowScope.Proofs.Sql.Unambiguous

/-!
# Parentheses with something between them

The parentheses in the text of a normal predicate come in pairs, and something stands between those
of each pair (`Predicate.Normal.bracketed`): an opening parenthesis is never followed by a closing
one (`Bracketed.not_adjacent`). The parentheses of names in quotes are no tokens and do not count.
-/

namespace RowScope

/-- Whether a token is no parenthesis. -/
def SqlToken.isFree {α : Type} : SqlToken α → Bool
  | symbol text => text ≠ "(" && text ≠ ")"
  | name _ | slot _ => true

/-- Some tokens, at least one, whose parentheses come in pairs with something between them. -/
inductive Bracketed {α : Type} : List (SqlToken α) → Prop
  | one {t : SqlToken α} : t.isFree = true → Bracketed [t]
  | group {ts : List (SqlToken α)} :
    Bracketed ts → Bracketed (.symbol "(" :: ts ++ [.symbol ")"])
  | append {ts us : List (SqlToken α)} : Bracketed ts → Bracketed us → Bracketed (ts ++ us)

/-- A text without an empty pair of parentheses: it splits into tokens, and no closing parenthesis
stands next after an opening one. -/
def FilledParentheses (text : String) : Prop :=
  ∃ tokens, Lexer.lex text = some tokens ∧ ¬ [.symbol "(", .symbol ")"] <:+: tokens

namespace Bracketed

section Tokens

variable {α : Type} {ts us : List (SqlToken α)}

/-- Tokens without parentheses may stand before others. -/
theorem before (hts : ts.all SqlToken.isFree = true) (h : Bracketed us) : Bracketed (ts ++ us) := by
  induction ts with
  | nil => exact h
  | cons t ts ih =>
    obtain ⟨ht, hts⟩ := Bool.and_eq_true_iff.1 hts
    have hone : Bracketed [t] := .one ht
    exact hone.append (ih hts)

/-- Tokens without parentheses, at least one, have no parentheses to be paired. -/
theorem free (hsome : ts ≠ []) (hts : ts.all SqlToken.isFree = true) : Bracketed ts := by
  obtain ⟨front, last, rfl⟩ := (List.eq_nil_or_concat' ts).resolve_left hsome
  rw [List.all_append, Bool.and_eq_true_iff, List.all_eq_true (l := [last])] at hts
  exact .before hts.1 (.one (hts.2 last (List.mem_singleton_self last)))

/-- More tokens may follow, or none. -/
theorem followed (h : Bracketed ts) (hus : us = [] ∨ Bracketed us) : Bracketed (ts ++ us) := by
  rcases hus with rfl | hus
  · rwa [List.append_nil]
  · exact h.append hus

/-- Tokens without parentheses may follow. -/
theorem after (h : Bracketed ts) (hus : us.all SqlToken.isFree = true) : Bracketed (ts ++ us) := by
  apply h.followed
  by_cases hnil : us = []
  · exact .inl hnil
  · exact .inr (.free hnil hus)

/-- Paired parentheses do not begin with a closing one nor end with an opening one, and nowhere in
between does one follow the other. -/
theorem borders (h : Bracketed ts) :
    ts ≠ [] ∧ (∀ t ∈ ts.head?, t ≠ .symbol ")") ∧ (∀ t ∈ ts.getLast?, t ≠ .symbol "(") ∧
      ts.IsChain fun t u => ¬ (t = .symbol "(" ∧ u = .symbol ")") := by
  induction h with
  | @one t ht =>
    have hne : t ≠ .symbol ")" ∧ t ≠ .symbol "(" := by
      constructor <;> rintro rfl <;> cases ht
    simpa using hne
  | @group ts _ ih =>
    obtain ⟨hnil, hhead, hlast, hchain⟩ := ih
    refine ⟨List.cons_ne_nil _ _, by simp, ?_, ?_⟩
    · rw [List.getLast?_concat]
      simp
    rw [List.cons_append, ← List.singleton_append, List.isChain_append]
    refine ⟨.singleton _, List.isChain_append.2 ⟨hchain, .singleton _, ?_⟩, ?_⟩
    · exact fun t ht u _ hempty => hlast t ht hempty.1
    · rw [List.head?_append_of_ne_nil _ hnil]
      exact fun t _ u hu hempty => hhead u hu hempty.2
  | @append ts us _ _ ihts ihus =>
    obtain ⟨hts, htshead, htslast, htschain⟩ := ihts
    obtain ⟨hus, hushead, huslast, huschain⟩ := ihus
    rw [List.head?_append_of_ne_nil _ hts, List.getLast?_append_of_ne_nil _ hus]
    refine ⟨List.append_ne_nil_of_left_ne_nil hts us, htshead, huslast,
      List.isChain_append.2 ⟨htschain, huschain, ?_⟩⟩
    exact fun t ht u _ hempty => htslast t ht hempty.1

/-- In paired parentheses no closing one follows an opening one. -/
theorem not_adjacent (h : Bracketed ts) : ¬ [.symbol "(", .symbol ")"] <:+: ts := by
  rintro ⟨front, back, rfl⟩
  obtain ⟨-, -, -, hchain⟩ := h.borders
  have hpair := (List.isChain_append.1 (List.isChain_append.1 hchain).1).2.1
  exact (List.isChain_cons_cons.1 hpair).1 ⟨rfl, rfl⟩

end Tokens

/-- Numbers in the places of values change no parenthesis. -/
theorem numberedFrom {ts : List (SqlToken Value)} (h : Bracketed ts) (bound : Nat) :
    Bracketed (numberedFrom bound ts) := by
  induction h generalizing bound with
  | @one t ht =>
    cases t with
    | name text => exact .one rfl
    | slot value => exact .one rfl
    | symbol text => exact .one ht
  | @group ts _ ih =>
    rw [numberedFrom_append]
    exact .group (ih bound)
  | append _ _ ihts ihus =>
    rw [numberedFrom_append]
    exact .append (ihts bound) (ihus _)

/-! ## Pieces -/

/-- Pieces between parentheses, which other code may stand next to. -/
theorem enclosed {opening closing : String} {pieces : List SqlPiece} {front back : List String}
    (hopening : codeSymbols opening = front ++ ["("]) (hclosing : codeSymbols closing = ")" :: back)
    (hfront : (front.map (SqlToken.symbol (α := Value))).all SqlToken.isFree = true)
    (hback : (back.map (SqlToken.symbol (α := Value))).all SqlToken.isFree = true)
    (h : Bracketed (tokens pieces)) :
    Bracketed (tokens (.code opening :: pieces ++ [.code closing])) := by
  have htokens : tokens (.code opening :: pieces ++ [.code closing]) =
      front.map .symbol ++ (.symbol "(" :: tokens pieces ++ [.symbol ")"] ++ back.map .symbol) := by
    simp [tokens, SqlPiece.tokens, hopening, hclosing]
  rw [htokens]
  exact .before hfront (h.group.after hback)

/-- Pieces with something between them that is no parenthesis. -/
theorem separated {separator : String} (hseparator : Bracketed (tokens [.code separator]))
    {parts : List (List SqlPiece)} (hsome : parts ≠ [])
    (h : ∀ pieces ∈ parts, Bracketed (tokens pieces)) :
    Bracketed (tokens (separated separator parts)) := by
  fun_induction RowScope.separated separator parts with
  | case1 => exact absurd rfl hsome
  | case2 pieces => exact h pieces (List.mem_singleton_self pieces)
  | case3 pieces rest hrest ih =>
    obtain ⟨hpieces, hothers⟩ := List.forall_mem_cons.1 h
    have hne : rest ≠ [] := by
      rintro rfl
      exact hrest rfl
    rw [tokens_append, ← List.singleton_append, tokens_append]
    exact hpieces.append (hseparator.append (ih hne hothers))

end Bracketed

/-- The text of legible pieces has no empty pair of parentheses if the parentheses of their tokens
are around something. -/
theorem Legible.filledParentheses {pieces : List SqlPiece} (h : Legible pieces)
    (hpieces : Bracketed (tokens pieces)) : FilledParentheses (render pieces) := by
  refine ⟨numberedFrom 0 (tokens pieces), ?_, (hpieces.numberedFrom 0).not_adjacent⟩
  rw [render, Lexer.lex, String.toList_ofList, lexFrom_renderFrom h]

/-! ## Predicates -/

/-- A column has no parentheses. -/
theorem ColumnRef.bracketed (c : ColumnRef) : Bracketed (tokens c.pieces) :=
  .free (List.cons_ne_nil _ _) rfl

/-- A join has no parentheses. -/
theorem JoinClause.isFree_tokens (j : JoinClause) :
    (tokens j.pieces).all SqlToken.isFree = true := by
  rw [j.tokens_eq]
  cases j.kind <;> rfl

/-- Joins have no parentheses. -/
theorem isFree_joins (joins : List JoinClause) :
    (tokens (joins.flatMap fun j => .code " " :: j.pieces)).all SqlToken.isFree = true := by
  induction joins with
  | nil => rfl
  | cons j joins ih =>
    rw [List.flatMap_cons, tokens_append, List.all_append, ih, Bool.and_true]
    exact j.isFree_tokens

/-- The text of a join has no empty pair of parentheses. -/
theorem JoinClause.filledParentheses (j : JoinClause) : FilledParentheses j.text := by
  refine j.legible.filledParentheses (.free ?_ j.isFree_tokens)
  rw [j.tokens_eq]
  exact List.cons_ne_nil _ _

namespace Predicate

/-- A normal leaf has its parentheses around something. -/
theorem bracketed_leaf {a : Predicate} (hleaf : a.isLeaf = true) (h : a.hasOperands = true) :
    Bracketed (tokens a.pieces) := by
  cases a with
  | always | never | equals _ _ | between _ _ _ | like _ _ | overlaps _ _ | isNull _ =>
    exact .free (List.cons_ne_nil _ _) rfl
  | compare _ op _ => cases op <;> exact .free (List.cons_ne_nil _ _) rfl
  | oneOf column values =>
    cases values with
    | nil => cases h
    | cons value values =>
      have hcodes : codeSymbols " IN (" = ["IN"] ++ ["("] ∧ codeSymbols ")" = [")"] := by decide
      have hcomma : Bracketed (tokens [.code ", "]) := .one rfl
      have hvalues : Bracketed (tokens (RowScope.separated ", "
          ((value :: values).map fun v => [.param v]))) :=
        .separated hcomma (List.cons_ne_nil _ _) (List.forall_mem_map.2 fun _ _ => .one rfl)
      rw [Predicate.pieces, List.append_assoc, tokens_append]
      exact column.bracketed.append (.enclosed hcodes.1 hcodes.2 rfl rfl hvalues)
  | sameElements column values =>
    have htokens : tokens (sameElements column values).pieces = .symbol "(" ::
        tokens (column.pieces ++ [.code " @> ", .param (.textArray values),
          .code "::text[] AND "] ++ column.pieces ++
          [.code " <@ ", .param (.textArray values), .code "::text[]"]) ++ [.symbol ")"] := rfl
    rw [htokens]
    exact .group (.free (List.cons_ne_nil _ _) rfl)
  | all _ | any _ | notTrue _ | inSet _ _ => cases hleaf

/-- A connective of two parts or more has its parentheses around its parts. -/
theorem bracketed_connective {separator symbol : String}
    (hsymbol : codeSymbols separator = [symbol])
    (hfree : (SqlToken.symbol (α := Value) symbol).isFree = true) {parts : List Predicate}
    (hlength : 2 ≤ parts.length) (h : ∀ part ∈ parts, Bracketed (tokens part.pieces)) :
    Bracketed (tokens
      (.code "(" :: RowScope.separated separator (piecesOfParts parts) ++ [.code ")"])) := by
  have hcodes : codeSymbols "(" = [] ++ ["("] ∧ codeSymbols ")" = [")"] := by decide
  have hseparator : Bracketed (tokens [.code separator]) := by
    show Bracketed ((codeSymbols separator).map SqlToken.symbol ++ [])
    rw [hsymbol]
    exact .one hfree
  have hsome : parts ≠ [] := List.ne_nil_of_length_pos (Nat.zero_lt_of_lt hlength)
  refine .enclosed hcodes.1 hcodes.2 rfl rfl (.separated hseparator ?_ ?_)
  · rw [piecesOfParts_eq]
    exact mt List.map_eq_nil_iff.1 hsome
  · rw [piecesOfParts_eq]
    exact List.forall_mem_map.2 h

/-- That no row of a key meets a condition has its parentheses around something. -/
theorem bracketed_noneMatch {p : Predicate} (h : Bracketed (tokens p.pieces)) :
    Bracketed (tokens (.code " HAVING COALESCE(BOOL_OR(" :: p.pieces ++
      [.code "), FALSE) = FALSE"])) := by
  have hopening : codeSymbols " HAVING COALESCE(BOOL_OR(" =
      ["HAVING", "COALESCE", "(", "BOOL_OR", "("] := by
    decide
  have hclosing : codeSymbols "), FALSE) = FALSE" = [")", ",", "FALSE", ")", "=", "FALSE"] := by
    decide
  have hinner : Bracketed (.symbol "BOOL_OR" :: ((.symbol "(" :: tokens p.pieces ++
      [.symbol ")"]) ++ [.symbol ",", .symbol "FALSE"])) :=
    .append (.one rfl) (h.group.after rfl)
  have houter : Bracketed (([.symbol "HAVING", .symbol "COALESCE"] : List (SqlToken Value)) ++
      ((.symbol "(" :: _ ++ [.symbol ")"]) ++ [.symbol "=", .symbol "FALSE"])) :=
    .before rfl (hinner.group.after rfl)
  rw [List.cons_append, ← List.singleton_append, tokens_append, tokens_append]
  simpa [tokens, SqlPiece.tokens, hopening, hclosing] using houter

/-- A count of the values of a key has its parentheses around the column. -/
theorem bracketed_count (column : ColumnRef) (op : CompareOp) (n : Int64) :
    Bracketed (tokens (.code " HAVING COUNT(DISTINCT " :: column.pieces ++
      [.code ") ", .code op.symbol, .code " ", .param (.int n)])) := by
  have hopening : codeSymbols " HAVING COUNT(DISTINCT " = ["HAVING", "COUNT", "(", "DISTINCT"] := by
    decide
  have hclosing : codeSymbols ") " = [")"] ∧ codeSymbols " " = [] := by decide
  have hop : codeSymbols op.symbol = [op.symbol] := by cases op <;> decide
  have hcolumn : Bracketed (.symbol "DISTINCT" :: tokens column.pieces) :=
    .append (.one rfl) column.bracketed
  have hnumber : ([.symbol op.symbol, .slot (.int n)] : List (SqlToken Value)).all
      SqlToken.isFree = true := by
    cases op <;> rfl
  have hcount : Bracketed (([.symbol "HAVING", .symbol "COUNT"] : List (SqlToken Value)) ++ _) :=
    .before rfl (hcolumn.group.after hnumber)
  rw [List.cons_append, ← List.singleton_append, tokens_append, tokens_append]
  simpa [tokens, SqlPiece.tokens, hopening, hclosing, hop] using hcount

/-- The condition of a subquery on the rows of a key has its parentheses around something. -/
theorem bracketed_having {having : Having} (key : ColumnRef)
    (h : ∀ p, having = .noneMatch p → Bracketed (tokens p.pieces)) :
    tokens (having.pieces key.pieces) = [] ∨ Bracketed (tokens (having.pieces key.pieces)) := by
  have hgroups : Bracketed (tokens (.code " GROUP BY " :: key.pieces)) :=
    .append (.free (List.cons_ne_nil _ _) rfl) key.bracketed
  cases having with
  | absent => exact .inl rfl
  | noneMatch p =>
    right
    rw [Having.pieces, List.append_assoc, tokens_append]
    exact hgroups.append (bracketed_noneMatch (h p rfl))
  | count column op n =>
    right
    rw [Having.pieces, List.append_assoc, tokens_append]
    exact hgroups.append (bracketed_count column op n)

/-- The condition of a subquery, if it has one, has its parentheses around something. -/
theorem bracketed_filter {filter : Predicate}
    (h : filter = .always ∨ Bracketed (tokens filter.pieces)) :
    tokens (filterPieces filter) = [] ∨ Bracketed (tokens (filterPieces filter)) := by
  unfold filterPieces
  split
  · exact .inl rfl
  · next hnot =>
    rcases h with rfl | h
    · exact absurd rfl hnot
    · exact .inr (.append (.one rfl) h)

/-- A subquery whose conditions have their parentheses around something has so itself. -/
theorem bracketed_subquery {s : Subquery}
    (hfilter : s.filter = .always ∨ Bracketed (tokens s.filter.pieces))
    (hhaving : ∀ p, s.having = .noneMatch p → Bracketed (tokens p.pieces)) :
    Bracketed (tokens s.pieces) := by
  have hhead : Bracketed (.symbol "SELECT" :: (tokens s.having.selection ++
      [.name s.aliasName, .symbol ".", .name s.key, .symbol "FROM", .name s.table, .symbol "AS",
        .name s.aliasName])) := by
    cases s.having <;> exact .free (List.cons_ne_nil _ _) rfl
  have hrows := (hhead.after (isFree_joins s.joins)).followed (bracketed_filter hfilter)
  have hsource := hrows.followed (bracketed_having s.keyColumn hhaving)
  rw [s.tokens_eq]
  simpa using hsource

/-- A normal predicate has its parentheses around something. -/
theorem Normal.bracketed {p : Predicate} (h : p.Normal) : Bracketed (tokens p.pieces) := by
  induction p using nested_induction with
  | leaf a hleaf => exact bracketed_leaf hleaf h.self
  | all parts ih =>
    have hand : codeSymbols " AND " = ["AND"] := by decide
    obtain ⟨hoperands, hparts⟩ := everywhere_all.1 h
    exact bracketed_connective hand rfl (of_decide_eq_true hoperands) fun part hpart =>
      ih part hpart (hparts part hpart)
  | any parts ih =>
    have hor : codeSymbols " OR " = ["OR"] := by decide
    obtain ⟨hoperands, hparts⟩ := everywhere_any.1 h
    exact bracketed_connective hor rfl (of_decide_eq_true hoperands) fun part hpart =>
      ih part hpart (hparts part hpart)
  | notTrue part ih =>
    have hcodes : codeSymbols "(" = [] ++ ["("] ∧
        codeSymbols ") IS NOT TRUE" = ")" :: ["IS", "NOT", "TRUE"] := by
      decide
    exact .enclosed hcodes.1 hcodes.2 rfl rfl (ih (everywhere_notTrue.1 h).2)
  | inSet column s hfilter hhaving =>
    have hcodes : codeSymbols " IN (" = ["IN"] ++ ["("] ∧ codeSymbols ")" = [")"] := by decide
    obtain ⟨-, hwhere, hrows⟩ := everywhere_inSet.1 h
    have hsubquery := bracketed_subquery (hwhere.imp_right hfilter) fun q hq =>
      hhaving q hq (hrows q hq)
    rw [Predicate.pieces, List.append_assoc, tokens_append]
    exact column.bracketed.append (.enclosed hcodes.1 hcodes.2 rfl rfl hsubquery)

/-- The text of a normal predicate has no empty pair of parentheses. -/
theorem Normal.filledParentheses {p : Predicate} (h : p.Normal) : FilledParentheses p.text :=
  p.legible.filledParentheses h.bracketed

end Predicate

end RowScope
