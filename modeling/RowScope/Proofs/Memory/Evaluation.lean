import RowScope.Memory.Database
import RowScope.Proofs.Sql.Atom
import RowScope.Proofs.Traversal

/-!
# Evaluation of predicates

A joined row meets a predicate if the predicate evaluates to true there. Evaluation goes by the
atoms: a predicate evaluates if its atoms do, and two rows with the same values in its columns give
it the same truth (`truth_congr`). The simplifying constructors mean the plain connectives, unknown
parts included (`truth_conj`, `truth_disj`, `truth_negate`).
-/

namespace RowScope

/-! ## Three truth values -/

namespace Truth

/-- What a connective of truths comes to is a matter of which truths there are: the one that
decides, else an unknown one, else the other. -/
theorem settle_eq (deciding unknown : Bool) (ts : List Truth) :
    settle deciding unknown ts =
      if some deciding ∈ ts then some deciding
      else if unknown = true ∨ none ∈ ts then none
      else some !deciding := by
  induction ts generalizing unknown with
  | nil => simp [settle]
  | cons t rest ih =>
    cases t with
    | none => simp [settle, ih]
    | some b =>
      by_cases hb : b = deciding
      · simp [settle, hb]
      · simp [settle, hb, Ne.symm hb, ih]

/-- A conjunction is false if a part is, else unknown if a part is, else true. -/
theorem all_eq (ts : List Truth) :
    all ts = if some false ∈ ts then some false else if none ∈ ts then none else some true := by
  simp [all, settle_eq]

/-- A disjunction is true if a part is, else unknown if a part is, else false. -/
theorem any_eq (ts : List Truth) :
    any ts = if some true ∈ ts then some true else if none ∈ ts then none else some false := by
  simp [any, settle_eq]

/-- A conjunction is true if all its parts are. -/
theorem all_eq_true {ts : List Truth} : all ts = some true ↔ ∀ t ∈ ts, t = some true := by
  rw [all_eq]
  split
  · next h => exact iff_of_false (by decide) fun all => absurd (all _ h) (by decide)
  · next hf =>
    split
    · next h => exact iff_of_false (by decide) fun all => absurd (all _ h) (by decide)
    · next hn =>
      -- Neither a false nor an unknown part is left.
      refine iff_of_true rfl ?_
      rintro (_ | _ | _) ht
      · exact absurd ht hn
      · exact absurd ht hf
      · rfl

/-- A conjunction with a false part is false. -/
theorem all_of_mem_false {ts : List Truth} (h : some false ∈ ts) : all ts = some false := by
  rw [all_eq, if_pos h]

/-- A disjunction is true if one of its parts is. -/
theorem any_eq_true {ts : List Truth} : any ts = some true ↔ some true ∈ ts := by
  rw [any_eq]
  split
  · next h => simp [h]
  · next h => split <;> simp [h]

/-- A conjunction of two lists of parts. -/
theorem all_append (ts us : List Truth) : all (ts ++ us) = all [all ts, all us] := by
  by_cases hf : some false ∈ ts ∨ some false ∈ us <;>
    by_cases hn : none ∈ ts ∨ none ∈ us <;> grind [all_eq]

/-- A disjunction of two lists of parts. -/
theorem any_append (ts us : List Truth) : any (ts ++ us) = any [any ts, any us] := by
  by_cases hf : some true ∈ ts ∨ some true ∈ us <;>
    by_cases hn : none ∈ ts ∨ none ∈ us <;> grind [any_eq]

/-- A conjunction of one part. -/
theorem all_singleton (t : Truth) : all [t] = t := by
  rcases t with _ | _ | _ <;> rfl

/-- A disjunction of one part. -/
theorem any_singleton (t : Truth) : any [t] = t := by
  rcases t with _ | _ | _ <;> rfl

/-- A true part does not change a conjunction. -/
theorem all_true_cons (t : Truth) : all [some true, t] = t := by
  rcases t with _ | _ | _ <;> rfl

/-- A false part does not change a disjunction. -/
theorem any_false_cons (t : Truth) : any [some false, t] = t := by
  rcases t with _ | _ | _ <;> rfl

/-- A connective of truths: one part stands for itself, and the parts may be put together in
groups. -/
structure IsConnective (op : List Truth → Truth) : Prop where
  /-- One part stands for itself. -/
  singleton : ∀ t, op [t] = t
  /-- Two groups of parts. -/
  append : ∀ ts us, op (ts ++ us) = op [op ts, op us]

/-- Conjunction is a connective. -/
theorem isConnective_all : IsConnective all := ⟨all_singleton, all_append⟩

/-- Disjunction is a connective. -/
theorem isConnective_any : IsConnective any := ⟨any_singleton, any_append⟩

/-- Parts with one and the same result stand for each other in front of others. -/
theorem IsConnective.append_congr {op : List Truth → Truth} (hop : IsConnective op)
    {ts us vs ws : List Truth} (hfront : op ts = op vs) (hrest : op us = op ws) :
    op (ts ++ us) = op (vs ++ ws) := by
  rw [hop.append ts us, hop.append vs ws, hfront, hrest]

end Truth

/-- Values that a comparison finds equal are equal. -/
theorem CompareOp.eq_of_truth {a b : Value} (h : CompareOp.eq.truth a b = some true) : a = b := by
  cases a <;> cases b <;>
    simp_all [CompareOp.truth, Value.compare?, CompareOp.holds, Ordered.cmp_eq_iff]

/-! ## Values of joined rows -/

/-- The missing value is the only one that is null. -/
theorem Value.isNull_iff {v : Value} : v.isNull = true ↔ v = .null := by
  cases v <;> simp [isNull]

namespace JoinedRow

/-- The aliases that a joined row has a part for. -/
def aliases (row : JoinedRow) : List String := row.map Prod.fst

/-- The value of a column of a joined row, null if the row has no part for its alias. -/
def read (row : JoinedRow) (column : ColumnRef) : Value :=
  ((row.lookup column.aliasName).join.map fun part => Row.value part column.column).getD .null

/-- A joined row has a part for an alias exactly if it is one of its aliases. -/
theorem lookup_isSome {row : JoinedRow} {a : String} :
    (row.lookup a).isSome = true ↔ a ∈ row.aliases := by
  induction row with
  | nil => simp [aliases]
  | cons part row ih =>
    obtain ⟨b, r⟩ := part
    by_cases h : a = b
    · subst h
      simp [aliases]
    · have hb : (a == b) = false := by simpa using h
      simp only [List.lookup_cons, hb, ih, aliases, List.map_cons, List.mem_cons, h, false_or]

/-- A column of an alias that a joined row has a part for has a value. -/
theorem value_eq_read {row : JoinedRow} {c : ColumnRef} (h : c.aliasName ∈ row.aliases) :
    row.value c = .ok (row.read c) := by
  rw [← lookup_isSome] at h
  obtain ⟨part, hp⟩ := Option.isSome_iff_exists.1 h
  unfold value read
  rw [hp]
  cases part <;> rfl

/-- A column of an alias that a joined row has no part for is unbound. -/
theorem value_eq_error {row : JoinedRow} {c : ColumnRef} (h : c.aliasName ∉ row.aliases) :
    row.value c = .error (.unboundAlias c.aliasName) := by
  rw [← lookup_isSome, Bool.not_eq_true, Option.isSome_eq_false_iff, Option.isNone_iff_eq_none] at h
  unfold value
  rw [h]

/-- The value of a column depends on the part for its alias only. -/
theorem value_congr {row other : JoinedRow} {c : ColumnRef}
    (h : row.lookup c.aliasName = other.lookup c.aliasName) : row.value c = other.value c := by
  unfold value
  rw [h]

/-- The reading of a column depends on the part for its alias only. -/
theorem read_congr {row other : JoinedRow} {c : ColumnRef}
    (h : row.lookup c.aliasName = other.lookup c.aliasName) : row.read c = other.read c := by
  unfold read
  rw [h]

end JoinedRow

/-! ## Rows that meet a predicate -/

namespace Database

variable {db : Database} {row other : JoinedRow}

/-- A predicate evaluates at a joined row. -/
def Evaluates (db : Database) (row : JoinedRow) (p : Predicate) : Prop :=
  ∃ t, db.truth row p = .ok t

/-- A joined row meets a predicate. -/
def Meets (db : Database) (row : JoinedRow) (p : Predicate) : Prop :=
  db.truth row p = .ok (some true)

instance (db : Database) (row : JoinedRow) (p : Predicate) : Decidable (db.Meets row p) :=
  decidable_of_iff ((db.truth row p).toOption = some (some true)) <| by
    unfold Meets
    cases db.truth row p <;> simp [Except.toOption]

/-! ### One equation for each form -/

/-- Always is true. -/
theorem truth_always : db.truth row .always = .ok (some true) := rfl

/-- Never is false. -/
theorem truth_never : db.truth row .never = .ok (some false) := rfl

/-- A conjunction is read off the truths of its parts. -/
theorem truth_all (ps : List Predicate) :
    db.truth row (.all ps) = (db.truths row ps).map Truth.all := by
  show (db.truths row ps >>= fun ts => pure (Truth.all ts)) = _
  cases db.truths row ps <;> rfl

/-- A disjunction is read off the truths of its parts. -/
theorem truth_any (ps : List Predicate) :
    db.truth row (.any ps) = (db.truths row ps).map Truth.any := by
  show (db.truths row ps >>= fun ts => pure (Truth.any ts)) = _
  cases db.truths row ps <;> rfl

/-- A complement is read off the truth of its part. -/
theorem truth_notTrue (p : Predicate) :
    db.truth row (.notTrue p) =
      (db.truth row p).map fun t => some (decide (t ≠ some true)) := by
  show (db.truth row p >>= fun t => pure (some (decide (t ≠ some true)))) = _
  cases db.truth row p <;> rfl

/-- The truth of an atom is read off the value of its column, which it has for every value if its
subquery, if any, finds keys. -/
theorem truth_atom {a : Predicate} {c : ColumnRef} (hc : a.column? = some c) (db : Database) :
    ∃ f : Value → Except ExecutionFault Truth,
      (∀ row : JoinedRow, db.truth row a = row.value c >>= f) ∧
      ((∀ s, a.subquery? = some s → ∃ ks, db.keys s = .ok ks) → ∀ v, ∃ t, f v = .ok t) := by
  cases a <;> cases hc
  case inSet s =>
    refine ⟨fun v => if v.isNull then .ok none else do return some ((← db.keys s).contains v),
      fun row => rfl, fun hs v => ?_⟩
    obtain ⟨ks, hks⟩ := hs s rfl
    by_cases hn : v.isNull = true
    · exact ⟨none, if_pos hn⟩
    · refine ⟨some (ks.contains v), ?_⟩
      dsimp only
      rw [if_neg hn, hks]
      rfl
  all_goals exact ⟨_, fun row => rfl, fun _ v => ⟨_, rfl⟩⟩

/-- An equality is read off the value of its column. -/
theorem truth_equals (c : ColumnRef) (v : Value) :
    db.truth row (.equals c v) = (do return CompareOp.eq.truth (← row.value c) v) := rfl

/-- The membership in a list of values is that one of the equalities. -/
theorem truth_oneOf (c : ColumnRef) (values : List Value) :
    db.truth row (.oneOf c values) = (do
      let v ← row.value c
      return Truth.any (values.map fun value => CompareOp.eq.truth v value)) := rfl

/-- The overlap with a list of texts is read off the value of its column. -/
theorem truth_overlaps (c : ColumnRef) (texts : List String) :
    db.truth row (.overlaps c texts) = (do return overlapTruth texts (← row.value c)) := rfl

/-- A missing value is not known to be a key, and any other value is one or not. -/
theorem truth_inSet (c : ColumnRef) (s : Subquery) :
    db.truth row (.inSet c s) = (do
      let v ← row.value c
      if v.isNull then return none
      else return some ((← db.keys s).contains v)) := rfl

/-- No predicates have no truths. -/
theorem truths_nil : db.truths row [] = .ok [] := rfl

/-- The truths of a list of predicates begin with that of the first one. -/
theorem truths_cons (p : Predicate) (ps : List Predicate) :
    db.truths row (p :: ps) = (do return (← db.truth row p) :: (← db.truths row ps)) := rfl

/-! ### Lists of parts -/

/-- The truths of a list of predicates, by the first one. -/
theorem truths_cons_eq_ok {p : Predicate} {ps : List Predicate} {ts : List Truth} :
    db.truths row (p :: ps) = .ok ts ↔
      ∃ t us, db.truth row p = .ok t ∧ db.truths row ps = .ok us ∧ ts = t :: us := by
  rw [truths_cons]
  cases db.truth row p with
  | error e => simp [bind, Except.bind]
  | ok t =>
    cases db.truths row ps with
    | error e => simp [bind, Except.bind]
    | ok us => simp [bind, Except.bind, pure, Except.pure, eq_comm]

/-- The truths of two lists of predicates. -/
theorem truths_append {ps qs : List Predicate} {ts us : List Truth}
    (hp : db.truths row ps = .ok ts) (hq : db.truths row qs = .ok us) :
    db.truths row (ps ++ qs) = .ok (ts ++ us) := by
  induction ps generalizing ts with
  | nil =>
    cases hp
    exact hq
  | cons p ps ih =>
    obtain ⟨t, rest, ht, hr, rfl⟩ := truths_cons_eq_ok.1 hp
    exact truths_cons_eq_ok.2 ⟨t, rest ++ us, ht, ih hr, rfl⟩

/-- Predicates that evaluate have truths. -/
theorem truths_of_evaluates {ps : List Predicate} (h : ∀ p ∈ ps, db.Evaluates row p) :
    ∃ ts, db.truths row ps = .ok ts := by
  induction ps with
  | nil => exact ⟨[], truths_nil⟩
  | cons p ps ih =>
    obtain ⟨t, ht⟩ := h p List.mem_cons_self
    obtain ⟨ts, hts⟩ := ih fun q hq => h q (List.mem_cons_of_mem p hq)
    exact ⟨t :: ts, truths_cons_eq_ok.2 ⟨t, ts, ht, hts, rfl⟩⟩

/-- A truth is one of those of a list of predicates if one of them has it. -/
theorem mem_truths {ps : List Predicate} {ts : List Truth} (h : db.truths row ps = .ok ts)
    {t : Truth} : t ∈ ts ↔ ∃ p ∈ ps, db.truth row p = .ok t := by
  induction ps generalizing ts with
  | nil =>
    cases h
    simp
  | cons p ps ih =>
    obtain ⟨u, us, hu, hus, rfl⟩ := truths_cons_eq_ok.1 h
    have hhead : db.truth row p = .ok t ↔ t = u := by
      rw [hu, Except.ok.injEq, eq_comm]
    simp only [List.mem_cons, ih hus, exists_eq_or_imp, hhead]

/-- A conjunction evaluates to the conjunction of the truths of its parts. -/
theorem truth_all_eq_ok {ps : List Predicate} {t : Truth} :
    db.truth row (.all ps) = .ok t ↔ ∃ ts, db.truths row ps = .ok ts ∧ Truth.all ts = t := by
  rw [truth_all, Traversal.map_eq_ok]

/-- A disjunction evaluates to the disjunction of the truths of its parts. -/
theorem truth_any_eq_ok {ps : List Predicate} {t : Truth} :
    db.truth row (.any ps) = .ok t ↔ ∃ ts, db.truths row ps = .ok ts ∧ Truth.any ts = t := by
  rw [truth_any, Traversal.map_eq_ok]

/-- The complement of a predicate that evaluates. -/
theorem truth_notTrue_of_ok {p : Predicate} {t : Truth} (h : db.truth row p = .ok t) :
    db.truth row (.notTrue p) = .ok (some (t ≠ some true)) := by
  rw [truth_notTrue, h]
  rfl

/-! ## By the atoms -/

/-- Two joined rows at which each of some predicates has the same truth give the list the same
truths, also if they are rows of two databases. -/
theorem truths_congr {db' : Database} {ps : List Predicate}
    (h : ∀ p ∈ ps, db.truth row p = db'.truth other p) :
    db.truths row ps = db'.truths other ps := by
  induction ps with
  | nil => rfl
  | cons p ps ih =>
    obtain ⟨hfirst, hrest⟩ := List.forall_mem_cons.1 h
    rw [truths_cons, truths_cons, hfirst, ih hrest]

/-- Two joined rows at which the atoms of a predicate have the same truth give it the same truth,
also if they are rows of two databases. -/
theorem truth_congr_atoms {db' : Database} {p : Predicate}
    (h : ∀ a ∈ p.atoms, db.truth row a = db'.truth other a) :
    db.truth row p = db'.truth other p := by
  induction p using Predicate.connective_induction with
  | always => rfl
  | never => rfl
  | atom a c ha _ => exact h a (by rw [ha]; exact List.mem_singleton_self a)
  | all parts ih =>
    have hparts := truths_congr fun p hp => ih p hp fun a ha => h a (mem_atomsOf.2 ⟨p, hp, ha⟩)
    rw [truth_all, truth_all, hparts]
  | any parts ih =>
    have hparts := truths_congr fun p hp => ih p hp fun a ha => h a (mem_atomsOf.2 ⟨p, hp, ha⟩)
    rw [truth_any, truth_any, hparts]
  | notTrue part ih => rw [truth_notTrue, truth_notTrue, ih h]

/-- A predicate evaluates if its atoms do. -/
theorem evaluates_of_atoms {p : Predicate} (h : ∀ a ∈ p.atoms, db.Evaluates row a) :
    db.Evaluates row p := by
  induction p using Predicate.connective_induction with
  | always => exact ⟨some true, truth_always⟩
  | never => exact ⟨some false, truth_never⟩
  | atom a c ha _ => exact h a (by rw [ha]; exact List.mem_singleton_self a)
  | all parts ih =>
    obtain ⟨ts, hts⟩ := truths_of_evaluates fun p hp => ih p hp fun a ha =>
      h a (mem_atomsOf.2 ⟨p, hp, ha⟩)
    exact ⟨_, truth_all_eq_ok.2 ⟨ts, hts, rfl⟩⟩
  | any parts ih =>
    obtain ⟨ts, hts⟩ := truths_of_evaluates fun p hp => ih p hp fun a ha =>
      h a (mem_atomsOf.2 ⟨p, hp, ha⟩)
    exact ⟨_, truth_any_eq_ok.2 ⟨ts, hts, rfl⟩⟩
  | notTrue part ih =>
    obtain ⟨t, ht⟩ := ih h
    exact ⟨_, truth_notTrue_of_ok ht⟩

/-- An atom has the same truth at two joined rows with the same value in its column. -/
theorem truth_congr_atom {a : Predicate} {c : ColumnRef} (hc : a.column? = some c)
    (h : row.value c = other.value c) : db.truth row a = db.truth other a := by
  obtain ⟨f, hf, -⟩ := truth_atom hc db
  rw [hf, hf, h]

/-- An atom evaluates if its column has a value and its subquery, if any, finds keys. -/
theorem evaluates_atom {a : Predicate} {c : ColumnRef} (hc : a.column? = some c)
    (hv : c.aliasName ∈ row.aliases) (hs : ∀ s, a.subquery? = some s → ∃ ks, db.keys s = .ok ks) :
    db.Evaluates row a := by
  obtain ⟨f, hf, hok⟩ := truth_atom hc db
  obtain ⟨t, ht⟩ := hok hs (row.read c)
  refine ⟨t, ?_⟩
  rw [hf, JoinedRow.value_eq_read hv]
  exact ht

/-- Two joined rows with the same parts for the aliases that a predicate names give it the same
truth. -/
theorem truth_congr {p : Predicate}
    (h : ∀ c ∈ p.columns, row.lookup c.aliasName = other.lookup c.aliasName) :
    db.truth row p = db.truth other p := by
  apply truth_congr_atoms
  intro a ha
  obtain ⟨-, c, hc⟩ := Predicate.atom_of_mem ha
  exact truth_congr_atom hc (JoinedRow.value_congr (h c (Predicate.mem_columns.2 ⟨a, ha, hc⟩)))

/-- A predicate evaluates at a joined row that has a part for every alias that it names, if its
subqueries find keys. -/
theorem evaluates_of_columns {p : Predicate} (hc : ∀ c ∈ p.columns, c.aliasName ∈ row.aliases)
    (hs : ∀ s ∈ p.subqueries, ∃ ks, db.keys s = .ok ks) : db.Evaluates row p := by
  apply evaluates_of_atoms
  intro a ha
  obtain ⟨-, c, hcol⟩ := Predicate.atom_of_mem ha
  exact evaluates_atom hcol (hc c (Predicate.mem_columns.2 ⟨a, ha, hcol⟩)) fun s hsub =>
    hs s (Predicate.mem_subqueries.2 ⟨a, ha, hsub⟩)

/-! ## The simplifying constructors -/

/-- The parts that a connective opens have the result of the truths of the parts that it is made of;
one of those is the truth that decides the connective if it opens none. -/
def Opens (db : Database) (row : JoinedRow) (op : List Truth → Truth) (decisive : Truth)
    (ts : List Truth) : Option (List Predicate) → Prop
  | none => decisive ∈ ts
  | some flat => ∃ us, db.truths row flat = .ok us ∧ op us = op ts

section Opening

variable {op : List Truth → Truth} {decisive : Truth} {ts : List Truth}
  {found : Option (List Predicate)}

/-- Opened parts in front of others stand for the part that they are opened from. -/
theorem Opens.append (hop : Truth.IsConnective op) (h : Opens db row op decisive ts found)
    {front : List Predicate} {us : List Truth} (hfront : db.truths row front = .ok us) :
    Opens db row op decisive (op us :: ts) (found.map fun flat => front ++ flat) := by
  cases found with
  | none => exact List.mem_cons_of_mem (op us) h
  | some flat =>
    obtain ⟨vs, hvs, hsame⟩ := h
    have hresult : op (us ++ vs) = op ([op us] ++ ts) :=
      hop.append_congr (hop.singleton (op us)).symm hsame
    exact ⟨us ++ vs, truths_append hfront hvs, hresult⟩

/-- A part that is kept as it is stands for itself. -/
theorem Opens.cons (hop : Truth.IsConnective op) (h : Opens db row op decisive ts found)
    {p : Predicate} {t : Truth} (hp : db.truth row p = .ok t) :
    Opens db row op decisive (t :: ts) (found.map fun flat => p :: flat) := by
  have hone : db.truths row [p] = .ok [t] := truths_cons_eq_ok.2 ⟨t, [], hp, truths_nil, rfl⟩
  have hboth := h.append hop hone
  rw [hop.singleton] at hboth
  exact hboth

/-- A part that changes no result may vanish. -/
theorem Opens.skip (hop : Truth.IsConnective op) (h : Opens db row op decisive ts found)
    {neutral : Truth} (hneutral : ∀ t, op [neutral, t] = t) :
    Opens db row op decisive (neutral :: ts) found := by
  cases found with
  | none => exact List.mem_cons_of_mem neutral h
  | some flat =>
    obtain ⟨us, hus, hsame⟩ := h
    have hvanish : op ([neutral] ++ ts) = op ts := by
      rw [hop.append, hop.singleton, hneutral]
    exact ⟨us, hus, hsame.trans hvanish.symm⟩

end Opening

/-- A conjunction opens its parts. -/
theorem opens_conjParts {ps : List Predicate} {ts : List Truth} (h : db.truths row ps = .ok ts) :
    Opens db row Truth.all (some false) ts (Predicate.conjParts ps) := by
  fun_induction Predicate.conjParts ps generalizing ts with
  | case1 => exact ⟨ts, h, rfl⟩
  | case2 rest ih =>
    obtain ⟨t, us, ht, hus, rfl⟩ := truths_cons_eq_ok.1 h
    cases ht
    exact (ih hus).skip Truth.isConnective_all Truth.all_true_cons
  | case3 rest =>
    obtain ⟨t, us, ht, hus, rfl⟩ := truths_cons_eq_ok.1 h
    cases ht
    exact List.mem_cons_self
  | case4 inner rest ih =>
    obtain ⟨t, us, ht, hus, rfl⟩ := truths_cons_eq_ok.1 h
    obtain ⟨vs, hvs, rfl⟩ := truth_all_eq_ok.1 ht
    exact (ih hus).append Truth.isConnective_all hvs
  | case5 part rest _ _ _ ih =>
    obtain ⟨t, us, ht, hus, rfl⟩ := truths_cons_eq_ok.1 h
    exact (ih hus).cons Truth.isConnective_all ht

/-- A disjunction opens its parts. -/
theorem opens_disjParts {ps : List Predicate} {ts : List Truth} (h : db.truths row ps = .ok ts) :
    Opens db row Truth.any (some true) ts (Predicate.disjParts ps) := by
  fun_induction Predicate.disjParts ps generalizing ts with
  | case1 => exact ⟨ts, h, rfl⟩
  | case2 rest ih =>
    obtain ⟨t, us, ht, hus, rfl⟩ := truths_cons_eq_ok.1 h
    cases ht
    exact (ih hus).skip Truth.isConnective_any Truth.any_false_cons
  | case3 rest =>
    obtain ⟨t, us, ht, hus, rfl⟩ := truths_cons_eq_ok.1 h
    cases ht
    exact List.mem_cons_self
  | case4 inner rest ih =>
    obtain ⟨t, us, ht, hus, rfl⟩ := truths_cons_eq_ok.1 h
    obtain ⟨vs, hvs, rfl⟩ := truth_any_eq_ok.1 ht
    exact (ih hus).append Truth.isConnective_any hvs
  | case5 part rest _ _ _ ih =>
    obtain ⟨t, us, ht, hus, rfl⟩ := truths_cons_eq_ok.1 h
    exact (ih hus).cons Truth.isConnective_any ht

/-- The simplified conjunction of parts that evaluate is their conjunction. -/
theorem truth_conj {ps : List Predicate} {ts : List Truth} (h : db.truths row ps = .ok ts) :
    db.truth row (Predicate.conj ps) = .ok (Truth.all ts) := by
  have parts := opens_conjParts h
  unfold Predicate.conj
  cases hp : Predicate.conjParts ps with
  | none =>
    rw [hp] at parts
    rw [truth_never, Truth.all_of_mem_false parts]
  | some flat =>
    rw [hp] at parts
    obtain ⟨us, hus, same⟩ := parts
    rw [← same]
    -- No part is always, one part is itself, and only several parts make a conjunction.
    rcases flat with _ | ⟨p, _ | ⟨q, rest⟩⟩
    · cases hus
      rfl
    · obtain ⟨u, vs, hu, hvs, rfl⟩ := truths_cons_eq_ok.1 hus
      cases hvs
      rw [Truth.all_singleton]
      exact hu
    · exact truth_all_eq_ok.2 ⟨us, hus, rfl⟩

/-- The simplified disjunction of parts that evaluate is their disjunction. -/
theorem truth_disj {ps : List Predicate} {ts : List Truth} (h : db.truths row ps = .ok ts) :
    db.truth row (Predicate.disj ps) = .ok (Truth.any ts) := by
  have parts := opens_disjParts h
  unfold Predicate.disj
  cases hp : Predicate.disjParts ps with
  | none =>
    rw [hp] at parts
    rw [truth_always, Truth.any_eq_true.2 parts]
  | some flat =>
    rw [hp] at parts
    obtain ⟨us, hus, same⟩ := parts
    rw [← same]
    -- No part is never, one part is itself, and only several parts make a disjunction.
    rcases flat with _ | ⟨p, _ | ⟨q, rest⟩⟩
    · cases hus
      rfl
    · obtain ⟨u, vs, hu, hvs, rfl⟩ := truths_cons_eq_ok.1 hus
      cases hvs
      rw [Truth.any_singleton]
      exact hu
    · exact truth_any_eq_ok.2 ⟨us, hus, rfl⟩

/-- The simplified complement of a predicate that evaluates is its complement. -/
theorem truth_negate {p : Predicate} {t : Truth} (h : db.truth row p = .ok t) :
    db.truth row p.negate = .ok (some (t ≠ some true)) := by
  -- Always and never are turned into each other, and anything else stands under a complement.
  cases p
  case always =>
    cases h
    rfl
  case never =>
    cases h
    rfl
  all_goals exact truth_notTrue_of_ok h

/-- A joined row meets a conjunction if it meets all of its parts. -/
theorem meets_conj {ps : List Predicate} (h : ∀ p ∈ ps, db.Evaluates row p) :
    db.Meets row (Predicate.conj ps) ↔ ∀ p ∈ ps, db.Meets row p := by
  obtain ⟨ts, hts⟩ := truths_of_evaluates h
  unfold Meets
  rw [truth_conj hts, Except.ok.injEq, Truth.all_eq_true]
  constructor
  · intro all p hp
    obtain ⟨t, ht⟩ := h p hp
    rw [ht, all t ((mem_truths hts).2 ⟨p, hp, ht⟩)]
  · intro all t ht
    obtain ⟨p, hp, hpt⟩ := (mem_truths hts).1 ht
    rw [all p hp] at hpt
    exact (Except.ok.inj hpt).symm

/-- A joined row meets a disjunction if it meets one of its parts. -/
theorem meets_disj {ps : List Predicate} (h : ∀ p ∈ ps, db.Evaluates row p) :
    db.Meets row (Predicate.disj ps) ↔ ∃ p ∈ ps, db.Meets row p := by
  obtain ⟨ts, hts⟩ := truths_of_evaluates h
  unfold Meets
  rw [truth_disj hts, Except.ok.injEq, Truth.any_eq_true]
  exact mem_truths hts

/-- A joined row meets a complement if it does not meet the part. -/
theorem meets_negate {p : Predicate} (h : db.Evaluates row p) :
    db.Meets row p.negate ↔ ¬ db.Meets row p := by
  obtain ⟨t, ht⟩ := h
  unfold Meets
  rw [truth_negate ht, ht]
  simp

end Database

end RowScope
