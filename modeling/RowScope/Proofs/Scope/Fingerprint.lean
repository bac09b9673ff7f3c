import RowScope.Proofs.Digest.Framing
import RowScope.Proofs.Scope.Canonical
import RowScope.Proofs.Scope.Text
import RowScope.Proofs.Sql.Reading
import RowScope.Proofs.Sql.Value

/-!
# Fingerprints identify scopes

The bytes behind a fingerprint are equal for two compilations only if the scopes are equal
(`fingerprint_identifies`), whatever the requests, the configurations and the catalogs were, as long
as no identifier has a byte that tells parts apart. Texts and values are then content between such
bytes, so the bytes give back the text of each condition, the text of each join and the JSON text of
each value, and these determine the condition, the join and the value. Two different results with
one fingerprint are therefore a collision of the digest.
-/

namespace RowScope

/-! ## Unmarked texts -/

/-- An unmarked name is unmarked in quotes. -/
theorem two_lt_quoteName {name : String} (h : Unmarked name) :
    ∀ c ∈ quoteName name, 2 < c.toNat := by
  intro c hc
  rw [quoteName, List.cons_append, List.mem_cons, List.mem_append, List.mem_flatMap,
    List.mem_singleton] at hc
  rcases hc with rfl | ⟨d, hd, hc⟩ | rfl
  · decide
  · -- A quote is written twice, and every other character as itself.
    have hsame : c = d := by
      split at hc <;> simp_all
    exact hsame ▸ unmarked_iff.1 h d hd
  · decide

/-- The text of legible pieces is unmarked if the names are. -/
theorem Legible.unmarked_render {pieces : List SqlPiece} (h : Legible pieces)
    (hnames : ∀ name, .name name ∈ pieces → Unmarked name) : Unmarked (render pieces) := by
  have codes : ∀ text ∈ sqlCodes, Unmarked text := by decide +kernel
  have digits : ∀ n, ∀ c ∈ '$' :: Number.natText n, 2 < c.toNat := by
    intro n c hc
    rcases List.mem_cons.1 hc with rfl | hc
    · decide
    · have hspace : 32 ≤ c.toNat := Json.space_le_of_isDigit (Number.isDigit_of_mem_natText hc)
      omega
  suffices hall : ∀ bound, ∀ c ∈ renderFrom bound pieces, 2 < c.toNat by
    rw [unmarked_iff, render, String.toList_ofList]
    exact hall 0
  induction pieces with
  | nil => exact fun _ _ hc => absurd hc List.not_mem_nil
  | cons piece rest ih =>
    have hrest := ih h.tail fun name hmem => hnames name (List.mem_cons_of_mem _ hmem)
    intro bound c hc
    cases piece with
    | code text =>
      have hcode := codes text (h.codes text List.mem_cons_self)
      exact (List.mem_append.1 hc).elim (unmarked_iff.1 hcode c) (hrest bound c)
    | name text =>
      exact (List.mem_append.1 hc).elim (two_lt_quoteName (hnames text List.mem_cons_self) c)
        (hrest bound c)
    | param v => exact (List.mem_append.1 hc).elim (digits _ c) (hrest _ c)

/-- The JSON text of a value is unmarked. -/
theorem Value.unmarked_text (v : Value) : Unmarked v.toJson.text := by
  rw [unmarked_iff, Json.text, String.toList_ofList]
  intro c hc
  have hspace : 32 ≤ c.toNat := Json.space_le v.toJson c hc
  omega

/-- The aliases that unmarked names make are unmarked. -/
theorem unmarked_hopAliases {before : Option String} {names : List String}
    (hbefore : ∀ b ∈ before, Unmarked b) (hnames : ∀ name ∈ names, Unmarked name) :
    ∀ a ∈ hopAliases before names, Unmarked a := by
  induction names generalizing before with
  | nil => exact fun _ h => absurd h List.not_mem_nil
  | cons name names ih =>
    obtain ⟨hname, hnames⟩ := List.forall_mem_cons.1 hnames
    have hfirst : Unmarked (Catalog.hopAlias before name) := by
      cases before with
      | none => exact hname
      | some b =>
        rw [unmarked_iff] at hname ⊢
        have hb := unmarked_iff.1 (hbefore b rfl)
        have hdot : Unmarked "." := by decide +kernel
        simp only [Catalog.hopAlias, String.toList_append, List.mem_append]
        rintro c ((hc | hc) | hc)
        · exact hb c hc
        · exact unmarked_iff.1 hdot c hc
        · exact hname c hc
    refine List.forall_mem_cons.2 ⟨hfirst, ih (fun b hb => ?_) hnames⟩
    exact Option.some.inj hb ▸ hfirst

/-- The names of the tables of a catalog and of their columns are unmarked. -/
def Catalog.Unmarked (c : Catalog) : Prop :=
  ∀ name table, c.table? name = some table →
    RowScope.Unmarked table.name ∧ ∀ column ∈ table.columns, RowScope.Unmarked column

/-- The standard catalog is unmarked. -/
theorem Catalog.unmarked_standard {c : Catalog} (h : Catalog.standard = .ok c) : c.Unmarked := by
  have names : ∀ table ∈ standardTables, RowScope.Unmarked table.name ∧
      ∀ column ∈ table.columns, RowScope.Unmarked column := by
    decide +kernel
  exact fun _ table htable => names table ((within_of_build h).table_mem htable)

/-- The names that a compiler with an unmarked catalog writes are unmarked. -/
theorem Compiler.Knows.unmarked {c : Compiler} (hc : c.Lawful) (hcatalog : c.catalog.Unmarked)
    {domain : Domain} {name : String} (h : c.Knows domain name) : Unmarked name := by
  cases h with
  | root =>
    cases domain <;> decide +kernel
  | subqueryRoot => decide +kernel
  | @hop q hop hhop =>
    have steps : ∀ q ∈ ReadPath.all, ∀ name ∈ q.hops, Unmarked name := by decide +kernel
    obtain ⟨start, -, hhops, -⟩ := Catalog.path_eq_ok (ReadPaths.get_eq hc.paths q)
    apply unmarked_hopAliases (fun _ hb => absurd hb (Option.not_mem_none _)) (steps q q.mem_all)
    rw [← Catalog.aliases_hopsFrom hc.coherent hhops]
    exact List.mem_map_of_mem hhop
  | table htable => exact (hcatalog _ _ htable).1
  | column htable hcolumn => exact (hcatalog _ _ htable).2 _ hcolumn

/-! ## The bytes of a scope -/

/-- A scope that its bytes determine: its condition is canonical and its names are unmarked. -/
structure Scope.Plain (s : Scope) : Prop where
  /-- The condition is canonical. -/
  canonical : s.predicate.Canonical
  /-- The names in the condition are unmarked. -/
  names : ∀ name, .name name ∈ s.predicate.pieces → Unmarked name
  /-- The names in the joins are unmarked. -/
  joinNames : ∀ j ∈ s.extraJoins, ∀ name, .name name ∈ j.pieces → Unmarked name

namespace Scope

/-- The parts of the bytes of a scope: the text of the condition, the texts of the joins and the
JSON texts of the values. -/
def parts (s : Scope) : List (UInt8 × List UInt8) :=
  (0, utf8Bytes s.predicate.text) :: (s.extraJoins.map (fun j => (0, utf8Bytes j.text)) ++
    s.predicate.params.map fun v => (1, utf8Bytes v.toJson.text))

/-- The bytes of a scope are the name of the domain, the parts, and the byte 2. -/
theorem fingerprintBytes_eq (s : Scope) (domain : Domain) :
    s.fingerprintBytes domain = utf8Bytes domain.name ++ (framed s.parts ++ [2]) := by
  simp [fingerprintBytes, render, parts, framed, List.flatMap_map, List.flatMap_append]

namespace Plain

variable {s t : Scope}

/-- The parts of a plain scope can be told apart. -/
theorem framed_parts (h : s.Plain) : Framed s.parts := by
  intro part hpart
  rw [parts, List.mem_cons, List.mem_append, List.mem_map, List.mem_map] at hpart
  rcases hpart with rfl | ⟨j, hj, rfl⟩ | ⟨v, -, rfl⟩
  · exact ⟨show (0 : UInt8) < 2 by decide, s.predicate.legible.unmarked_render h.names⟩
  · exact ⟨show (0 : UInt8) < 2 by decide, j.legible.unmarked_render (h.joinNames j hj)⟩
  · exact ⟨show (1 : UInt8) < 2 by decide, v.unmarked_text⟩

/-- A plain scope is determined by its parts. -/
theorem eq_of_parts (hs : s.Plain) (ht : t.Plain) (h : s.parts = t.parts) : s = t := by
  obtain ⟨hwhere, hrest⟩ := List.cons.inj h
  have htext := utf8Bytes_injective (Prod.mk.inj hwhere).2
  have hjoins : s.extraJoins.map (fun j => utf8Bytes j.text) =
      t.extraJoins.map fun j => utf8Bytes j.text := by
    have hof := congrArg (List.filterMap fun p => if p.1 = 0 then some p.2 else none) hrest
    simpa [List.filterMap_append, List.filterMap_map, Function.comp_def] using hof
  have hparams : s.predicate.params.map (fun v => utf8Bytes v.toJson.text) =
      t.predicate.params.map fun v => utf8Bytes v.toJson.text := by
    have hof := congrArg (List.filterMap fun p => if p.1 = 1 then some p.2 else none) hrest
    simpa [List.filterMap_append, List.filterMap_map, Function.comp_def] using hof
  have hpredicate : s.predicate = t.predicate := by
    refine hs.canonical.eq_of_render ht.canonical htext (List.map_inj_right ?_ |>.1 hparams)
    exact fun v w h => Value.text_injective (utf8Bytes_injective h)
  have hextra : s.extraJoins = t.extraJoins :=
    List.map_inj_right (fun j k h => JoinClause.eq_of_text (utf8Bytes_injective h)) |>.1 hjoins
  cases s
  cases t
  cases hpredicate
  cases hextra
  rfl

end Plain

/-- The bytes of plain scopes of some domains, one after the other, determine each of them. -/
theorem eq_of_fingerprintBytes {domains : List Domain} {found other : Domain → Scope}
    (hfound : ∀ domain, (found domain).Plain) (hother : ∀ domain, (other domain).Plain)
    (h : domains.flatMap (fun domain => (found domain).fingerprintBytes domain) =
      domains.flatMap fun domain => (other domain).fingerprintBytes domain) :
    ∀ domain ∈ domains, found domain = other domain := by
  induction domains with
  | nil => exact fun _ h => absurd h List.not_mem_nil
  | cons domain domains ih =>
    simp only [List.flatMap_cons, fingerprintBytes_eq, List.append_assoc, List.singleton_append]
      at h
    obtain ⟨hparts, hrest⟩ := framed_inj (hfound domain).framed_parts (hother domain).framed_parts
      (List.append_cancel_left h)
    refine List.forall_mem_cons.2 ⟨(hfound domain).eq_of_parts (hother domain) hparts, ih ?_⟩
    simpa only [fingerprintBytes_eq, List.append_assoc, List.singleton_append] using hrest

end Scope

/-! ## Compiled scopes -/

/-- A compiled scope under an unmarked catalog is plain. -/
theorem Compiler.Lawful.plain_compiled {c : Compiler} (h : c.Lawful)
    (hcatalog : c.catalog.Unmarked) {domain : Domain} {filters : FilterSet} {user : Option Int64}
    {s : Scope} (hs : c.compileDomain domain filters user = .ok s) : s.Plain := by
  obtain ⟨start, hstart⟩ := h.exists_root domain
  have htraced := h.traced_compiled hs
  have hwell := htraced.wellTyped h.coherent h.paths hstart (h.sound_compiled hstart hs)
  refine ⟨h.canonical_compiled hs, fun name hname => ?_, fun j hj name hname => ?_⟩
  · exact (Knows.of_predicate h.coherent h.paths htraced hwell hname).unmarked h hcatalog
  · exact (Knows.of_typesJoins h.coherent hwell.joins (Knows.aliases htraced) hj hname).unmarked h
      hcatalog

/-- Scopes that a compiler with the standard rules makes, under any configuration and an unmarked
catalog, for any request. -/
def Scopes.Compiled (scopes : Scopes) : Prop :=
  ∃ config catalog table c filters user, catalog.Built ∧ catalog.Unmarked ∧
    RuleTable.standard = .ok table ∧ Compiler.ofParts config catalog table = .ok c ∧
    c.compile filters user = .ok scopes

namespace Scopes

/-- Compiled scopes are plain scopes of all domains. -/
theorem Compiled.entries {scopes : Scopes} (h : scopes.Compiled) :
    ∃ found : Domain → Scope, (∀ domain, (found domain).Plain) ∧
      scopes.entries = Domain.all.map fun domain => (domain, found domain) := by
  obtain ⟨_, catalog, _, c, _, _, hbuilt, hunmarked, htable, hc, hcompile⟩ := h
  have hlawful := Compiler.lawful_ofParts hbuilt htable hc
  obtain ⟨-, -, -, -, rfl, -⟩ := Compiler.ofParts_eq_ok.1 hc
  obtain ⟨found, hfound, hentries⟩ := Compiler.compile_eq_ok.1 hcompile
  exact ⟨found, fun domain => hlawful.plain_compiled hunmarked (hfound domain), hentries⟩

/-- Compiled scopes with the same bytes are the same. -/
theorem Compiled.eq_of_fingerprintBytes {scopes others : Scopes} (h : scopes.Compiled)
    (hothers : others.Compiled) (hbytes : scopes.fingerprintBytes = others.fingerprintBytes) :
    scopes = others := by
  obtain ⟨found, hfound, hentries⟩ := h.entries
  obtain ⟨other, hother, hothers⟩ := hothers.entries
  rw [fingerprintBytes, fingerprintBytes, hentries, hothers, List.flatMap_map, List.flatMap_map]
    at hbytes
  have hall := Scope.eq_of_fingerprintBytes hfound hother hbytes
  apply OrderedMap.eq_of_entries
  rw [hentries, hothers]
  exact List.map_congr_left fun domain hdomain => by rw [hall domain hdomain]

/-- The bytes of two compiled results are equal exactly if the results are, so results with one
fingerprint are equal or a collision of the digest. -/
theorem fingerprint_identifies {scopes others : Scopes} (h : scopes.Compiled)
    (hothers : others.Compiled) :
    (scopes.fingerprintBytes = others.fingerprintBytes ↔ scopes = others) ∧
      (scopes.fingerprint = others.fingerprint ↔ scopes = others ∨
        Digest.Collision scopes.fingerprintBytes others.fingerprintBytes) := by
  have hbytes : scopes.fingerprintBytes = others.fingerprintBytes ↔ scopes = others :=
    ⟨h.eq_of_fingerprintBytes hothers, congrArg fingerprintBytes⟩
  refine ⟨hbytes, fun hdigest => ?_, ?_⟩
  · by_cases hsame : scopes = others
    · exact .inl hsame
    · exact .inr ⟨mt hbytes.1 hsame, Digest.hexText_injective hdigest⟩
  · rintro (rfl | ⟨-, hdigest⟩)
    · rfl
    · exact congrArg Digest.hexText hdigest

/-- A request with two filters and one without filters have one fingerprint exactly if their results
are the same or a collision of the digest. -/
theorem fingerprint_recipientAndRegion :
    ∃ c scopes others, Compiler.ofConfig Config.common = .ok c ∧
      c.compile .recipientAndRegion none = .ok scopes ∧ c.compile .empty none = .ok others ∧
      (scopes.fingerprintBytes = others.fingerprintBytes ↔ scopes = others) ∧
      (scopes.fingerprint = others.fingerprint ↔ scopes = others ∨
        Digest.Collision scopes.fingerprintBytes others.fingerprintBytes) := by
  obtain ⟨c, hc, hcompiles⟩ := Compiler.exists_common
  obtain ⟨catalog, table, hcatalog, htable, hparts⟩ := Compiler.ofConfig_eq_ok.1 hc
  have made : ∀ filters, ∃ scopes, c.compile filters none = .ok scopes ∧ scopes.Compiled := by
    intro filters
    obtain ⟨found, hfound⟩ := Classical.axiomOfChoice fun domain => hcompiles domain filters none
    have hscopes := Compiler.compile_of_found hfound
    exact ⟨_, hscopes, Config.common, catalog, table, c, filters, none,
      Catalog.built_of_build hcatalog, Catalog.unmarked_standard hcatalog, htable, hparts, hscopes⟩
  obtain ⟨scopes, hscopes, hcompiled⟩ := made .recipientAndRegion
  obtain ⟨others, hothers, hcompiledOthers⟩ := made .empty
  exact ⟨c, scopes, others, hc, hscopes, hothers, fingerprint_identifies hcompiled hcompiledOthers⟩

end Scopes

end RowScope
