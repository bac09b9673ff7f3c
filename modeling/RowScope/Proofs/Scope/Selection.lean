import RowScope.Proofs.Compiler

/-!
# What compiled scopes select

In every database that honours the catalog, the joins of a compiled scope keep the root rows one to
one, so the list query gives each root row once at most, in the order of the table
(`one_entry_per_root_row`). Filters combine by intersection: a set of filters selects the root rows
that each of them selects alone (`select_eq_intersection`).
-/

namespace RowScope

/-- The joins of a compiled scope keep the root rows one to one, and its selection is read off some
of the root rows, in their order and each at most once. -/
theorem one_entry_per_root_row {config : Config} {catalog : Catalog} {table : RuleTable}
    {c : Compiler} (hcatalog : catalog.Built) (htable : RuleTable.standard = .ok table)
    (hc : Compiler.ofParts config catalog table = .ok c) {domain : Domain} {filters : FilterSet}
    {user : Option Int64} {s : Scope} (hs : c.compileDomain domain filters user = .ok s)
    {db : Database} (hdb : db.Honours catalog)
    (hid : ∀ row ∈ db.rows domain.rootTable, ∃ id, Row.value row "id" = .int id) :
    (∃ rows, db.joined domain.rootTable domain.rootTable s.extraJoins = .ok rows ∧
      rows.map (fun row => row.lookup domain.rootTable) =
        (db.rows domain.rootTable).map fun r => some (some r)) ∧
    ∃ (ids : List Int64) (kept : List Row), db.select domain s = .ok ids ∧
      kept.Sublist (db.rows domain.rootTable) ∧
        ids.map Value.int = kept.map fun r => Row.value r "id" := by
  have hlawful := Compiler.lawful_ofParts hcatalog htable hc
  obtain ⟨-, -, -, -, rfl, -⟩ := Compiler.ofParts_eq_ok.1 hc
  obtain ⟨start, hstart⟩ := hlawful.exists_root domain
  have hname : start.name = domain.rootTable := hlawful.coherent.table_name hstart
  have hsound := hlawful.sound_compiled hstart hs
  have hjoined := Database.joined_of_sound hlawful.coherent hdb hsound domain.rootTable
  rw [hname] at hjoined
  refine ⟨⟨_, hjoined, ?_⟩, _, (db.rows domain.rootTable).filter fun r =>
    db.Selects domain.rootTable s.predicate s.extraJoins r, hlawful.select_compiled hdb hid hs,
    List.filter_sublist, ?_⟩
  · -- The part of a joined row for the root is the row that it was made from.
    rw [List.map_map]
    apply List.map_congr_left
    intro r _
    have hroot := (Database.completes_of_sound db r hsound).root_part
    rw [hname] at hroot
    exact hroot
  · -- Every root row has an id, so each selected row gives one entry.
    exact Database.map_filterMap_id fun r hr => hid r (List.mem_filter.1 hr).1

/-- The filters of two topics: names of recipients and regions. -/
def FilterSet.recipientAndRegion : FilterSet :=
  OrderedMap.ofList
    [(FilterKey.named .recipient .contains, .single "alp"),
      (FilterKey.named .region .noneOf, .many ["4", "5"])]

/-- Under two filters the query on three grants, of which one names a missing recipient, gives some
of the three ids, each once and in order. -/
theorem entries_of_threeGrants :
    ∃ catalog table c s ids, Catalog.standard = .ok catalog ∧ RuleTable.standard = .ok table ∧
      Compiler.ofParts Config.common catalog table = .ok c ∧
      c.compileDomain .grant .recipientAndRegion none = .ok s ∧
      Database.threeGrants.select .grant s = .ok ids ∧
      (ids.map Value.int).Sublist [.int 1, .int 2, .int 3] := by
  obtain ⟨c, hc, hconfig⟩ := Compiler.exists_ofConfig Config.fault?_common rfl
  obtain ⟨catalog, table, hcatalog, htable, hparts⟩ := Compiler.ofConfig_eq_ok.1 hc
  obtain ⟨s, hs⟩ : ∃ s, c.compileDomain .grant .recipientAndRegion none = .ok s := by
    apply Compiler.exists_compileDomain
    rw [hconfig]
    exact fun _ _ => rfl
  obtain ⟨-, ids, kept, hids, hkept, hvalues⟩ :=
    one_entry_per_root_row (Catalog.built_of_build hcatalog) htable hparts hs
      (Catalog.honours_standard hcatalog Database.identified_threeGrants)
      (Database.identified_threeGrants.integer _)
  have hall : (Database.threeGrants.rows Domain.grant.rootTable).map (fun r => Row.value r "id") =
      [.int 1, .int 2, .int 3] := rfl
  refine ⟨catalog, table, c, s, ids, hcatalog, htable, hparts, hs, hids, ?_⟩
  rw [hvalues, ← hall]
  exact hkept.map fun r => Row.value r "id"

/-- A set of filters that compiles selects the root rows that each of its filters, which compiles
alone as well, selects. -/
theorem select_eq_intersection {config : Config} {c : Compiler}
    (hc : Compiler.ofConfig config = .ok c) {domain : Domain} {filters : FilterSet}
    {user : Option Int64} {s : Scope} (hs : c.compileDomain domain filters user = .ok s)
    {db : Database} (hdb : db.Identified) :
    ∃ alone : FilterKey × FilterValue → List Int64,
      (∀ e ∈ filters.entries, c.Chooses db user domain e (alone e)) ∧
      db.select domain s =
        .ok ((db.ids domain.rootTable).filter fun id => ∀ e ∈ filters.entries, id ∈ alone e) := by
  obtain ⟨hlawful, hstandard⟩ := Compiler.lawful_ofConfig hc
  have hhonours := Catalog.honours_standard hstandard hdb
  have hinteger := hdb.integer domain.rootTable
  refine ⟨c.idsAlone db user domain, fun e he => ?_, ?_⟩
  · obtain ⟨one, hone⟩ := Compiler.compileDomain_only hs he
    exact hlawful.chooses_idsAlone hhonours hinteger hone
  · rw [hlawful.select_compiled hhonours hinteger hs, Except.ok.injEq]
    apply Database.selectedIds_eq_filter
    intro r hr id hid
    rw [hlawful.selects_compiled hs]
    -- The id of the row is selected by a filter alone if the filter admits the row.
    refine forall₂_congr fun e he => ?_
    obtain ⟨one, hone⟩ := Compiler.compileDomain_only hs he
    exact hlawful.mem_idsAlone hdb hone hr hid

/-- Two filters together select those of three grants that both select alone. -/
theorem select_threeGrants_eq_intersection :
    ∃ c s, Compiler.ofConfig Config.common = .ok c ∧
      c.compileDomain .grant .recipientAndRegion none = .ok s ∧
      ∃ alone : FilterKey × FilterValue → List Int64,
        (∀ e ∈ FilterSet.recipientAndRegion.entries,
          c.Chooses .threeGrants none .grant e (alone e)) ∧
        Database.threeGrants.select .grant s =
          .ok ([1, 2, 3].filter fun id =>
            ∀ e ∈ FilterSet.recipientAndRegion.entries, id ∈ alone e) := by
  obtain ⟨c, hc, hconfig⟩ := Compiler.exists_ofConfig Config.fault?_common rfl
  obtain ⟨s, hs⟩ : ∃ s, c.compileDomain .grant .recipientAndRegion none = .ok s := by
    apply Compiler.exists_compileDomain
    rw [hconfig]
    exact fun _ _ => rfl
  obtain ⟨alone, halone, hselect⟩ := select_eq_intersection hc hs Database.identified_threeGrants
  rw [Database.ids_threeGrants] at hselect
  exact ⟨c, s, hc, hs, alone, halone, hselect⟩

end RowScope
