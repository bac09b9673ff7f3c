import RowScope.Proofs.OrderedMap
import RowScope.Proofs.Scope.Nesting
import RowScope.Proofs.Scope.Selection
import RowScope.Scope.Json

/-!
# Reading back scopes

The scopes of a compilation can be handed on as a text: whoever reads it gets the same scopes
(`Scopes.readJson_writeJson`), and so the same conditions, values and digest. That holds of all
scopes that nest no deeper than a reader follows a text, and compiled scopes nest far less
(`Compiler.depth_compile_le`).
-/

namespace RowScope

open RowScope.Json

/-- Every scope is decoded. -/
theorem Scope.decodes (s : Scope) : Decodes Scope.decode s.toJson s :=
  decodes_record (by decide)
    (.cons rfl s.predicate.decodes <| .cons rfl (decodes_joins s.extraJoins) <| .nil _) rfl

namespace Scopes

/-- The name of a domain stands for it. -/
theorem decodeDomainName_name (domain : Domain) : decodeDomainName domain.name = .ok domain := by
  cases domain <;> rfl

/-- All scopes are decoded. -/
theorem decodes (scopes : Scopes) : Decodes decode scopes.toJson scopes := by
  have hentries := decodes_map scopes.entries
    (fun e _ => decodeDomainName_name e.1) fun e _ => e.2.decodes
  -- The entries are in key order, so the map made of them is the one that they come from.
  have hscopes := decodes_wrapping OrderedMap.ofList hentries
  rw [OrderedMap.ofList_entries] at hscopes
  exact decodes_record (by simp) (.cons rfl hscopes <| .nil _) rfl

/-- Scopes that nest no deeper than a text may are read back from their text as they are, and the
scopes of every compilation are such. -/
theorem readJson_writeJson :
    (∀ scopes : Scopes, scopes.toJson.depth ≤ nestingLimit →
      readJson scopes.writeJson = .ok scopes) ∧
    ∀ (c : Compiler) (filters : FilterSet) (user : Option Int64) (scopes : Scopes),
      c.compile filters user = .ok scopes →
        scopes.toJson.depth ≤ nestingLimit ∧ readJson scopes.writeJson = .ok scopes := by
  have read : ∀ scopes : Scopes, scopes.toJson.depth ≤ nestingLimit →
      readJson scopes.writeJson = .ok scopes := fun scopes hdepth =>
    decodeText_text scopes.decodes hdepth
  refine ⟨read, fun c filters user scopes h => ?_⟩
  have hdepth : scopes.toJson.depth ≤ nestingLimit :=
    Nat.le_trans (Compiler.depth_compile_le h) (by decide)
  exact ⟨hdepth, read scopes hdepth⟩

/-- Scopes with values of every kind, a subquery and a join. -/
def ofEveryKind : Scopes :=
  let column : ColumnRef := ⟨"Goals", "name"⟩
  let join : JoinClause := ⟨.left, "Grants", "grant", "id", ⟨"Goals", "grantId"⟩⟩
  OrderedMap.ofList [(.goal,
    ⟨.all [
      .oneOf column [.null, .bool true, .int (-1), .text "a \"quote\"\n\u00e9",
        .date ⟨-44, 3, 15, by decide⟩, .textArray ["", "x"]],
      .inSet column ⟨"Goals", "root", "id", [join], .notTrue (.isNull column),
        .noneMatch (.like column "%x")⟩],
    [join]⟩)]

/-- Scopes with values of every kind are read back, and so are the scopes of two filters. -/
theorem readJson_ofEveryKind :
    ofEveryKind.toJson.depth ≤ nestingLimit ∧
      readJson ofEveryKind.writeJson = .ok ofEveryKind ∧
      ∃ c scopes, Compiler.ofConfig Config.common = .ok c ∧
        c.compile .recipientAndRegion none = .ok scopes ∧
        readJson scopes.writeJson = .ok scopes := by
  have hdepth : ofEveryKind.toJson.depth ≤ nestingLimit := by decide
  obtain ⟨c, hc, hcompiles⟩ := Compiler.exists_common
  obtain ⟨found, hfound⟩ :=
    Classical.axiomOfChoice fun domain => hcompiles domain .recipientAndRegion none
  have hscopes := Compiler.compile_of_found hfound
  exact ⟨hdepth, readJson_writeJson.1 _ hdepth, c, _, hc, hscopes,
    (readJson_writeJson.2 c _ none _ hscopes).2⟩

end Scopes

end RowScope
