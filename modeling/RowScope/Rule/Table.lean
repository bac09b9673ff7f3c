import RowScope.Domain
import RowScope.Rule

/-!
# Tables of rules

A table holds the rules of all domains, one at most for a domain, a topic and a condition. A filter
whose topic and condition have no rule in a domain says nothing about its rows. A table does not
look into its rules, which may be of any type; where none is named they are those of `Rule`.
-/

namespace RowScope

/-- The filters that a rule is for. -/
structure RuleKey where
  /-- The domain. -/
  domain : Domain
  /-- The topic of the filter. -/
  topic : Topic
  /-- The condition of the filter. -/
  condition : Condition
deriving DecidableEq, Repr

/-- The rule of one topic under some conditions. -/
structure TopicRule (ρ : Type := Rule) where
  /-- The topic. -/
  topic : Topic
  /-- The conditions. -/
  conditions : List Condition
  /-- The rule. -/
  rule : ρ

/-- The rules of all domains. -/
structure RuleTable (ρ : Type := Rule) where
  /-- The rules, the one registered last at the front. -/
  entries : List (RuleKey × ρ)
  /-- No key has two rules. -/
  nodup : (entries.map Prod.fst).Nodup

namespace RuleTable

variable {ρ : Type}

/-- The table without rules. -/
def empty : RuleTable ρ := ⟨[], List.nodup_nil⟩

/-- A key that is not in a table may be put in front of it. -/
theorem nodup_cons (t : RuleTable ρ) (key : RuleKey) (rule : ρ)
    (h : key ∉ t.entries.map Prod.fst) : (((key, rule) :: t.entries).map Prod.fst).Nodup :=
  List.nodup_cons.2 ⟨h, t.nodup⟩

/-- The table with one more rule. A key that has one already is refused. -/
def register (t : RuleTable ρ) (key : RuleKey) (rule : ρ) : Except RuleKey (RuleTable ρ) :=
  if h : key ∈ t.entries.map Prod.fst then .error key
  else .ok ⟨(key, rule) :: t.entries, t.nodup_cons key rule h⟩

/-- The keys of a domain's rules, each with its rule, in the order in which they stand. -/
def registrations (domain : Domain) (rules : List (TopicRule ρ)) : List (RuleKey × ρ) :=
  rules.flatMap fun r => r.conditions.map fun condition => (⟨domain, r.topic, condition⟩, r.rule)

/-- The table of the rules of some domains. -/
def ofRules (domains : List (Domain × List (TopicRule ρ))) : Except RuleKey (RuleTable ρ) :=
  (domains.flatMap fun d => registrations d.1 d.2).foldlM (fun t e => t.register e.1 e.2) empty

/-- The rule of a key. -/
def resolve (t : RuleTable ρ) (key : RuleKey) : Option ρ := t.entries.lookup key

/-- The domains that have a rule for a topic and a condition, in canonical order. -/
def domainsFor (t : RuleTable ρ) (topic : Topic) (condition : Condition) : List Domain :=
  Domain.all.filter fun domain => (t.resolve ⟨domain, topic, condition⟩).isSome

/-- The number of rules. -/
def size (t : RuleTable ρ) : Nat := t.entries.length

/-- Whether there is no rule. -/
def isEmpty (t : RuleTable ρ) : Bool := t.entries.isEmpty

/-- The table in a few words. -/
def summary (t : RuleTable ρ) : String :=
  "DispatchTable \x7b entries: " ++ String.ofList (Number.natText t.size) ++ " \x7d"

/-- The topic and the condition of two names. -/
def parseKey? (topic condition : String) : Option (Topic × Condition) := do
  return (← Topic.ofName? topic, ← Condition.ofName? condition)

end RuleTable

end RowScope
