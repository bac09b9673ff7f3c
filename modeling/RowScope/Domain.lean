import RowScope.Ordered
import RowScope.Text.Letters

/-!
# Domains

A domain is a kind of entity that a list query selects from. One set of filters is compiled for
every domain at once, and each domain takes from it what it has rules for.
-/

namespace RowScope

/-- A kind of entity with a list query of its own. -/
inductive Domain where
  | grant
  | activityReport
  | goal
  | trainingReport
  | recipient
deriving DecidableEq, Repr

namespace Domain

/-- All domains in their canonical order. -/
def all : List Domain := [grant, activityReport, goal, trainingReport, recipient]

/-- The name of a domain. -/
def name : Domain → String
  | grant => "grant"
  | activityReport => "activityReport"
  | goal => "goal"
  | trainingReport => "trainingReport"
  | recipient => "recipient"

/-- The table that the list query of a domain selects from. -/
def rootTable : Domain → String
  | grant => "Grants"
  | activityReport => "ActivityReports"
  | goal => "Goals"
  | trainingReport => "EventReportPilots"
  | recipient => "Recipients"

/-- The domain of a name, in letters of either case. No character but a letter of ASCII has one of
these letters as its lower case, for none of the names has a `k`. -/
def ofName? (name : String) : Option Domain := all.find? fun d => Text.sameLetters d.name name

/-- The place of a domain in the canonical order. -/
def place : Domain → Nat
  | grant => 0
  | activityReport => 1
  | goal => 2
  | trainingReport => 3
  | recipient => 4

/-- Domains stand at different places. -/
theorem place_injective (d e : Domain) (h : d.place = e.place) : d = e := by
  cases d <;> cases e <;> simp_all [place]

/-- Domains in their canonical order. -/
instance : Ordered Domain := Ordered.via place place_injective

end Domain

end RowScope
