import RowScope.Filter.Key
import RowScope.OrderedMap
import RowScope.Text.Quoted

/-!
# Configuration

A configuration holds the closed vocabularies that filter values are checked against, the filters
whose rejection fails a compilation, and how dates and free text are read.
-/

namespace RowScope

/-- What a filter contributes when none of its values is in the vocabulary. -/
inductive RejectionPolicy where
  /-- Nothing. -/
  | ignore
  /-- A condition that no row meets. -/
  | matchNothing
deriving DecidableEq, Repr

/-- The name of a policy. -/
def RejectionPolicy.name : RejectionPolicy → String
  | ignore => "ignore"
  | matchNothing => "match_nothing"

/-- A closed set of values. -/
structure Vocabulary where
  /-- The values. -/
  values : OrderedSet String
  /-- What follows when none of them is given. -/
  onReject : RejectionPolicy
deriving DecidableEq

/-- Whether a value is in the vocabulary, exactly as it is written. -/
def Vocabulary.contains (v : Vocabulary) (value : String) : Bool :=
  OrderedMap.contains v.values value

/-- The vocabularies that filters are checked against. -/
inductive VocabularyName where
  | roles
  | topics
  | reasons
  | goalStatuses
deriving DecidableEq, Repr

/-- The names of the vocabularies in the order in which they are checked. -/
def VocabularyName.all : List VocabularyName := [roles, topics, reasons, goalStatuses]

/-- The name of a vocabulary. -/
def VocabularyName.name : VocabularyName → String
  | roles => "roles"
  | topics => "topics"
  | reasons => "reasons"
  | goalStatuses => "goal_statuses"

/-- One vocabulary under each name. -/
structure Vocabularies where
  /-- The roles of specialists. -/
  roles : Vocabulary
  /-- The topics of reports. -/
  topics : Vocabulary
  /-- The reasons for reports. -/
  reasons : Vocabulary
  /-- The statuses of goals. -/
  goalStatuses : Vocabulary

/-- The vocabulary of a name. -/
def Vocabularies.get (v : Vocabularies) : VocabularyName → Vocabulary
  | .roles => v.roles
  | .topics => v.topics
  | .reasons => v.reasons
  | .goalStatuses => v.goalStatuses

/-! ## The common vocabularies -/

/-- The roles of specialists. -/
def commonRoles : List String :=
  ["Central Office: TTA and Comprehensive Services Division",
    "Central Office: Other Divisions",
    "TTAC",
    "Admin. Assistant",
    "Early Childhood Manager",
    "Early Childhood Specialist",
    "Family Engagement Specialist",
    "Grantee Specialist Manager",
    "Grantee Specialist",
    "Health Specialist",
    "System Specialist"]

/-- The topics of reports. -/
def commonTopics : List String :=
  ["Behavioral / Mental Health / Trauma",
    "Child Screening and Assessment",
    "CLASS: Classroom Organization",
    "CLASS: Emotional Support",
    "CLASS: Instructional Support",
    "Coaching",
    "Communication",
    "Community and Self-Assessment",
    "Culture & Language",
    "Curriculum (Instructional or Parenting)",
    "Data and Evaluation",
    "Disabilities Services",
    "ERSEA",
    "Emergency Preparedness, Response, and Recovery (EPRR)",
    "Environmental Health and Safety / EPRR",
    "Environmental Health and Safety",
    "Facilities",
    "Family Support Services",
    "Fatherhood / Male Caregiving",
    "Fiscal / Budget",
    "Five-Year Grant",
    "Home Visiting",
    "Human Resources",
    "Leadership / Governance",
    "Learning Environments",
    "Nutrition",
    "Ongoing Monitoring and Continuous Improvement",
    "Oral Health",
    "Parent and Family Engagement",
    "Partnerships and Community Engagement",
    "Physical Health and Screenings",
    "Pregnancy Services / Expectant Families",
    "Program Planning and Services",
    "Quality Improvement Plan / QIP",
    "Recordkeeping and Reporting",
    "Safety Practices",
    "Staff Wellness",
    "Teaching / Caregiving Practices",
    "Technology and Information Systems",
    "Training and Professional Development",
    "Transition Practices",
    "Transportation"]

/-- The reasons for reports. -/
def commonReasons : List String :=
  ["Below Competitive Threshold (CLASS)",
    "Below Quality Threshold (CLASS)",
    "Change in Scope",
    "Child Incident",
    "Complaint",
    "Full Enrollment",
    "New Recipient",
    "New Director or Management",
    "New Program Option",
    "New Staff / Turnover",
    "Ongoing Quality Improvement",
    "Planning/Coordination",
    "School Readiness Goals",
    "Monitoring | Area of Concern",
    "Monitoring | Noncompliance",
    "Monitoring | Deficiency"]

/-- The status that selects the goals whose status was never set. -/
def needsStatus : String := "Needs Status"

/-- The statuses of goals. -/
def commonGoalStatuses : List String :=
  ["Draft", "Not Started", "In Progress", "Suspended", "Closed", needsStatus]

/-- The vocabularies that hold unless others are configured. -/
def Vocabularies.common : Vocabularies where
  roles := ⟨OrderedSet.ofList commonRoles, .ignore⟩
  topics := ⟨OrderedSet.ofList commonTopics, .matchNothing⟩
  reasons := ⟨OrderedSet.ofList commonReasons, .matchNothing⟩
  goalStatuses := ⟨OrderedSet.ofList commonGoalStatuses, .ignore⟩

/-! ## Configurations -/

/-- A configuration of the compiler. -/
structure Config where
  /-- The vocabularies. -/
  vocabularies : Vocabularies
  /-- The keys of the filters whose rejection fails a compilation. -/
  mandatoryFilters : List String
  /-- The format of dates. -/
  dateFormat : String
  /-- Whether percent signs and underscores in free text stand for themselves. -/
  escapeWildcards : Bool

/-- The configuration that holds unless another is given. -/
def Config.common : Config := ⟨.common, [], "%Y/%m/%d", false⟩

/-- What makes a configuration unusable. -/
inductive ConfigFault where
  /-- The date format is blank. -/
  | blankDateFormat
  /-- The date format has a hyphen, which separates the two dates of a window. -/
  | hyphenInDateFormat (format : String)
  /-- A mandatory filter is not written as a key. -/
  | notAKey (text : String)
  /-- A vocabulary is empty. -/
  | emptyVocabulary (vocabulary : VocabularyName)
  /-- No domain has a rule for a mandatory filter. -/
  | unregistered (text : String)
deriving DecidableEq, Repr

/-- The description of a fault. -/
def ConfigFault.message : ConfigFault → String
  | blankDateFormat => "date_format is empty"
  | hyphenInDateFormat format =>
    "date_format " ++ Text.quoted format ++ " must not contain '-', it separates window bounds"
  | notAKey text => "mandatory filter " ++ Text.quoted text ++ " is not a topic.condition key"
  | emptyVocabulary vocabulary => "vocabulary " ++ vocabulary.name ++ " is empty"
  | unregistered text => "mandatory filter " ++ text ++ " is not registered for any domain"

namespace Config

/-- The first fault of a configuration. -/
def fault? (config : Config) : Option ConfigFault :=
  if (Text.trimChars config.dateFormat.toList).isEmpty then some .blankDateFormat
  else if config.dateFormat.toList.contains '-' then some (.hyphenInDateFormat config.dateFormat)
  else
    match config.mandatoryFilters.find? fun text => (FilterKey.ofText? text).isNone with
    | some text => some (.notAKey text)
    | none =>
      (VocabularyName.all.find? fun name => (config.vocabularies.get name).values.isEmpty).map
        .emptyVocabulary

/-- Refuses a configuration with a fault. -/
def validate (config : Config) : Except ConfigFault Unit :=
  match config.fault? with
  | none => .ok ()
  | some fault => .error fault

/-- Whether the rejection of a filter fails a compilation. -/
def isMandatory (config : Config) (key : FilterKey) : Bool :=
  (config.mandatoryFilters.filterMap FilterKey.ofText?).contains key

end Config

end RowScope
