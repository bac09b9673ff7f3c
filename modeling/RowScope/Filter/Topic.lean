/-!
# Topics and conditions

A topic is the field that a filter is about, a condition the way it compares. Both are read from
their names exactly as they are written.
-/

namespace RowScope

/-- What a filter is about. -/
inductive Topic where
  | region
  | recipient
  | recipientId
  | programSpecialist
  | programType
  | grantNumber
  | stateCode
  | startDate
  | group
  | goalName
  | reportId
  | singleOrMultiRecipients
  | lastSaved
  | creator
  /-- The topics of a report, named `topic` in requests. -/
  | reportTopic
  | reason
  | collaborators
  | role
  | status
  | resourceAttachment
  | createDate
  | reportText
  | resourceUrl
  | eventId
  | goalType
  | endDate
  | otherEntities
  | deliveryMethod
  | participants
  | ttaType
  | targetPopulations
  | myReports
deriving DecidableEq, Repr

namespace Topic

/-- All topics. -/
def all : List Topic :=
  [region, recipient, recipientId, programSpecialist, programType, grantNumber, stateCode,
    startDate, group, goalName, reportId, singleOrMultiRecipients, lastSaved, creator,
    reportTopic, reason, collaborators, role, status, resourceAttachment, createDate,
    reportText, resourceUrl, eventId, goalType, endDate, otherEntities, deliveryMethod,
    participants, ttaType, targetPopulations, myReports]

/-- The name of a topic in requests. -/
def name : Topic → String
  | region => "region"
  | recipient => "recipient"
  | recipientId => "recipientId"
  | programSpecialist => "programSpecialist"
  | programType => "programType"
  | grantNumber => "grantNumber"
  | stateCode => "stateCode"
  | startDate => "startDate"
  | group => "group"
  | goalName => "goalName"
  | reportId => "reportId"
  | singleOrMultiRecipients => "singleOrMultiRecipients"
  | lastSaved => "lastSaved"
  | creator => "creator"
  | reportTopic => "topic"
  | reason => "reason"
  | collaborators => "collaborators"
  | role => "role"
  | status => "status"
  | resourceAttachment => "resourceAttachment"
  | createDate => "createDate"
  | reportText => "reportText"
  | resourceUrl => "resourceUrl"
  | eventId => "eventId"
  | goalType => "goalType"
  | endDate => "endDate"
  | otherEntities => "otherEntities"
  | deliveryMethod => "deliveryMethod"
  | participants => "participants"
  | ttaType => "ttaType"
  | targetPopulations => "targetPopulations"
  | myReports => "myReports"

/-- The topic of a name. -/
def ofName? (name : String) : Option Topic := all.find? fun t => t.name == name

end Topic

/-- Which rows a filter keeps. -/
inductive Mode where
  /-- Those that match. -/
  | including
  /-- Those that do not match. -/
  | excluding
deriving DecidableEq, Repr

/-- The name of a mode. -/
def Mode.name : Mode → String
  | including => "include"
  | excluding => "exclude"

/-- The mode of a name. -/
def Mode.ofName? (name : String) : Option Mode :=
  [including, excluding].find? fun mode => mode.name == name

/-- How a filter compares. -/
inductive Condition where
  | contains
  | lacks
  | oneOf
  | noneOf
  /-- On a date or before it. -/
  | before
  /-- On a date or after it. -/
  | after
  /-- In a window of two dates. -/
  | window
deriving DecidableEq, Repr

namespace Condition

/-- All conditions. -/
def all : List Condition := [contains, lacks, oneOf, noneOf, before, after, window]

/-- The name of a condition in requests. -/
def name : Condition → String
  | contains => "ctn"
  | lacks => "nctn"
  | oneOf => "in"
  | noneOf => "nin"
  | before => "bef"
  | after => "aft"
  | window => "win"

/-- The condition of a name. -/
def ofName? (name : String) : Option Condition := all.find? fun c => c.name == name

/-- The negative conditions keep the rows that do not match. -/
def mode : Condition → Mode
  | lacks | noneOf => .excluding
  | contains | oneOf | before | after | window => .including

end Condition

end RowScope
