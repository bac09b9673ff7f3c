import RowScope.Rule.Table

/-!
# The standard rules

The rules of the five domains. A topic means the same in all of them, but each domain reads it
through paths of its own.
-/

namespace RowScope

/-- The conditions on parts of a text. -/
def partConditions : List Condition := [.contains, .lacks]

/-- The conditions on membership in a list. -/
def listConditions : List Condition := [.oneOf, .noneOf]

/-- The conditions on dates. -/
def dateConditions : List Condition := [.before, .after, .window]

/-- The conditions of topics that look for parts of a text under either name. -/
def textConditions : List Condition := partConditions ++ listConditions

/-- The conditions of topics that have no negative one. -/
def idConditions : List Condition := [.contains, .oneOf]

/-- One of some columns contains one of the texts. -/
def Rule.contains (fields : List Field) : Rule := .related (.contains fields)

/-- A column contains one of the texts. -/
def Rule.containsAt (path : ReadPath) (column : String) : Rule := .contains [.one path column]

/-- A column is one of the integers. -/
def Rule.integerAt (path : ReadPath) (column : String) : Rule :=
  .related (.integer (.one path column))

/-- A column has one of the texts. -/
def Rule.textAt (path : ReadPath) (column : String) : Rule := .related (.text (.one path column))

/-- An array shares an element with the texts. -/
def Rule.overlapsAt (path : ReadPath) (column : String) : Rule :=
  .related (.text (.many path column))

/-- A column is in the window of dates. -/
def Rule.dateAt (path : ReadPath) (column : String) : Rule := .related (.date (.one path column))

/-- One of some fields has one of the texts, members of a vocabulary. -/
def Rule.member (vocabulary : VocabularyName) (fields : List Field) : Rule :=
  .related (.member vocabulary fields)

/-- The rules of grants. Under `startDate` a grant is sought that was active in the window. -/
def grantRules : List TopicRule :=
  [⟨.region, listConditions, .integerAt .grant "regionId"⟩,
    ⟨.recipient, partConditions, .containsAt .grantRecipient "name"⟩,
    ⟨.programSpecialist, partConditions, .containsAt .grant "programSpecialistName"⟩,
    ⟨.programType, listConditions, .textAt .grantPrograms "programType"⟩,
    ⟨.grantNumber, partConditions, .containsAt .grant "number"⟩,
    ⟨.stateCode, [.contains], .containsAt .grant "stateCode"⟩,
    ⟨.startDate, dateConditions,
      .related (.period (.one .grant "startDate") (.one .grant "endDate"))⟩,
    ⟨.group, listConditions, .related (.groupText (.one .grantGroups "name"))⟩,
    ⟨.goalName, partConditions, .containsAt .grantGoals "name"⟩]

/-- The texts of a report's narrative, its goals, objectives and next steps. -/
def reportTexts : List Field :=
  [.one .report "context", .one .report "additionalNotes",
    .one .reportGoals "name", .one .reportObjectives "title",
    .one .reportObjectives "ttaProvided", .one .reportNextSteps "note"]

/-- The parts that a user may have in a report. -/
def reportParts : List (String × Field) :=
  [("Creator", .one .report "userId"),
    ("Collaborator", .one .reportCollaboratorLinks "userId"),
    ("Approver", .one .reportApprovers "userId")]

/-- The numbers of recipients of a report that have a name. -/
def recipientCounts : List (String × CompareOp × Int64) :=
  [("single-recipient", .eq, 1), ("multi-recipients", .gt, 1)]

/-- The rules of activity reports. -/
def activityReportRules : List TopicRule :=
  [⟨.reportId, listConditions, .integerAt .report "id"⟩,
    ⟨.region, listConditions, .integerAt .report "regionId"⟩,
    ⟨.recipient, partConditions,
      .contains [.one .reportRecipients "name", .one .reportOtherEntities "name"]⟩,
    ⟨.recipientId, idConditions, .integerAt .reportGrants "recipientId"⟩,
    ⟨.grantNumber, partConditions, .containsAt .reportGrants "number"⟩,
    ⟨.stateCode, [.contains], .containsAt .reportGrants "stateCode"⟩,
    ⟨.programSpecialist, textConditions, .containsAt .reportGrants "programSpecialistName"⟩,
    ⟨.programType, listConditions, .textAt .reportPrograms "programType"⟩,
    ⟨.singleOrMultiRecipients, [.oneOf], .count .reportRecipients recipientCounts⟩,
    ⟨.startDate, dateConditions, .dateAt .report "startDate"⟩,
    ⟨.endDate, dateConditions, .dateAt .report "endDate"⟩,
    ⟨.lastSaved, dateConditions, .dateAt .report "updatedAt"⟩,
    ⟨.creator, textConditions, .containsAt .reportAuthor "name"⟩,
    ⟨.collaborators, textConditions, .containsAt .reportCollaborators "name"⟩,
    ⟨.myReports, listConditions, .related (.user reportParts)⟩,
    ⟨.role, listConditions,
      .member .roles [.many .reportAuthor "role", .many .reportCollaborators "role"]⟩,
    ⟨.reportTopic, listConditions,
      .member .topics [.many .report "topics", .one .reportObjectiveTopics "name"]⟩,
    ⟨.reason, listConditions, .member .reasons [.many .report "reason"]⟩,
    ⟨.status, listConditions, .containsAt .report "calculatedStatus"⟩,
    ⟨.resourceAttachment, partConditions, .containsAt .reportFiles "originalFileName"⟩,
    ⟨.reportText, partConditions, .contains reportTexts⟩,
    ⟨.otherEntities, listConditions, .textAt .reportOtherEntities "name"⟩,
    ⟨.deliveryMethod, listConditions, .textAt .report "deliveryMethod"⟩,
    ⟨.participants, listConditions, .overlapsAt .report "participants"⟩,
    ⟨.targetPopulations, listConditions, .overlapsAt .report "targetPopulations"⟩,
    ⟨.ttaType, listConditions,
      .related (.combination (.many .report "ttaType") ["training", "technical-assistance"])⟩,
    ⟨.group, listConditions, .related (.groupInteger (.one .reportGroups "id"))⟩]

/-- The texts of a goal's reports. -/
def goalTexts : List Field :=
  [.one .goalReports "context", .one .goalReports "additionalNotes",
    .one .goalReportGoals "name", .one .goalReportObjectives "title",
    .one .goalReportObjectives "ttaProvided", .one .goalNextSteps "note"]

/-- The links of a goal's reports, report goals, report objectives and next steps. -/
def goalLinks : List Field :=
  [.one .goalReportResources "url", .one .goalReportGoalResources "url",
    .one .goalReportObjectiveResources "url", .one .goalNextStepResources "url"]

/-- The rules of goals. -/
def goalRules : List TopicRule :=
  [⟨.status, listConditions,
      .related (.memberOrUnset .goalStatuses needsStatus (.one .goal "status"))⟩,
    ⟨.createDate, dateConditions, .dateAt .goal "createdAt"⟩,
    ⟨.region, listConditions, .integerAt .goalGrant "regionId"⟩,
    ⟨.recipientId, idConditions, .integerAt .goalGrant "recipientId"⟩,
    ⟨.grantNumber, partConditions, .containsAt .goalGrant "number"⟩,
    ⟨.grantNumber, listConditions, .textAt .goalGrant "number"⟩,
    ⟨.goalType, listConditions,
      .related (.flag (.one .goal "isRttapa") [("RTTAPA", "Yes"), ("Non-RTTAPA", "No")])⟩,
    ⟨.goalName, partConditions, .containsAt .goal "name"⟩,
    ⟨.reason, listConditions, .member .reasons [.many .goalReports "reason"]⟩,
    ⟨.reportTopic, listConditions, .member .topics [.one .goalObjectiveTopics "name"]⟩,
    ⟨.reportText, partConditions, .contains goalTexts⟩,
    ⟨.resourceUrl, partConditions, .contains goalLinks⟩,
    ⟨.resourceAttachment, partConditions, .containsAt .goalReportFiles "originalFileName"⟩,
    ⟨.group, listConditions, .related (.groupInteger (.one .goalGroups "id"))⟩]

/-- The rules of training reports. Their creators and collaborators are known by the national
centers that they belong to. -/
def trainingReportRules : List TopicRule :=
  [⟨.region, listConditions, .integerAt .trainingReport "regionId"⟩,
    ⟨.startDate, dateConditions, .dateAt .trainingReport "startDate"⟩,
    ⟨.eventId, partConditions, .containsAt .trainingReport "eventId"⟩,
    ⟨.collaborators, listConditions,
      .textAt .trainingReportCollaboratorCenters "nationalCenterName"⟩,
    ⟨.creator, listConditions, .textAt .trainingReportOwnerCenters "name"⟩]

/-- The rules of recipients. What is said of grants is asked of any grant of the recipient. -/
def recipientRules : List TopicRule :=
  [⟨.recipient, partConditions, .containsAt .recipient "name"⟩,
    ⟨.region, listConditions, .integerAt .recipientGrants "regionId"⟩,
    ⟨.programSpecialist, partConditions, .containsAt .recipientGrants "programSpecialistName"⟩,
    ⟨.grantNumber, partConditions, .containsAt .recipientGrants "number"⟩,
    ⟨.stateCode, [.contains], .containsAt .recipientGrants "stateCode"⟩,
    ⟨.programType, listConditions, .textAt .recipientPrograms "programType"⟩]

/-- The standard rules of a domain. -/
def Domain.standardRules : Domain → List TopicRule
  | .grant => grantRules
  | .activityReport => activityReportRules
  | .goal => goalRules
  | .trainingReport => trainingReportRules
  | .recipient => recipientRules

/-- The table of the standard rules. -/
def RuleTable.standard : Except RuleKey RuleTable :=
  RuleTable.ofRules (Domain.all.map fun domain => (domain, domain.standardRules))

end RowScope
