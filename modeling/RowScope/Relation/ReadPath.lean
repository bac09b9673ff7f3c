import RowScope.Relation.Path

/-!
# The paths that filters read through

Every path that a filter may follow has a name here, with its root table, its steps, and the columns
of its terminal table that are read. `ReadPaths.resolve` finds all of them in a catalog before any
filter is compiled, so an unknown table, edge or column is noticed then.
-/

namespace RowScope

/-- A path that filters follow. -/
inductive ReadPath where
  | grant
  | grantRecipient
  | grantPrograms
  | grantGroups
  | grantGoals
  | report
  | reportGrants
  | reportRecipients
  | reportOtherEntities
  | reportPrograms
  | reportAuthor
  | reportCollaborators
  | reportCollaboratorLinks
  | reportApprovers
  | reportObjectiveTopics
  | reportFiles
  | reportGoals
  | reportObjectives
  | reportNextSteps
  | reportGroups
  | goal
  | goalGrant
  | goalGroups
  | goalReports
  | goalReportGoals
  | goalObjectiveTopics
  | goalReportObjectives
  | goalNextSteps
  | goalReportResources
  | goalReportGoalResources
  | goalReportObjectiveResources
  | goalNextStepResources
  | goalReportFiles
  | recipient
  | recipientGrants
  | recipientPrograms
  | trainingReport
  | trainingReportCollaboratorCenters
  | trainingReportOwnerCenters
deriving DecidableEq, Repr

namespace ReadPath

/-- All paths in the order in which they are resolved. -/
def all : List ReadPath :=
  [grant, grantRecipient, grantPrograms, grantGroups, grantGoals, report, reportGrants,
    reportRecipients, reportOtherEntities, reportPrograms, reportAuthor, reportCollaborators,
    reportCollaboratorLinks, reportApprovers, reportObjectiveTopics, reportFiles, reportGoals,
    reportObjectives, reportNextSteps, reportGroups, goal, goalGrant, goalGroups, goalReports,
    goalReportGoals, goalObjectiveTopics, goalReportObjectives, goalNextSteps,
    goalReportResources, goalReportGoalResources, goalReportObjectiveResources,
    goalNextStepResources, goalReportFiles, recipient, recipientGrants, recipientPrograms,
    trainingReport, trainingReportCollaboratorCenters, trainingReportOwnerCenters]

/-- The root table of a path. -/
def root : ReadPath → String
  | grant | grantRecipient | grantPrograms | grantGroups | grantGoals => "Grants"
  | report | reportGrants | reportRecipients | reportOtherEntities | reportPrograms | reportAuthor
  | reportCollaborators | reportCollaboratorLinks | reportApprovers | reportObjectiveTopics
  | reportFiles | reportGoals | reportObjectives | reportNextSteps | reportGroups =>
    "ActivityReports"
  | goal | goalGrant | goalGroups | goalReports | goalReportGoals | goalObjectiveTopics
  | goalReportObjectives | goalNextSteps | goalReportResources | goalReportGoalResources
  | goalReportObjectiveResources | goalNextStepResources | goalReportFiles => "Goals"
  | recipient | recipientGrants | recipientPrograms => "Recipients"
  | trainingReport | trainingReportCollaboratorCenters | trainingReportOwnerCenters =>
    "EventReportPilots"

/-- The steps of a path. -/
def hops : ReadPath → List String
  | grant => []
  | grantRecipient => ["recipient"]
  | grantPrograms => ["programs"]
  | grantGroups => ["groupGrants", "group"]
  | grantGoals => ["goals"]
  | report => []
  | reportGrants => ["activityRecipients", "grant"]
  | reportRecipients => ["activityRecipients", "grant", "recipient"]
  | reportOtherEntities => ["activityRecipients", "otherEntity"]
  | reportPrograms => ["activityRecipients", "grant", "programs"]
  | reportAuthor => ["author"]
  | reportCollaborators => ["collaborators", "user"]
  | reportCollaboratorLinks => ["collaborators"]
  | reportApprovers => ["approvers"]
  | reportObjectiveTopics => ["reportObjectives", "topics", "topic"]
  | reportFiles => ["files", "file"]
  | reportGoals => ["reportGoals"]
  | reportObjectives => ["reportObjectives"]
  | reportNextSteps => ["nextSteps"]
  | reportGroups => ["activityRecipients", "grant", "groupGrants", "group"]
  | goal => []
  | goalGrant => ["grant"]
  | goalGroups => ["grant", "groupGrants", "group"]
  | goalReports => ["reportGoals", "report"]
  | goalReportGoals => ["reportGoals"]
  | goalObjectiveTopics => ["objectives", "objectiveTopics", "topic"]
  | goalReportObjectives => ["objectives", "reportObjectives"]
  | goalNextSteps => ["reportGoals", "report", "nextSteps"]
  | goalReportResources => ["reportGoals", "report", "resources", "resource"]
  | goalReportGoalResources => ["reportGoals", "resources", "resource"]
  | goalReportObjectiveResources => ["objectives", "reportObjectives", "resources", "resource"]
  | goalNextStepResources => ["reportGoals", "report", "nextSteps", "resources", "resource"]
  | goalReportFiles => ["reportGoals", "report", "files", "file"]
  | recipient => []
  | recipientGrants => ["grants"]
  | recipientPrograms => ["grants", "programs"]
  | trainingReport => []
  | trainingReportCollaboratorCenters => ["nationalCenterUsers"]
  | trainingReportOwnerCenters => ["owner", "nationalCenterUsers", "nationalCenter"]

/-- The columns that every filter on groups reads. -/
def groupColumns : List String := ["id", "name", "userId", "isPublic"]

/-- The columns of the terminal table that are read through a path. -/
def columns : ReadPath → List String
  | grant => ["regionId", "programSpecialistName", "number", "stateCode", "startDate", "endDate"]
  | grantRecipient => ["name"]
  | grantPrograms => ["programType"]
  | grantGroups => groupColumns
  | grantGoals => ["name"]
  | report =>
    ["id", "regionId", "userId", "calculatedStatus", "startDate", "endDate", "updatedAt",
      "topics", "reason", "context", "additionalNotes", "deliveryMethod", "participants",
      "ttaType", "targetPopulations"]
  | reportGrants => ["recipientId", "number", "programSpecialistName", "stateCode"]
  | reportRecipients => ["name"]
  | reportOtherEntities => ["name"]
  | reportPrograms => ["programType"]
  | reportAuthor => ["name", "role"]
  | reportCollaborators => ["name", "role"]
  | reportCollaboratorLinks => ["userId"]
  | reportApprovers => ["userId"]
  | reportObjectiveTopics => ["name"]
  | reportFiles => ["originalFileName"]
  | reportGoals => ["name"]
  | reportObjectives => ["title", "ttaProvided"]
  | reportNextSteps => ["note"]
  | reportGroups => groupColumns
  | goal => ["name", "status", "createdAt", "isRttapa"]
  | goalGrant => ["regionId", "recipientId", "number"]
  | goalGroups => groupColumns
  | goalReports => ["reason", "context", "additionalNotes"]
  | goalReportGoals => ["name"]
  | goalObjectiveTopics => ["name"]
  | goalReportObjectives => ["title", "ttaProvided"]
  | goalNextSteps => ["note"]
  | goalReportResources => ["url"]
  | goalReportGoalResources => ["url"]
  | goalReportObjectiveResources => ["url"]
  | goalNextStepResources => ["url"]
  | goalReportFiles => ["originalFileName"]
  | recipient => ["name"]
  | recipientGrants => ["regionId", "programSpecialistName", "number", "stateCode"]
  | recipientPrograms => ["programType"]
  | trainingReport => ["regionId", "startDate", "eventId"]
  | trainingReportCollaboratorCenters => ["nationalCenterName"]
  | trainingReportOwnerCenters => ["name"]

/-- The path in a catalog. -/
def resolve (p : ReadPath) (c : Catalog) : Except SchemaFault RelationPath := do
  (← c.path p.root p.hops).require p.columns

end ReadPath

/-- All paths that filters follow, as they are in one catalog. -/
structure ReadPaths where
  /-- The path of a name. -/
  get : ReadPath → RelationPath

namespace ReadPaths

/-- The entry of a name in a list that has one. -/
def lookUp (found : List (ReadPath × RelationPath)) (p : ReadPath) : RelationPath :=
  match found.find? fun entry => entry.1 = p with
  | some entry => entry.2
  | none => ⟨p.root, "", [], []⟩

/-- Finds all paths in a catalog. -/
def resolve (c : Catalog) : Except SchemaFault ReadPaths := do
  let found ← ReadPath.all.mapM fun p => do return (p, ← p.resolve c)
  return ⟨lookUp found⟩

end ReadPaths

end RowScope
