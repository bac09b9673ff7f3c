import RowScope.Relation.Path

/-!
# The schema of the application

The tables and edges of the grants application: grants and their recipients, goals and objectives,
activity reports with everything that hangs on them, and training reports. Every table has the key
`id`.
-/

namespace RowScope

/-- A table with the key `id`. -/
def keyedTable (name : String) (columns : List String) : Table := ⟨name, "id", columns⟩

/-- The tables of the schema. -/
def standardTables : List Table :=
  [keyedTable "Grants"
      ["id", "number", "regionId", "recipientId", "programSpecialistName", "stateCode",
        "startDate", "endDate"],
    keyedTable "Recipients" ["id", "name"],
    keyedTable "Programs" ["id", "grantId", "programType"],
    keyedTable "Groups" ["id", "name", "userId", "isPublic"],
    keyedTable "GroupGrants" ["id", "groupId", "grantId"],
    keyedTable "Goals" ["id", "name", "status", "createdAt", "grantId", "isRttapa"],
    keyedTable "Objectives" ["id", "goalId", "title"],
    keyedTable "ObjectiveTopics" ["id", "objectiveId", "topicId"],
    keyedTable "Topics" ["id", "name"],
    keyedTable "ActivityReports"
      ["id", "regionId", "userId", "calculatedStatus", "startDate", "updatedAt", "topics",
        "reason", "context", "additionalNotes", "endDate", "deliveryMethod", "participants",
        "ttaType", "targetPopulations"],
    keyedTable "ActivityReportGoals" ["id", "activityReportId", "goalId", "name"],
    keyedTable "ActivityReportGoalResources" ["id", "activityReportGoalId", "resourceId"],
    keyedTable "ActivityReportObjectives"
      ["id", "activityReportId", "objectiveId", "title", "ttaProvided"],
    keyedTable "ActivityReportObjectiveTopics" ["id", "activityReportObjectiveId", "topicId"],
    keyedTable "ActivityReportObjectiveResources"
      ["id", "activityReportObjectiveId", "resourceId"],
    keyedTable "ActivityRecipients" ["id", "activityReportId", "grantId", "otherEntityId"],
    keyedTable "OtherEntities" ["id", "name"],
    keyedTable "ActivityReportCollaborators" ["id", "activityReportId", "userId"],
    keyedTable "ActivityReportApprovers" ["id", "activityReportId", "userId"],
    keyedTable "Users" ["id", "name", "role"],
    keyedTable "ActivityReportFiles" ["id", "activityReportId", "fileId"],
    keyedTable "Files" ["id", "originalFileName"],
    keyedTable "ActivityReportResources" ["id", "activityReportId", "resourceId"],
    keyedTable "NextSteps" ["id", "activityReportId", "note"],
    keyedTable "NextStepResources" ["id", "nextStepId", "resourceId"],
    keyedTable "Resources" ["id", "url"],
    keyedTable "EventReportPilots" ["id", "eventId", "regionId", "startDate", "ownerId"],
    keyedTable "EventReportPilotNationalCenterUsers"
      ["id", "eventReportPilotId", "nationalCenterName"],
    keyedTable "NationalCenterUsers" ["id", "userId", "nationalCenterId"],
    keyedTable "NationalCenters" ["id", "name"]]

/-- The edge from rows that name a row of another table. -/
def belongsTo (source name foreignKey target : String) : Edge :=
  ⟨source, name, foreignKey, target, "id", .manyToOne⟩

/-- The edge to the rows of another table that name a row. -/
def hasMany (source name target foreignKey : String) : Edge :=
  ⟨source, name, "id", target, foreignKey, .oneToMany⟩

/-- The edges of the schema. -/
def standardEdges : List Edge :=
  [belongsTo "Grants" "recipient" "recipientId" "Recipients",
    hasMany "Grants" "programs" "Programs" "grantId",
    hasMany "Grants" "groupGrants" "GroupGrants" "grantId",
    hasMany "Grants" "goals" "Goals" "grantId",
    belongsTo "GroupGrants" "group" "groupId" "Groups",
    hasMany "Recipients" "grants" "Grants" "recipientId",
    belongsTo "Goals" "grant" "grantId" "Grants",
    hasMany "Goals" "objectives" "Objectives" "goalId",
    hasMany "Goals" "reportGoals" "ActivityReportGoals" "goalId",
    hasMany "Objectives" "objectiveTopics" "ObjectiveTopics" "objectiveId",
    hasMany "Objectives" "reportObjectives" "ActivityReportObjectives" "objectiveId",
    belongsTo "ObjectiveTopics" "topic" "topicId" "Topics",
    belongsTo "ActivityReportGoals" "report" "activityReportId" "ActivityReports",
    hasMany "ActivityReportGoals" "resources" "ActivityReportGoalResources" "activityReportGoalId",
    belongsTo "ActivityReportGoalResources" "resource" "resourceId" "Resources",
    belongsTo "ActivityReports" "author" "userId" "Users",
    hasMany "ActivityReports" "collaborators" "ActivityReportCollaborators" "activityReportId",
    hasMany "ActivityReports" "activityRecipients" "ActivityRecipients" "activityReportId",
    hasMany "ActivityReports" "reportObjectives" "ActivityReportObjectives" "activityReportId",
    hasMany "ActivityReports" "files" "ActivityReportFiles" "activityReportId",
    hasMany "ActivityReports" "resources" "ActivityReportResources" "activityReportId",
    hasMany "ActivityReports" "nextSteps" "NextSteps" "activityReportId",
    hasMany "ActivityReports" "approvers" "ActivityReportApprovers" "activityReportId",
    hasMany "ActivityReports" "reportGoals" "ActivityReportGoals" "activityReportId",
    belongsTo "ActivityReportCollaborators" "user" "userId" "Users",
    belongsTo "ActivityRecipients" "grant" "grantId" "Grants",
    belongsTo "ActivityRecipients" "otherEntity" "otherEntityId" "OtherEntities",
    hasMany "ActivityReportObjectives" "topics" "ActivityReportObjectiveTopics"
      "activityReportObjectiveId",
    hasMany "ActivityReportObjectives" "resources" "ActivityReportObjectiveResources"
      "activityReportObjectiveId",
    belongsTo "ActivityReportObjectiveTopics" "topic" "topicId" "Topics",
    belongsTo "ActivityReportObjectiveResources" "resource" "resourceId" "Resources",
    belongsTo "ActivityReportFiles" "file" "fileId" "Files",
    belongsTo "ActivityReportResources" "resource" "resourceId" "Resources",
    hasMany "NextSteps" "resources" "NextStepResources" "nextStepId",
    belongsTo "NextStepResources" "resource" "resourceId" "Resources",
    hasMany "EventReportPilots" "nationalCenterUsers" "EventReportPilotNationalCenterUsers"
      "eventReportPilotId",
    belongsTo "EventReportPilots" "owner" "ownerId" "Users",
    hasMany "Users" "nationalCenterUsers" "NationalCenterUsers" "userId",
    belongsTo "NationalCenterUsers" "nationalCenter" "nationalCenterId" "NationalCenters"]

/-- The catalog of the schema. -/
def Catalog.standard : Except SchemaFault Catalog := Catalog.build standardTables standardEdges

end RowScope
