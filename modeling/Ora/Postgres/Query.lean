import Ora.Postgres.Executions

/-!
# Filters on jobs and schedules

The statements built in `query/jobs.rs` and `query/schedules.rs`: which rows a
filter selects, cancelling jobs and stopping schedules.  A comparison with
`NULL` selects no row.
-/

namespace Ora.Postgres

open Ora.Backend

variable {α : Type} [DecidableEq α]

/-- `column = ANY($1)`, no condition when no list is given. -/
def anyOf (allowed : Option (List α)) (value : α) : Bool :=
  match allowed with
  | none => true
  | some values => values.contains value

/-- `column = ANY($1)` for a nullable column. -/
def anyOfNullable (allowed : Option (List α)) (value : Option α) : Bool :=
  match allowed with
  | none => true
  | some values => value.any fun value => values.contains value

def withinRange (range : Option TimeRange) (time : Time) : Bool :=
  match range with
  | none => true
  | some range =>
      (range.start.all fun start => decide (systemtimeToTs start ≤ time)) &&
        (range.stop.all fun stop => decide (time < systemtimeToTs stop))

def labelMatches (filter : LabelFilter) (key value : String) : Bool :=
  key == filter.key &&
    match filter.valueIn with
    | some values => values.contains value
    | none => filter.value.all fun expected => value == expected

def inactiveStatuses : List ExecutionStatus :=
  [.succeeded, .failed, .cancelled]

/-- The condition on a pending execution, if any is selected. -/
def pendingCondition (now : Time) (scheduled ready : Bool) : Option (ExecutionRow → Bool) :=
  match scheduled, ready with
  | true, true => some fun row => row.status == .pending
  | true, false => some fun row => row.status == .pending && decide (now < row.targetExecutionTime)
  | false, true => some fun row => row.status == .pending && decide (row.targetExecutionTime ≤ now)
  | false, false => none

def inProgressCondition (inProgress : Bool) : Option (ExecutionRow → Bool) :=
  if inProgress then some fun row => row.status == .inProgress else none

/-- Filters jobs by the status of their latest execution and the reason it is
pending, without statuses only pending jobs are matched. -/
def statusFilter (store : Store) (now : Time) (statuses : Option (List ExecutionStatus))
    (pendingReasons : Option (List ExecutionPendingReason)) (job : JobRow) : Bool :=
  let statuses := statuses.getD [.pending]
  let inactiveValues := inactiveStatuses.filter fun status => statuses.contains status
  let pending := statuses.contains .pending
  let scheduled := pending && pendingReasons.all fun reasons => reasons.contains .scheduled
  let ready := pending && pendingReasons.all fun reasons => reasons.contains .ready
  let inProgress := statuses.contains .inProgress
  let allActive := scheduled && ready && inProgress
  let allInactive := inactiveValues.length == inactiveStatuses.length
  if allActive && allInactive then
    true
  else
    let conditions :=
      (pendingCondition now scheduled ready).toList ++ (inProgressCondition inProgress).toList
    -- Active jobs have no stored status.
    let active :=
      if allActive then
        some job.inactiveStatus.isNone
      else if conditions.isEmpty then
        none
      else
        some (job.inactiveStatus.isNone && store.executions.rows.any fun row =>
          row.jobId == job.id && conditions.any fun condition => condition row)
    let inactive :=
      if inactiveValues.isEmpty then
        none
      else if allInactive then
        some job.inactiveStatus.isSome
      else
        some (job.inactiveStatus.any fun status => inactiveValues.contains status)
    match active, inactive with
    | some active, some inactive => active || inactive
    | some filter, none => filter
    | none, some filter => filter
    | none, none => false

/-- The conditions of a filter on a joined execution. -/
def executionMatches (filters : JobFilters) (row : ExecutionRow) : Bool :=
  anyOf filters.executionIds row.id && anyOfNullable filters.executorIds row.executorId

/-- The conditions of a filter that need no join. -/
def jobMatches (store : Store) (now : Time) (filters : JobFilters) (job : JobRow) : Bool :=
  anyOf filters.jobIds job.id &&
  anyOf filters.jobTypeIds job.jobTypeId &&
  withinRange filters.targetExecutionTime job.targetExecutionTime &&
  withinRange filters.createdAt job.createdAt &&
  (if filters.executionStatuses.isSome || filters.pendingReasons.isSome then
    statusFilter store now filters.executionStatuses filters.pendingReasons job
  else
    true) &&
  ((filters.labels.getD []).all fun filter => store.jobLabels.rows.any fun label =>
    label.jobId == job.id && labelMatches filter label.labelKey label.labelValue) &&
  anyOfNullable filters.scheduleIds job.scheduleId &&
  (filters.minPriority.all fun least => decide (least ≤ job.priority)) &&
  (filters.maxPriority.all fun greatest => decide (job.priority ≤ greatest))

/-- The selected rows and whether executions are joined, which repeats a job
for each matching execution. -/
def filteredJobs (store : Store) (now : Time) (filters : JobFilters) : List JobRow × Bool :=
  let executionsJoined := filters.executionIds.isSome || filters.executorIds.isSome
  let joined :=
    if executionsJoined then
      store.jobs.rows.flatMap fun job =>
        (store.executions.rows.filter fun row =>
          row.jobId == job.id && executionMatches filters row).map fun _ => job
    else
      store.jobs.rows
  (joined.filter (jobMatches store now filters), executionsJoined)

def selectJobIds (store : Store) (now : Time) (filters : JobFilters) : List JobId :=
  let (jobs, executionsJoined) := filteredJobs store now filters
  let ids := jobs.map fun job => job.id
  if executionsJoined then ids.dedup else ids

/-- The statuses of the jobs to cancel, `none` when only finished jobs were requested. -/
def cancelStatuses (filters : JobFilters) : Option (List ExecutionStatus) :=
  match filters.executionStatuses with
  | some statuses =>
      let statuses := statuses.filter fun status => status == .pending || status == .inProgress
      if statuses.isEmpty then none else some statuses
  | none => if filters.pendingReasons.isSome then some [.pending] else some [.inProgress, .pending]

/-- The active executions of the selected jobs. -/
def cancelSelected (ids : List JobId) (row : ExecutionRow) : Bool :=
  ids.contains row.jobId && row.active

def cancelRow (ids : List JobId) (now : Time) (row : ExecutionRow) : ExecutionRow :=
  if cancelSelected ids row then { row with cancelledAt := some now } else row

theorem cancelRow_keeps (ids : List JobId) (now : Time) (row : ExecutionRow) :
    (cancelRow ids now row).id = row.id ∧ (cancelRow ids now row).jobId = row.jobId := by
  unfold cancelRow
  split <;> exact ⟨rfl, rfl⟩

def jobTypeOf (store : Store) (id : JobId) : JobTypeId :=
  match store.jobs.find? id with
  | some job => job.jobTypeId
  | none => ""

/-- One execution of the update statement. -/
def cancelRound (store : Store) (now : Time) (filters : JobFilters) : Store × List CancelledJob :=
  let ids := selectJobIds store now filters
  (store.modifyExecutions (cancelRow ids now) (cancelRow_keeps ids now),
    (store.executions.rows.filter (cancelSelected ids)).map fun row =>
      ⟨row.jobId, row.id, jobTypeOf store row.jobId⟩)

/-- The first row of each job, in the order in which the rows are returned. -/
def firstPerJob (seen : List JobId) : List CancelledJob → List CancelledJob
  | [] => []
  | row :: rest =>
      if seen.contains row.jobId then
        firstPerJob seen rest
      else
        row :: firstPerJob (row.jobId :: seen) rest

/-- The update is repeated once, for executions retried concurrently. -/
def cancelJobs (store : Store) (now : Time) (filters : JobFilters) : Store × List CancelledJob :=
  match cancelStatuses filters with
  | none => (store, [])
  | some statuses =>
      let filters := { filters with executionStatuses := some statuses }
      let first := cancelRound store now filters
      let second := cancelRound first.1 now filters
      (second.1, firstPerJob [] (first.2 ++ second.2))

def scheduleStatusMatches (statuses : Option (List ScheduleStatus)) (row : ScheduleRow) : Bool :=
  match statuses with
  | none => true
  | some statuses =>
      match statuses.contains .active, statuses.contains .stopped with
      | true, true => true
      | true, false => row.stoppedAt.isNone
      | false, true => row.stoppedAt.isSome
      | false, false => false

def scheduleMatches (store : Store) (filters : ScheduleFilters) (row : ScheduleRow) : Bool :=
  anyOf filters.scheduleIds row.id &&
  anyOf filters.jobTypeIds row.jobTemplateJobTypeId &&
  withinRange filters.createdAt row.createdAt &&
  ((filters.labels.getD []).all fun filter => store.scheduleLabels.rows.any fun label =>
    label.scheduleId == row.id && labelMatches filter label.labelKey label.labelValue) &&
  scheduleStatusMatches filters.statuses row

def selectScheduleIds (store : Store) (filters : ScheduleFilters) : List ScheduleId :=
  ((store.schedules.rows.filter (scheduleMatches store filters)).map fun row => row.id).dedup

def stopRow (ids : List ScheduleId) (now : Time) (row : ScheduleRow) : ScheduleRow :=
  if ids.contains row.id then { row with stoppedAt := some now } else row

theorem stopRow_id (ids : List ScheduleId) (now : Time) (row : ScheduleRow) :
    (stopRow ids now row).id = row.id := by
  unfold stopRow
  split <;> rfl

def stopSchedules (store : Store) (now : Time) (filters : ScheduleFilters) :
    Store × List ScheduleId :=
  let ids := selectScheduleIds store { filters with statuses := some [.active] }
  (store.modifySchedules (stopRow ids now) (stopRow_id ids now),
    (store.schedules.rows.filter fun row => ids.contains row.id).map fun row => row.id)

end Ora.Postgres
