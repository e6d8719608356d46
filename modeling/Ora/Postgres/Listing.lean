import Ora.Postgres.Operations

/-!
# Listing jobs

`job_details` of `query/jobs.rs`: one page of the selected jobs in the
requested order, and the token for the next one.  The token carries the last
job, the filters and the order as JSON.
-/

namespace Ora.Postgres

open Ora.Backend
open Ora.Library

structure PageToken where
  lastJobId : Option JobId
  lastTargetExecutionTime : Option Time
  lastPriority : Option Int
  filters : JobFilters
  orderBy : JobOrderBy

/-- A `SystemTime` is serialized as a duration since the epoch. -/
def timeSerializable (time : Option Time) : Bool :=
  time.all fun time => decide (0 ≤ time)

def rangeSerializable (range : Option TimeRange) : Bool :=
  range.all fun range => timeSerializable range.start && timeSerializable range.stop

def filtersSerializable (filters : JobFilters) : Bool :=
  rangeSerializable filters.targetExecutionTime && rangeSerializable filters.createdAt

def PageToken.serializable (token : PageToken) : Bool :=
  timeSerializable token.lastTargetExecutionTime && filtersSerializable token.filters

/-- The text of a page token, which is read back as the token it was made of. -/
structure NextPageToken where
  token : PageToken
  serializable : token.serializable = true

/-- `PageToken::to_string`, which panics if the token can not be serialized. -/
def PageToken.encode? (token : PageToken) : Option NextPageToken :=
  if serializable : token.serializable = true then some ⟨token, serializable⟩ else none

/-- `ORDER BY` of the requested order. -/
def sortsBefore (orderBy : JobOrderBy) (first second : JobRow) : Bool :=
  match orderBy with
  | .targetExecutionTimeAsc =>
      decide (first.targetExecutionTime < second.targetExecutionTime) ||
        first.targetExecutionTime == second.targetExecutionTime && decide (first.id ≤ second.id)
  | .targetExecutionTimeDesc =>
      decide (second.targetExecutionTime < first.targetExecutionTime) ||
        first.targetExecutionTime == second.targetExecutionTime && decide (first.id ≤ second.id)
  | .priorityAsc =>
      decide (first.priority < second.priority) ||
        first.priority == second.priority && decide (first.id ≤ second.id)
  | .priorityDesc =>
      decide (second.priority < first.priority) ||
        first.priority == second.priority && decide (first.id ≤ second.id)
  | .createdAtAsc => decide (first.id ≤ second.id)
  | .createdAtDesc => decide (second.id ≤ first.id)

/-- The condition on the rows after the last job of a token. -/
def afterToken (token : PageToken) (row : JobRow) : Bool :=
  match token.orderBy with
  | .targetExecutionTimeAsc =>
      match token.lastTargetExecutionTime, token.lastJobId with
      | some time, some id =>
          decide (systemtimeToTs time < row.targetExecutionTime) ||
            row.targetExecutionTime == systemtimeToTs time && decide (id < row.id)
      | _, _ => true
  | .targetExecutionTimeDesc =>
      match token.lastTargetExecutionTime, token.lastJobId with
      | some time, some id =>
          decide (row.targetExecutionTime < systemtimeToTs time) ||
            row.targetExecutionTime == systemtimeToTs time && decide (id < row.id)
      | _, _ => true
  | .priorityAsc =>
      match token.lastPriority, token.lastJobId with
      | some priority, some id =>
          decide (priority < row.priority) || row.priority == priority && decide (id < row.id)
      | _, _ => true
  | .priorityDesc =>
      match token.lastPriority, token.lastJobId with
      | some priority, some id =>
          decide (row.priority < priority) || row.priority == priority && decide (id < row.id)
      | _, _ => true
  | .createdAtAsc =>
      match token.lastJobId with
      | some id => decide (id < row.id)
      | none => true
  | .createdAtDesc =>
      match token.lastJobId with
      | some id => decide (row.id < id)
      | none => true

/-- The rows of a page: the jobs with a selected identifier, after the token, in order. -/
def selectPage (store : Store) (now : Time) (token : PageToken) (pageSize : Nat) : List JobRow :=
  let selected := (selectJobIds store now token.filters).flatMap fun id =>
    store.jobs.rows.filter fun row => row.id == id
  ((selected.filter (afterToken token)).insertionSort fun first second =>
    sortsBefore token.orderBy first second = true).take pageSize

/-- `collect_labels` for one job. -/
def collectLabels (store : Store) (id : JobId) : List Label :=
  ((store.jobLabels.rows.filter fun row => row.jobId == id).insertionSort fun first second =>
    first.labelKey ≤ second.labelKey).map fun row => ⟨row.labelKey, row.labelValue⟩

def pendingReason (now : Time) (row : ExecutionRow) : Option ExecutionPendingReason :=
  if row.status = .pending then
    some (if now < row.targetExecutionTime then .scheduled else .ready)
  else
    none

def executionDetails (now : Time) (row : ExecutionRow) : ExecutionDetails where
  id := row.id
  executorId := row.executorId
  status := row.status
  createdAt := systemtimeFromTs row.createdAt
  startedAt := row.startedAt.map systemtimeFromTs
  succeededAt := row.succeededAt.map systemtimeFromTs
  failedAt := row.failedAt.map systemtimeFromTs
  cancelledAt := row.cancelledAt.map systemtimeFromTs
  outputJson := row.outputJson
  failureReason := row.failureReason
  targetExecutionTime := systemtimeFromTs row.targetExecutionTime
  pendingReason := pendingReason now row

/-- `collect_executions` for one job. -/
def collectExecutions (store : Store) (now : Time) (id : JobId) : List ExecutionDetails :=
  ((store.executions.rows.filter fun row => row.jobId == id).insertionSort fun first second =>
    first.id ≤ second.id).map (executionDetails now)

def rowDetails (store : Store) (now : Time) (row : JobRow) : JobDetails where
  id := row.id
  job :=
    { jobTypeId := row.jobTypeId
      targetExecutionTime := systemtimeFromTs row.targetExecutionTime
      inputPayloadJson := row.inputPayloadJson
      labels := collectLabels store row.id
      timeoutPolicy := row.timeoutPolicyJson
      retryPolicy := row.retryPolicyJson
      priority := row.priority }
  createdAt := systemtimeFromTs row.createdAt
  executions := collectExecutions store now row.id
  scheduleId := row.scheduleId

/-- The token after the last job of a page. -/
def PageToken.advance (token : PageToken) (job : JobDetails) : PageToken :=
  { token with
    lastJobId := some job.id
    lastTargetExecutionTime := some job.job.targetExecutionTime
    lastPriority := some job.job.priority }

/-- The token of a request, the filters and the order are used without one. -/
def requestToken (filters : JobFilters) (orderBy : JobOrderBy)
    (pageToken : Option NextPageToken) : PageToken :=
  match pageToken with
  | some next => next.token
  | none => ⟨none, none, none, filters, orderBy⟩

/-- One page of jobs, `none` when the request panics. -/
def jobDetails (store : Store) (now : Time) (filters : JobFilters) (orderBy : JobOrderBy)
    (pageSize : Nat) (pageToken : Option NextPageToken) :
    Option (List JobDetails × Option NextPageToken) :=
  let token := requestToken filters orderBy pageToken
  let jobs := (selectPage store now token pageSize).map (rowDetails store now)
  -- A partial page is the last one.
  match jobs.getLast? with
  | none => some (jobs, none)
  | some lastJob =>
      if pageSize ≤ jobs.length then
        (token.advance lastJob).encode?.map fun next => (jobs, some next)
      else
        some (jobs, none)

def listJobs (store : Store) (now : Time) (filters : JobFilters) (orderBy : Option JobOrderBy)
    (pageSize : Nat) (pageToken : Option NextPageToken) :
    Option (List JobDetails × Option NextPageToken) :=
  jobDetails store now filters (orderBy.getD .createdAtAsc) pageSize pageToken

end Ora.Postgres
