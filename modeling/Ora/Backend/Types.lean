import Mathlib.Data.Int.Notation

/-!
# Backend types

The types of the `ora-backend` crate.  A `SystemTime` and a `TIMESTAMPTZ` are
nanoseconds since the Unix epoch, a `Duration` is a number of nanoseconds.
Identifiers are version 7 UUIDs, ordered as they are generated.
-/

namespace Ora.Backend

abbrev Uuid := Nat
abbrev JobId := Uuid
abbrev ExecutionId := Uuid
abbrev ExecutorId := Uuid
abbrev ScheduleId := Uuid
abbrev JobTypeId := String

/-- Nanoseconds since the Unix epoch, negative before it. -/
abbrev Time := Int

/-- Nanoseconds. -/
abbrev Duration := Nat

structure Label where
  key : String
  value : String
  deriving DecidableEq, Repr

structure LabelFilter where
  key : String
  value : Option String
  valueIn : Option (List String)
  deriving DecidableEq, Repr

structure TimeRange where
  start : Option Time
  stop : Option Time
  deriving DecidableEq, Repr

inductive ExecutionStatus where
  | pending
  | inProgress
  | succeeded
  | failed
  | cancelled
  deriving DecidableEq, Repr

inductive ExecutionPendingReason where
  | scheduled
  | ready
  deriving DecidableEq, Repr

structure StartedExecution where
  executionId : ExecutionId
  executorId : ExecutorId
  startedAt : Time
  deriving DecidableEq, Repr

structure SucceededExecution where
  executionId : ExecutionId
  succeededAt : Time
  outputJson : String
  deriving DecidableEq, Repr

structure FailedExecution where
  executionId : ExecutionId
  jobId : JobId
  failedAt : Time
  failureReason : String
  deriving DecidableEq, Repr

structure RetriedExecution where
  failedExecution : FailedExecution
  retryExecutionTime : Time
  deriving DecidableEq, Repr

inductive TimeoutBaseTime where
  | targetExecutionTime
  | startTime
  deriving DecidableEq, Repr

structure TimeoutPolicy where
  timeout : Duration
  baseTime : TimeoutBaseTime
  deriving DecidableEq, Repr

inductive BackoffStrategy where
  | fixed
  | exponential
  deriving DecidableEq, Repr

structure RetryPolicy where
  retries : Nat
  backoffDuration : Duration
  maxBackoffDuration : Option Duration
  backoffStrategy : BackoffStrategy
  deriving DecidableEq, Repr

structure JobDefinition where
  jobTypeId : JobTypeId
  targetExecutionTime : Time
  inputPayloadJson : String
  labels : List Label
  timeoutPolicy : TimeoutPolicy
  retryPolicy : RetryPolicy
  priority : Int
  deriving DecidableEq, Repr

structure NewJob where
  job : JobDefinition
  scheduleId : Option ScheduleId
  deriving DecidableEq, Repr

structure JobFilters where
  jobIds : Option (List JobId) := none
  jobTypeIds : Option (List JobTypeId) := none
  executorIds : Option (List ExecutorId) := none
  executionIds : Option (List ExecutionId) := none
  executionStatuses : Option (List ExecutionStatus) := none
  targetExecutionTime : Option TimeRange := none
  createdAt : Option TimeRange := none
  labels : Option (List LabelFilter) := none
  scheduleIds : Option (List ScheduleId) := none
  minPriority : Option Int := none
  maxPriority : Option Int := none
  pendingReasons : Option (List ExecutionPendingReason) := none
  deriving DecidableEq, Repr

inductive JobOrderBy where
  | targetExecutionTimeAsc
  | targetExecutionTimeDesc
  | createdAtAsc
  | createdAtDesc
  | priorityAsc
  | priorityDesc
  deriving DecidableEq, Repr

structure ExecutionDetails where
  id : ExecutionId
  executorId : Option ExecutorId
  status : ExecutionStatus
  createdAt : Time
  startedAt : Option Time
  succeededAt : Option Time
  failedAt : Option Time
  cancelledAt : Option Time
  outputJson : Option String
  failureReason : Option String
  targetExecutionTime : Time
  pendingReason : Option ExecutionPendingReason
  deriving DecidableEq, Repr

structure JobDetails where
  id : JobId
  job : JobDefinition
  createdAt : Time
  executions : List ExecutionDetails
  scheduleId : Option ScheduleId
  deriving DecidableEq, Repr

structure CancelledJob where
  jobId : JobId
  lastExecutionId : ExecutionId
  jobTypeId : JobTypeId
  deriving DecidableEq, Repr

inductive AddedJobs where
  | added (ids : List JobId)
  | existing (ids : List JobId)
  deriving DecidableEq, Repr

structure ReadyExecution where
  executionId : ExecutionId
  jobId : JobId
  jobTypeId : JobTypeId
  inputPayloadJson : String
  attemptNumber : Nat
  retryPolicy : RetryPolicy
  targetExecutionTime : Time
  priority : Int
  deriving DecidableEq, Repr

structure InProgressExecution where
  executionId : ExecutionId
  jobId : JobId
  jobTypeId : JobTypeId
  executorId : ExecutorId
  targetExecutionTime : Time
  startedAt : Time
  timeoutPolicy : TimeoutPolicy
  retryPolicy : RetryPolicy
  attemptNumber : Nat
  deriving DecidableEq, Repr

inductive MissedTimePolicy where
  | skip
  | create
  deriving DecidableEq, Repr

inductive SchedulingPolicy where
  | fixedInterval (interval : Duration) (immediate : Bool) (missed : MissedTimePolicy)
  | cron (expression : String) (immediate : Bool) (missed : MissedTimePolicy)
  deriving DecidableEq, Repr

structure ScheduleDefinition where
  scheduling : SchedulingPolicy
  jobTemplate : JobDefinition
  labels : List Label
  timeRange : TimeRange
  deriving DecidableEq, Repr

inductive ScheduleStatus where
  | active
  | stopped
  deriving DecidableEq, Repr

structure ScheduleFilters where
  scheduleIds : Option (List ScheduleId) := none
  jobTypeIds : Option (List JobTypeId) := none
  statuses : Option (List ScheduleStatus) := none
  createdAt : Option TimeRange := none
  labels : Option (List LabelFilter) := none
  deriving DecidableEq, Repr

inductive ScheduleOrderBy where
  | createdAtAsc
  | createdAtDesc
  deriving DecidableEq, Repr

structure ScheduleDetails where
  id : ScheduleId
  schedule : ScheduleDefinition
  createdAt : Time
  status : ScheduleStatus
  stoppedAt : Option Time
  deriving DecidableEq, Repr

structure PendingSchedule where
  scheduleId : ScheduleId
  lastTargetExecutionTime : Option Time
  scheduling : SchedulingPolicy
  timeRange : TimeRange
  jobTemplate : JobDefinition
  deriving DecidableEq, Repr

inductive AddedSchedules where
  | added (ids : List ScheduleId)
  | existing (ids : List ScheduleId)
  deriving DecidableEq, Repr

end Ora.Backend
