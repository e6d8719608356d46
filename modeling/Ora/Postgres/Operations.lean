import Ora.Postgres.Query

/-!
# The operations of the Postgres backend

The remaining operations of `PostgresBackend` and the step function of the
store.  An operation whose transaction is rolled back is no step.
-/

namespace Ora.Postgres

open Ora.Backend
open Ora.Library

namespace PostgresBackend

/-- The jobs of schedules, with their new identifiers. -/
def claims (jobs : List (NewJob × JobId)) : List (JobId × ScheduleId) :=
  jobs.filterMap fun entry => entry.1.scheduleId.map fun schedule => (entry.2, schedule)

/-- A schedule is claimed if it is active and has no active job. -/
def claimable (row : ScheduleRow) (claim : JobId × ScheduleId) : Bool :=
  row.id == claim.2 && row.stoppedAt.isNone && row.activeJobId.isNone

def setActiveJob (row : ScheduleRow) (claim : JobId × ScheduleId) : ScheduleRow :=
  { row with activeJobId := some claim.1 }

def claimRow (pick : Pick) (source : List (JobId × ScheduleId)) (row : ScheduleRow) : ScheduleRow :=
  Table.replaced source claimable setActiveJob (fun row => pick row.id) row

theorem claimRow_id (pick : Pick) (source : List (JobId × ScheduleId)) (row : ScheduleRow) :
    (claimRow pick source row).id = row.id :=
  Table.replaced_key ScheduleRow.id source claimable setActiveJob _ (fun _ _ => rfl) row

/-- Claims the schedules of new jobs and returns the jobs whose claim succeeded. -/
def claimSchedules (store : Store) (pick : Pick) (source : List (JobId × ScheduleId)) :
    Store × List JobId :=
  if source.isEmpty then
    (store, [])
  else
    (store.modifySchedules (claimRow pick source) (claimRow_id pick source),
      (store.schedules.rows.filterMap
        (Table.returned source claimable setActiveJob fun row => pick row.id)).map
          fun row => row.2.1)

def newJobRow (now : Time) (entry : NewJob × JobId) : JobRow where
  id := entry.2
  createdAt := now
  scheduleId := entry.1.scheduleId
  jobTypeId := entry.1.job.jobTypeId
  targetExecutionTime := entry.1.job.targetExecutionTime
  inputPayloadJson := entry.1.job.inputPayloadJson
  timeoutPolicyJson := entry.1.job.timeoutPolicy
  retryPolicyJson := entry.1.job.retryPolicy
  priority := entry.1.job.priority
  inactiveSince := none
  inactiveStatus := none

def newJobLabels (entry : NewJob × JobId) : List JobLabelRow :=
  entry.1.job.labels.map fun label => ⟨entry.2, label.key, label.value⟩

/-- The jobs that are added: those without a schedule and those that claimed theirs. -/
def admitted (claimed : List JobId) (jobs : List (NewJob × JobId)) : List (NewJob × JobId) :=
  jobs.filter fun entry => entry.1.scheduleId.isNone || claimed.contains entry.2

/-- Inserts the admitted jobs, their labels and their first executions. -/
def insertNewJobs (store : Store) (now : Time) (jobs : List (NewJob × JobId)) : Option Store :=
  (store.insertJobs? (jobs.map (newJobRow now))).bind fun store =>
    (store.insertJobLabels? (jobs.flatMap newJobLabels)).bind fun store =>
      addExecutions store now
        (jobs.map fun entry => ⟨entry.2, entry.1.job.targetExecutionTime⟩)

/-- Adds the jobs that claim their schedule, or that have none. -/
def admitJobs (store : Store) (now : Time) (pick : Pick) (jobs : List (NewJob × JobId)) :
    Option (Store × AddedJobs) :=
  let claimed := claimSchedules store pick (claims jobs)
  let jobs := admitted claimed.2 jobs
  if jobs.isEmpty then
    some (claimed.1, .added [])
  else
    (insertNewJobs claimed.1 now jobs).map fun store =>
      (store, .added (jobs.map fun entry => entry.2))

def existingJobs (store : Store) (now : Time) (ifNotExists : Option JobFilters) : List JobId :=
  match ifNotExists with
  | none => []
  | some filters => selectJobIds store now filters

def addJobs (store : Store) (now : Time) (pick : Pick) (jobs : List NewJob)
    (ifNotExists : Option JobFilters) : Option (Store × AddedJobs) :=
  if jobs.isEmpty then
    some (store, .added [])
  else if !(existingJobs store now ifNotExists).isEmpty then
    some (store, .existing (existingJobs store now ifNotExists))
  else
    let (ids, store) := store.nowV7 jobs.length
    admitJobs store now pick (jobs.zip ids)

def cancelJobs (store : Store) (now systemNow : Time) (pick : Pick) (filters : JobFilters) :
    Store × List CancelledJob :=
  let cancelled := Postgres.cancelJobs store now filters
  let marked := markJobsInactive cancelled.1 pick
    (cancelled.2.map fun job => (job.jobId, systemNow)) .cancelled
  (marked.1, cancelled.2)

def newScheduleRow (now : Time) (entry : ScheduleDefinition × ScheduleId) : ScheduleRow where
  id := entry.2
  createdAt := now
  jobTemplateJobTypeId := entry.1.jobTemplate.jobTypeId
  jobTemplateJson := entry.1.jobTemplate
  schedulingPolicyJson := entry.1.scheduling
  startAfter := entry.1.timeRange.start
  endBefore := entry.1.timeRange.stop
  stoppedAt := none
  activeJobId := none

def newScheduleLabels (entry : ScheduleDefinition × ScheduleId) : List ScheduleLabelRow :=
  entry.1.labels.map fun label => ⟨entry.2, label.key, label.value⟩

/-- `serde_json` writes no time before the epoch. -/
def templateSerializable (schedule : ScheduleDefinition) : Bool :=
  decide (0 ≤ schedule.jobTemplate.targetExecutionTime)

def existingSchedules (store : Store) (ifNotExists : Option ScheduleFilters) : List ScheduleId :=
  match ifNotExists with
  | none => []
  | some filters => selectScheduleIds store filters

def addSchedules (store : Store) (now : Time) (schedules : List ScheduleDefinition)
    (ifNotExists : Option ScheduleFilters) : Option (Store × AddedSchedules) :=
  if schedules.isEmpty then
    some (store, .added [])
  else if !(existingSchedules store ifNotExists).isEmpty then
    some (store, .existing (existingSchedules store ifNotExists))
  else if !schedules.all templateSerializable then
    none
  else
    let (ids, store) := store.nowV7 schedules.length
    let entries := schedules.zip ids
    (store.insertSchedules? (entries.map (newScheduleRow now))).bind fun store =>
      (store.insertScheduleLabels? (entries.flatMap newScheduleLabels)).map fun store =>
        (store, .added ids)

/-- The first rows by time of those before the cut-off, as a list of keys. -/
def oldest {ρ : Type} (rows : List ρ) (time : ρ → Option Time) (key : ρ → Uuid) (before : Time)
    (limit : Nat) : List Uuid :=
  let timed := rows.filterMap fun row =>
    match time row with
    | none => none
    | some since => if since < systemtimeToTs before then some (since, key row) else none
  ((timed.insertionSort fun first second => first.1 ≤ second.1).take limit).map Prod.snd

def deleteJobBatch (store : Store) (before : Time) (limit : Nat) : Store × Nat :=
  let ids := oldest store.jobs.rows JobRow.inactiveSince JobRow.id before limit
  (store.deleteJobs fun row => ids.contains row.id, ids.length)

def deleteScheduleBatch (store : Store) (before : Time) (limit : Nat) : Store × Nat :=
  let ids := oldest store.schedules.rows ScheduleRow.stoppedAt ScheduleRow.id before limit
  (store.deleteSchedules fun row => ids.contains row.id, ids.length)

/-- Batches are deleted until a pass over both tables deletes nothing, `fuel`
bounds the number of passes. -/
def deleteBatches : Nat → Store → Time → Nat → Store
  | 0, store, _, _ => store
  | fuel + 1, store, before, limit =>
      let jobs := deleteJobBatch store before limit
      let schedules := deleteScheduleBatch jobs.1 before limit
      if jobs.2 + schedules.2 = 0 then
        schedules.1
      else
        deleteBatches fuel schedules.1 before limit

def jobTypeUnused (store : Store) (row : JobTypeRow) : Bool :=
  !(store.jobs.rows.any fun job => job.jobTypeId == row.id) &&
    !(store.schedules.rows.any fun schedule => schedule.jobTemplateJobTypeId == row.id)

def deleteJobTypes (store : Store) : Store :=
  store.updateJobTypes (store.jobTypes.delete (jobTypeUnused store))

def deleteHistory (store : Store) (deleteBatchSize : Nat) (before : Time) : Store :=
  deleteJobTypes (deleteBatches (store.jobs.rows.length + store.schedules.rows.length + 1) store
    before deleteBatchSize)

end PostgresBackend

inductive Operation where
  | addJobs (now : Time) (pick : Pick) (jobs : List NewJob) (ifNotExists : Option JobFilters)
  | addSchedules (now : Time) (schedules : List ScheduleDefinition)
      (ifNotExists : Option ScheduleFilters)
  | stopSchedules (now : Time) (filters : ScheduleFilters)
  | executionsStarted (pick : Pick) (executions : List StartedExecution)
  | executionsSucceeded (pick : Pick) (executions : List SucceededExecution)
  | executionsFailed (pick : Pick) (executions : List FailedExecution)
  | executionsRetried (now : Time) (pick : Pick) (executions : List RetriedExecution)
  | cancelJobs (now systemNow : Time) (pick : Pick) (filters : JobFilters)
  | deleteHistory (deleteBatchSize : Nat) (before : Time)

/-- One atomic operation, `none` when its transaction is rolled back. -/
def Operation.apply (store : Store) : Operation → Option Store
  | .addJobs now pick jobs ifNotExists =>
      (PostgresBackend.addJobs store now pick jobs ifNotExists).map Prod.fst
  | .addSchedules now schedules ifNotExists =>
      (PostgresBackend.addSchedules store now schedules ifNotExists).map Prod.fst
  | .stopSchedules now filters => some (Postgres.stopSchedules store now filters).1
  | .executionsStarted pick executions =>
      some (PostgresBackend.executionsStarted store pick executions).1
  | .executionsSucceeded pick executions =>
      some (PostgresBackend.executionsSucceeded store pick executions)
  | .executionsFailed pick executions =>
      some (PostgresBackend.executionsFailed store pick executions)
  | .executionsRetried now pick executions =>
      PostgresBackend.executionsRetried store now pick executions
  | .cancelJobs now systemNow pick filters =>
      some (PostgresBackend.cancelJobs store now systemNow pick filters).1
  | .deleteHistory deleteBatchSize before =>
      some (PostgresBackend.deleteHistory store deleteBatchSize before)

end Ora.Postgres
