import Ora.Postgres.Schema

/-!
# Updating executions

The statements of `ora-backend-postgres/src/lib.rs` on `ora.execution`, and the
job and schedule rows that follow them.  When several source rows of an
`UPDATE ... FROM` match one row, one of them is applied and returned; `Pick`
makes that choice.
-/

namespace Ora.Postgres

open Ora.Backend
open Ora.Library

/-- Which matching source row is applied to the row with the given key. -/
abbrev Pick := Uuid → Nat

namespace Store

variable {σ : Type}

/-- `UPDATE ora.execution SET .. FROM .. WHERE .. RETURNING ..`. -/
def updateExecutionsFrom (store : Store) (source : List σ) (on : ExecutionRow → σ → Bool)
    (set : ExecutionRow → σ → ExecutionRow)
    (keeps : ∀ row entry, (set row entry).id = row.id ∧ (set row entry).jobId = row.jobId)
    (pick : Pick) : Store × List (ExecutionRow × σ) :=
  (store.modifyExecutions (Table.replaced source on set fun row => pick row.id)
      (fun row =>
        ⟨Table.replaced_key ExecutionRow.id source on set (fun row => pick row.id)
            (fun row entry => (keeps row entry).1) row,
          Table.replaced_key ExecutionRow.jobId source on set (fun row => pick row.id)
            (fun row entry => (keeps row entry).2) row⟩),
    store.executions.rows.filterMap (Table.returned source on set fun row => pick row.id))

end Store

/-- The condition `execution_id = id AND status < 2`. -/
def finishable (executionId : ExecutionId) (row : ExecutionRow) : Bool :=
  executionId == row.id && row.active

/-- Text can not contain NUL characters in Postgres. -/
def storedFailureReason (reason : String) : String :=
  String.ofList (reason.toList.map fun c => if c = '\x00' then '\uFFFD' else c)

def setFailed (row : ExecutionRow) (execution : FailedExecution) : ExecutionRow :=
  { row with
    failedAt := some (systemtimeToTs execution.failedAt)
    failureReason := some (storedFailureReason execution.failureReason) }

/-- The jobs of the executions that were active and are failed now. -/
def executionsFailed (store : Store) (pick : Pick) (executions : List FailedExecution) :
    Store × List (JobId × Time) :=
  let updated := store.updateExecutionsFrom executions
    (fun row execution => finishable execution.executionId row) setFailed
    (fun _ _ => ⟨rfl, rfl⟩) pick
  (updated.1, updated.2.map fun row =>
    (row.1.jobId, systemtimeFromTs (systemtimeToTs row.2.failedAt)))

structure NewExecution where
  jobId : JobId
  targetExecutionTime : Time
  deriving DecidableEq, Repr

def newExecutionRow (now : Time) (id : ExecutionId) (job : JobRow) (targetExecutionTime : Time) :
    ExecutionRow where
  id := id
  jobId := job.id
  executorId := none
  createdAt := now
  targetExecutionTime := systemtimeToTs targetExecutionTime
  startedAt := none
  succeededAt := none
  failedAt := none
  cancelledAt := none
  outputJson := none
  failureReason := none
  priority := job.priority

@[simp] theorem newExecutionRow_status (now : Time) (id : ExecutionId) (job : JobRow)
    (target : Time) : (newExecutionRow now id job target).status = .pending := rfl

@[simp] theorem newExecutionRow_active (now : Time) (id : ExecutionId) (job : JobRow)
    (target : Time) : (newExecutionRow now id job target).active = true := rfl

/-- The rows inserted for new executions, those without a job are dropped by the join. -/
def newExecutionRows (store : Store) (now : Time) (ids : List ExecutionId)
    (executions : List NewExecution) : List ExecutionRow :=
  (ids.zip executions).filterMap fun entry =>
    (store.jobs.find? entry.2.jobId).map fun job =>
      newExecutionRow now entry.1 job entry.2.targetExecutionTime

def addExecutions (store : Store) (now : Time) (executions : List NewExecution) : Option Store :=
  if executions.isEmpty then
    some store
  else
    let (ids, store) := store.nowV7 executions.length
    store.insertExecutions? (newExecutionRows store now ids executions)

def setInactive (status : ExecutionStatus) (row : JobRow) (job : JobId × Time) : JobRow :=
  { row with
    inactiveSince := some (systemtimeToTs job.2)
    inactiveStatus := some status }

def markJobRow (pick : Pick) (jobs : List (JobId × Time)) (status : ExecutionStatus)
    (row : JobRow) : JobRow :=
  Table.replaced jobs (fun row job => row.id == job.1) (setInactive status)
    (fun row => pick row.id) row

/-- Whether the schedule row is waiting for one of the jobs. -/
def activeJobAmong (jobs : List (JobId × Time)) (row : ScheduleRow) : Bool :=
  jobs.any fun job => row.activeJobId == some job.1

def freeSchedule (jobs : List (JobId × Time)) (row : ScheduleRow) : ScheduleRow :=
  if activeJobAmong jobs row then { row with activeJobId := none } else row

theorem markJobRow_id (pick : Pick) (jobs : List (JobId × Time)) (status : ExecutionStatus)
    (row : JobRow) : (markJobRow pick jobs status row).id = row.id :=
  Table.replaced_key JobRow.id jobs _ (setInactive status) _ (fun _ _ => rfl) row

theorem freeSchedule_id (jobs : List (JobId × Time)) (row : ScheduleRow) :
    (freeSchedule jobs row).id = row.id := by
  unfold freeSchedule
  split <;> rfl

/-- Marks the jobs as finished with the given status and returns whether any
schedules were left without an active job. -/
def markJobsInactive (store : Store) (pick : Pick) (jobs : List (JobId × Time))
    (status : ExecutionStatus) : Store × Bool :=
  if jobs.isEmpty then
    (store, false)
  else
    ((store.modifyJobs (markJobRow pick jobs status) (markJobRow_id pick jobs status)).modifySchedules
        (freeSchedule jobs) (freeSchedule_id jobs),
      store.schedules.rows.any (activeJobAmong jobs))

namespace PostgresBackend

/-- Only pending executions are started, those started by the same executor
are returned again. -/
def startable (row : ExecutionRow) (execution : StartedExecution) : Bool :=
  execution.executionId == row.id &&
    (row.status == .pending ||
      (row.status == .inProgress && row.executorId == some execution.executorId))

def setStarted (row : ExecutionRow) (execution : StartedExecution) : ExecutionRow :=
  { row with
    executorId := some execution.executorId
    startedAt := some (systemtimeToTs execution.startedAt) }

def executionsStarted (store : Store) (pick : Pick) (executions : List StartedExecution) :
    Store × List ExecutionId :=
  if executions.isEmpty then
    (store, [])
  else
    let updated := store.updateExecutionsFrom executions startable setStarted
      (fun _ _ => ⟨rfl, rfl⟩) pick
    (updated.1, updated.2.map fun row => row.1.id)

def setSucceeded (row : ExecutionRow) (execution : SucceededExecution) : ExecutionRow :=
  { row with
    succeededAt := some (systemtimeToTs execution.succeededAt)
    outputJson := some execution.outputJson }

def executionsSucceeded (store : Store) (pick : Pick) (executions : List SucceededExecution) :
    Store :=
  if executions.isEmpty then
    store
  else
    let updated := store.updateExecutionsFrom executions
      (fun row execution => finishable execution.executionId row) setSucceeded
      (fun _ _ => ⟨rfl, rfl⟩) pick
    let jobs := updated.2.map fun row =>
      (row.1.jobId, systemtimeFromTs (systemtimeToTs row.2.succeededAt))
    (markJobsInactive updated.1 pick jobs .succeeded).1

def executionsFailed (store : Store) (pick : Pick) (executions : List FailedExecution) : Store :=
  if executions.isEmpty then
    store
  else
    let failed := Postgres.executionsFailed store pick executions
    (markJobsInactive failed.1 pick failed.2 .failed).1

/-- The new executions whose job had an active execution that was failed by
this call. -/
def retained (jobsActive : List (JobId × Time)) (newExecutions : List NewExecution) :
    List NewExecution :=
  newExecutions.filter fun new => jobsActive.any fun job => job.1 == new.jobId

def executionsRetried (store : Store) (now : Time) (pick : Pick)
    (executions : List RetriedExecution) : Option Store :=
  if executions.isEmpty then
    some store
  else
    let failedExecutions := executions.map fun execution => execution.failedExecution
    let newExecutions := executions.map fun execution =>
      ⟨execution.failedExecution.jobId, execution.retryExecutionTime⟩
    let failed := Postgres.executionsFailed store pick failedExecutions
    let newExecutions := retained failed.2 newExecutions
    if newExecutions.isEmpty then
      some failed.1
    else
      addExecutions failed.1 now newExecutions

end PostgresBackend

end Ora.Postgres
