import Ora.Postgres.Fetch
import Ora.Server.Pool

/-!
# The loops of the server

The loops of `server/executions.rs` and the requests that cancel executions run
as tasks beside each other.  Each backend call and each call of the executor
pool is one step, and a backend call may be repeated after it was committed.
Shutting down is not modelled.
-/

namespace Ora.Server

open Ora.Backend
open Ora.Library
open Ora.Postgres (Store Pick Operation PostgresBackend.readyExecutions
  PostgresBackend.inProgressExecutions)

/-! ## Retrying executions -/

structure MaybeRetryExecution where
  execution : FailedExecution
  retryPolicy : RetryPolicy
  attemptNumber : Nat
  deriving DecidableEq, Repr

def maxRetryBackoff : Duration := 365 * 24 * 3600 * second

/-- The backoff duration before retrying after the given attempt. -/
def retryBackoff (retryPolicy : RetryPolicy) (attemptNumber : Nat) : Duration :=
  let backoffDuration :=
    match retryPolicy.backoffStrategy with
    | .fixed => retryPolicy.backoffDuration
    | .exponential =>
        retryPolicy.backoffDuration *
          (if attemptNumber - 1 < 32 then Nat.pow 2 (attemptNumber - 1) else maxU32)
  let backoffDuration :=
    match retryPolicy.maxBackoffDuration with
    | some maxBackoff => min backoffDuration maxBackoff
    | none => backoffDuration
  min backoffDuration maxRetryBackoff

def retried (systemNow : Time) (execution : MaybeRetryExecution) : RetriedExecution :=
  ⟨execution.execution,
    systemNow + retryBackoff execution.retryPolicy execution.attemptNumber⟩

def MaybeRetryExecution.retries (execution : MaybeRetryExecution) : Bool :=
  decide (execution.attemptNumber ≤ execution.retryPolicy.retries)

/-- The backend calls of `retry_executions` that are still to be made. -/
inductive RetryCall where
  | failing (failedExecutions : List FailedExecution) (retriedExecutions : List RetriedExecution)
  | retrying (retriedExecutions : List RetriedExecution)
  deriving DecidableEq, Repr

/-- The clock is read for each execution that is retried. -/
def retryExecutions (systemNow : Nat → Time) (executions : List MaybeRetryExecution) : RetryCall :=
  .failing
    ((executions.filter fun execution => !execution.retries).map MaybeRetryExecution.execution)
    ((executions.filter MaybeRetryExecution.retries).mapIdx fun k => retried (systemNow k))

/-- The next backend call, with what is left to be done. -/
def RetryCall.commit (store : Store) (now : Time) (pick : Pick) :
    RetryCall → Option (Store × Option RetryCall)
  | .failing failedExecutions retriedExecutions =>
      some (Postgres.PostgresBackend.executionsFailed store pick failedExecutions,
        some (.retrying retriedExecutions))
  | .retrying retriedExecutions =>
      (Postgres.PostgresBackend.executionsRetried store now pick retriedExecutions).map
        fun store => (store, none)

/-- What is left after the call. -/
def RetryCall.rest : RetryCall → Option RetryCall
  | .failing _ retriedExecutions => some (.retrying retriedExecutions)
  | .retrying _ => none

/-! ## The state of each loop -/

/-- `ready_executions_loop`.  `ignored` are the executions in flight when the
pass was started, `last` is the last row of the batch before. -/
inductive ReadyLoop where
  | idle
  | passing (ignored : List ExecutionId) (last : Option (Int × ExecutionId))
  | fetching (ignored : List ExecutionId) (last : Option (Int × ExecutionId)) (fetchedAt : Instant)
  | offering (ignored : List ExecutionId) (fetchedAt : Instant) (batch : List ReadyExecution)
  | offered (ignored : List ExecutionId) (last : Option (Int × ExecutionId))
  deriving DecidableEq, Repr

/-- `execution_starts_loop` and `start_executions`. -/
inductive StartsLoop where
  | idle
  | starting (executions : List StartedExecution)
  | started (executions : List StartedExecution) (returned : List ExecutionId)
  | cancelling (ids : List ExecutionId)
  | givingUp (ids : List ExecutionId)
  | forgetting (ids : List ExecutionId)
  deriving DecidableEq, Repr

/-- `executor_events_loop`, waiting for starts until a deadline. -/
inductive EventsLoop where
  | idle
  | waiting (deadline : Instant) (succeededExecutions : List SucceededExecution)
      (maybeRetryExecutions : List MaybeRetryExecution)
  | succeeding (succeededExecutions : List SucceededExecution)
      (maybeRetryExecutions : List MaybeRetryExecution)
  | retrying (call : RetryCall)
  deriving DecidableEq, Repr

/-- `execution_timeouts_loop`.  `last` is the last row of the batch before. -/
inductive TimeoutsLoop where
  | fetching (last : Option ExecutionId)
  | checking (last : Option ExecutionId) (now : Time) (unchecked : List InProgressExecution)
      (timedOut orphaned : List MaybeRetryExecution)
  | timingOut (last : Option ExecutionId) (call : RetryCall) (timedOut : List ExecutionId)
      (orphaned : List MaybeRetryExecution)
  | cancelling (last : Option ExecutionId) (timedOut : List ExecutionId)
      (orphaned : List MaybeRetryExecution)
  | failingOrphaned (last : Option ExecutionId) (call : RetryCall)
  deriving DecidableEq, Repr

/-- A request that has changed the backend and still has to act on it. -/
inductive Request where
  | cancelling (ids : List ExecutionId)
  | stopped (schedules : List ScheduleId)
  deriving DecidableEq, Repr

structure ServerState where
  store : Store
  now : Instant
  nextExecutor : ExecutorId
  pool : ExecutorPool
  ready : ReadyLoop
  starts : StartsLoop
  results : EventsLoop
  timeouts : TimeoutsLoop
  requests : List Request

def ServerState.initial : ServerState :=
  ⟨.empty, 0, 0, .empty, .idle, .idle, .idle, .fetching none, []⟩

/-! ## Executor events -/

/-- The failure of an execution of the pool. -/
def failedResult (execution : ExecutorExecution) (failedAt : Time) (failureReason : String) :
    MaybeRetryExecution :=
  ⟨⟨execution.executionId, execution.jobId, failedAt, failureReason⟩, execution.retryPolicy,
    execution.attemptNumber⟩

/-- The results of one event.  `invalidJson` is the error of `validate_json`, and the
clock is read for each execution of a disconnected executor. -/
def eventResults (systemNow : Nat → Time) (invalidJson : String → Option String) :
    ExecutorEvent → List SucceededExecution × List MaybeRetryExecution
  | .executionSucceeded execution timestamp outputPayloadJson =>
      match invalidJson outputPayloadJson with
      | some error =>
          ([], [failedResult execution timestamp
            ("invalid output returned by the executor: " ++ error)])
      | none => ([⟨execution.executionId, timestamp, outputPayloadJson⟩], [])
  | .executionFailed execution timestamp failureReason =>
      ([], [failedResult execution timestamp failureReason])
  | .executorDisconnected executor =>
      ([], executor.assignedExecutions.mapIdx fun k execution =>
        failedResult execution (systemNow k) "executor disconnected")

def maxExecutorEventBatch : Nat := 1000
def maxStartBatch : Nat := 1000
def startWaitTimeout : Duration := 60 * second

/-! ## Timeouts -/

/-- The failure of an execution in progress. -/
def failedInProgress (execution : InProgressExecution) (now : Time) (failureReason : String) :
    MaybeRetryExecution :=
  ⟨⟨execution.executionId, execution.jobId, now, failureReason⟩, execution.retryPolicy,
    execution.attemptNumber⟩

def timedOut (now : Time) (execution : InProgressExecution) : Bool :=
  let baseTime :=
    match execution.timeoutPolicy.baseTime with
    | .targetExecutionTime => execution.targetExecutionTime
    | .startTime => execution.startedAt
  execution.timeoutPolicy.timeout != 0 && decide (baseTime + execution.timeoutPolicy.timeout < now)

/-- The rest of a call, `done` after the last one. -/
def ServerState.afterCommit {α : Type} (call : RetryCall) (rest : Option RetryCall) (acknowledged : Bool)
    (retry : RetryCall → α) (done : α) : α :=
  if acknowledged then
    match rest with
    | some rest => retry rest
    | none => done
  else
    retry call

/-- What is done after a call that is not made again. -/
def TimeoutsLoop.giveUp : TimeoutsLoop → Option TimeoutsLoop
  | .timingOut last call ids orphaned =>
      some (ServerState.afterCommit call call.rest true (fun call => .timingOut last call ids orphaned)
        (.cancelling last ids orphaned))
  | .failingOrphaned last call =>
      some (ServerState.afterCommit call call.rest true (fun call => .failingOrphaned last call)
        (.fetching last))
  | _ => none

/-! ## Actions -/

inductive Action where
  -- the clock, the executors and the clients
  | tick (elapsed : Instant)
  | connect
  | message (executor : ExecutorId) (systemNow : Time) (message : ExecutorMessage)
  | checkOffers (executor : ExecutorId)
  | disconnect (executor : ExecutorId)
  | closeOutbound (executor : ExecutorId)
  | addJobs (now : Time) (pick : Pick) (jobs : List NewJob) (ifNotExists : Option JobFilters)
  | addSchedules (now : Time) (schedules : List ScheduleDefinition)
      (ifNotExists : Option ScheduleFilters)
  | deleteHistory (deleteBatchSize : Nat) (before : Time)
  | cancelJobs (now systemNow : Time) (pick : Pick) (filters : JobFilters)
  | stopSchedules (now : Time) (filters : ScheduleFilters) (cancelActiveJobs : Bool)
  | cancelStopped (index : Nat) (now systemNow : Time) (pick : Pick)
  | cancelRequested (index : Nat)
  -- `ready_executions_loop`
  | startPass
  | readClock
  | fetchReady (now : Time)
  | fetchFails
  | offer (systemNow : Time) (pick : ExecutionId → Nat)
  | checkCapacity
  -- `execution_starts_loop`
  | takeStarts (count : Nat)
  | commitStarts (pick : Pick) (acknowledged : Bool)
  | recordStarts
  | cancelNotStarted
  | giveUp
  | cancelGivenUp
  | forget
  -- `executor_events_loop`
  | takeEvents (count : Nat) (systemNow : Nat → Nat → Time) (invalidJson : String → Option String)
  | stopWaiting
  | commitSucceeded (systemNow : Nat → Time) (pick : Pick) (acknowledged : Bool)
  | commitResults (now : Time) (pick : Pick) (acknowledged : Bool)
  -- `execution_timeouts_loop`
  | fetchInProgress (systemNow : Time)
  | fetchInProgressFails
  | checkInProgress
  | startTimingOut (systemNow : Nat → Time)
  | commitTimedOut (now : Time) (pick : Pick) (acknowledged : Bool)
  | cancelTimedOut (systemNow : Nat → Time)
  | commitOrphaned (now : Time) (pick : Pick) (acknowledged : Bool)
  | giveUpTimeouts

namespace ServerState

/-- An operation of the backend that needs nothing else. -/
def perform (server : ServerState) (operation : Operation) : Option ServerState :=
  (operation.apply server.store).map fun store => { server with store := store }

/-- The request waits to cancel the executions on the executors. -/
def cancelJobs (server : ServerState) (now systemNow : Time) (pick : Pick) (filters : JobFilters) :
    ServerState :=
  let cancelled := Postgres.PostgresBackend.cancelJobs server.store now systemNow pick filters
  { server with
    store := cancelled.1
    requests := server.requests ++ [.cancelling (cancelled.2.map CancelledJob.lastExecutionId)] }

/-! ### `ready_executions_loop` -/

def offered (server : ServerState) (ignored : List ExecutionId) (batch : List ReadyExecution)
    (pool : ExecutorPool) : ServerState :=
  { server with
    pool := pool
    ready := .offered ignored (batch.getLast?.map fun execution =>
      (execution.priority, execution.executionId)) }

/-- The pass ends when no executor has capacity left. -/
def checkCapacity (server : ServerState) (ignored : List ExecutionId)
    (last : Option (Int × ExecutionId)) : ReadyLoop :=
  if server.pool.hasCapacity server.now then .passing ignored last else .idle

def fetched (server : ServerState) (now : Time) (ignored : List ExecutionId)
    (last : Option (Int × ExecutionId)) (fetchedAt : Instant) : ReadyLoop :=
  match PostgresBackend.readyExecutions server.store now ignored last with
  | [] => .idle
  | batch => .offering ignored fetchedAt batch

/-! ### `execution_starts_loop` -/

/-- The executions that were not returned by the backend are cancelled. -/
def recordStarts (server : ServerState) (executions : List StartedExecution)
    (returned : List ExecutionId) : ServerState :=
  let ids := executions.map StartedExecution.executionId
  { server with
    pool := server.pool.acceptedExecutionsStarted ids server.now
    starts :=
      if returned.length = ids.length then
        .idle
      else
        .cancelling (ids.filter fun id => !returned.contains id) }

def commitStarts (server : ServerState) (executions : List StartedExecution) (pick : Pick)
    (acknowledged : Bool) : ServerState :=
  let started := Postgres.PostgresBackend.executionsStarted server.store pick executions
  { server with
    store := started.1
    starts := if acknowledged then .started executions started.2 else .starting executions }

/-! ### `executor_events_loop` -/

def takeEvents (server : ServerState) (count : Nat) (systemNow : Nat → Nat → Time)
    (invalidJson : String → Option String) : ServerState :=
  let results := (server.pool.events.take count).mapIdx fun k =>
    eventResults (systemNow k) invalidJson
  { server with
    pool := { server.pool with events := server.pool.events.drop count }
    results := .waiting (server.now + startWaitTimeout) (results.flatMap Prod.fst)
      (results.flatMap Prod.snd) }

/-- The results whose starts are waited for. -/
def resultIds (succeededExecutions : List SucceededExecution)
    (maybeRetryExecutions : List MaybeRetryExecution) : List ExecutionId :=
  succeededExecutions.map SucceededExecution.executionId ++
    maybeRetryExecutions.map fun execution => execution.execution.executionId

/-! ### `execution_timeouts_loop` -/

/-- An execution is orphaned when its executor is gone. -/
def checkExecution (pool : ExecutorPool) (now : Time) (execution : InProgressExecution)
    (timedOutExecutions orphaned : List MaybeRetryExecution) :
    List MaybeRetryExecution × List MaybeRetryExecution :=
  if pool.executorExists execution.executorId then
    if timedOut now execution then
      (timedOutExecutions ++ [failedInProgress execution now "execution timed out"], orphaned)
    else
      (timedOutExecutions, orphaned)
  else
    (timedOutExecutions, orphaned ++ [failedInProgress execution now "executor disconnected"])

/-! ### Steps -/

def step (server : ServerState) : Action → Option ServerState
  | .tick elapsed => some { server with now := server.now + elapsed }
  | .connect =>
      some { server with
        nextExecutor := server.nextExecutor + 1
        pool := server.pool.addExecutor server.nextExecutor }
  | .message executor systemNow message =>
      some { server with
        pool := server.pool.executorMessage server.now systemNow executor message }
  | .checkOffers executor =>
      some { server with
        pool := server.pool.withdrawOffers executor (some server.now) server.now }
  | .disconnect executor => some { server with pool := server.pool.dropExecutor executor }
  | .closeOutbound executor => some { server with pool := server.pool.closeOutbound executor }
  | .addJobs now pick jobs ifNotExists => server.perform (.addJobs now pick jobs ifNotExists)
  | .addSchedules now schedules ifNotExists =>
      server.perform (.addSchedules now schedules ifNotExists)
  | .deleteHistory deleteBatchSize before =>
      server.perform (.deleteHistory deleteBatchSize before)
  | .cancelJobs now systemNow pick filters => some (server.cancelJobs now systemNow pick filters)
  | .stopSchedules now filters cancelActiveJobs =>
      let stopped := Postgres.stopSchedules server.store now filters
      some { server with
        store := stopped.1
        requests :=
          if cancelActiveJobs then server.requests ++ [.stopped stopped.2] else server.requests }
  | .cancelStopped index now systemNow pick =>
      match server.requests[index]? with
      | some (.stopped schedules) =>
          some ({ server with requests := server.requests.eraseIdx index }.cancelJobs now systemNow
            pick { scheduleIds := some schedules })
      | _ => none
  | .cancelRequested index =>
      match server.requests[index]? with
      | some (.cancelling ids) =>
          some { server with
            pool := server.pool.cancelExecutionIds ids
            requests := server.requests.eraseIdx index }
      | _ => none
  | .startPass =>
      match server.ready with
      | .idle =>
          some { server with ready := .passing server.pool.inFlightExecutionIds none }
      | _ => none
  | .readClock =>
      match server.ready with
      | .passing ignored last => some { server with ready := .fetching ignored last server.now }
      | _ => none
  | .fetchReady now =>
      match server.ready with
      | .fetching ignored last fetchedAt =>
          some { server with ready := server.fetched now ignored last fetchedAt }
      | _ => none
  | .fetchFails =>
      match server.ready with
      | .fetching _ _ _ => some { server with ready := .idle }
      | _ => none
  | .offer systemNow pick =>
      match server.ready with
      | .offering ignored fetchedAt batch =>
          some (server.offered ignored batch
            (server.pool.tryOffer server.now systemNow pick batch fetchedAt).1)
      | _ => none
  | .checkCapacity =>
      match server.ready with
      | .offered ignored last =>
          some { server with ready := server.checkCapacity ignored last }
      | _ => none
  | .takeStarts count =>
      match server.starts with
      | .idle =>
          if 0 < count ∧ count ≤ maxStartBatch ∧ count ≤ server.pool.accepted.length then
            some { server with
              pool := { server.pool with accepted := server.pool.accepted.drop count }
              starts := .starting (server.pool.accepted.take count) }
          else
            none
      | _ => none
  | .commitStarts pick acknowledged =>
      match server.starts with
      | .starting executions => some (server.commitStarts executions pick acknowledged)
      | _ => none
  | .recordStarts =>
      match server.starts with
      | .started executions returned => some (server.recordStarts executions returned)
      | _ => none
  | .cancelNotStarted =>
      match server.starts with
      | .cancelling ids =>
          some { server with
            pool := server.pool.cancelExecutionIds ids
            starts := .idle }
      | _ => none
  | .giveUp =>
      match server.starts with
      | .starting executions =>
          some { server with
            starts := .givingUp (executions.map StartedExecution.executionId) }
      | _ => none
  | .cancelGivenUp =>
      match server.starts with
      | .givingUp ids =>
          some { server with
            pool := server.pool.cancelExecutionIds ids
            starts := .forgetting ids }
      | _ => none
  | .forget =>
      match server.starts with
      | .forgetting ids =>
          some { server with
            pool := server.pool.acceptedExecutionsNotStarted ids
            starts := .idle }
      | _ => none
  | .takeEvents count systemNow invalidJson =>
      match server.results with
      | .idle =>
          if 0 < count ∧ count ≤ maxExecutorEventBatch ∧ count ≤ server.pool.events.length then
            some (server.takeEvents count systemNow invalidJson)
          else
            none
      | _ => none
  | .stopWaiting =>
      match server.results with
      | .waiting deadline succeededExecutions maybeRetryExecutions =>
          if server.pool.startPending (resultIds succeededExecutions maybeRetryExecutions) = false ∨
              deadline ≤ server.now then
            some { server with results := .succeeding succeededExecutions maybeRetryExecutions }
          else
            none
      | _ => none
  | .commitSucceeded systemNow pick acknowledged =>
      match server.results with
      | .succeeding succeededExecutions maybeRetryExecutions =>
          some { server with
            store :=
              Postgres.PostgresBackend.executionsSucceeded server.store pick succeededExecutions
            results :=
              if acknowledged then
                .retrying (retryExecutions systemNow maybeRetryExecutions)
              else
                .succeeding succeededExecutions maybeRetryExecutions }
      | _ => none
  | .commitResults now pick acknowledged =>
      match server.results with
      | .retrying call =>
          (call.commit server.store now pick).map fun committed =>
            { server with
              store := committed.1
              results := afterCommit call committed.2 acknowledged .retrying .idle }
      | _ => none
  | .fetchInProgress systemNow =>
      match server.timeouts with
      | .fetching last =>
          match PostgresBackend.inProgressExecutions server.store last with
          | [] => some { server with timeouts := .fetching none }
          | batch =>
              some { server with
                timeouts := .checking (batch.getLast?.map InProgressExecution.executionId) systemNow
                  batch [] [] }
      | _ => none
  | .fetchInProgressFails =>
      match server.timeouts with
      | .fetching _ => some { server with timeouts := .fetching none }
      | _ => none
  | .checkInProgress =>
      match server.timeouts with
      | .checking last now (execution :: unchecked) timedOutExecutions orphaned =>
          let checked := checkExecution server.pool now execution timedOutExecutions orphaned
          some { server with
            timeouts := .checking last now unchecked checked.1 checked.2 }
      | _ => none
  | .startTimingOut systemNow =>
      match server.timeouts with
      | .checking last _ [] timedOutExecutions orphaned =>
          some { server with
            timeouts := .timingOut last (retryExecutions systemNow timedOutExecutions)
              (timedOutExecutions.map fun execution => execution.execution.executionId) orphaned }
      | _ => none
  | .commitTimedOut now pick acknowledged =>
      match server.timeouts with
      | .timingOut last call ids orphaned =>
          (call.commit server.store now pick).map fun committed =>
            { server with
              store := committed.1
              timeouts := afterCommit call committed.2 acknowledged
                (fun call => .timingOut last call ids orphaned) (.cancelling last ids orphaned) }
      | _ => none
  | .cancelTimedOut systemNow =>
      match server.timeouts with
      | .cancelling last ids orphaned =>
          some { server with
            pool := server.pool.cancelExecutionIds ids
            timeouts := .failingOrphaned last (retryExecutions systemNow orphaned) }
      | _ => none
  | .commitOrphaned now pick acknowledged =>
      match server.timeouts with
      | .failingOrphaned last call =>
          (call.commit server.store now pick).map fun committed =>
            { server with
              store := committed.1
              timeouts := afterCommit call committed.2 acknowledged
                (fun call => .failingOrphaned last call) (.fetching last) }
      | _ => none
  | .giveUpTimeouts =>
      server.timeouts.giveUp.map fun timeouts => { server with timeouts := timeouts }

end ServerState

end Ora.Server
