import Ora.Server.Loops
import Ora.Server.PoolEffects

/-!
# What a step of the server does

The operation of the backend that each action performs, and one inversion
lemma for each action that depends on the state of a loop.
-/

namespace Ora.Server

open Ora.Backend
open Ora.Library
open Ora.Postgres (Store Pick Operation PostgresBackend.readyExecutions
  PostgresBackend.inProgressExecutions)

namespace RetryCall

def operation (now : Time) (pick : Pick) : RetryCall → Operation
  | .failing failedExecutions _ => .executionsFailed pick failedExecutions
  | .retrying retriedExecutions => .executionsRetried now pick retriedExecutions

theorem commit_eq (call : RetryCall) (store : Store) (now : Time) (pick : Pick) :
    call.commit store now pick =
      ((call.operation now pick).apply store).map fun store => (store, call.rest) := by
  cases call <;> rfl

end RetryCall

namespace Action

/-- The operation of the backend that an action performs. -/
def operation (server : ServerState) : Action → Option Operation
  | .addJobs now pick jobs ifNotExists => some (.addJobs now pick jobs ifNotExists)
  | .addSchedules now schedules ifNotExists => some (.addSchedules now schedules ifNotExists)
  | .deleteHistory deleteBatchSize before => some (.deleteHistory deleteBatchSize before)
  | .cancelJobs now systemNow pick filters => some (.cancelJobs now systemNow pick filters)
  | .stopSchedules now filters _ => some (.stopSchedules now filters)
  | .cancelStopped index now systemNow pick =>
      match server.requests[index]? with
      | some (.stopped schedules) =>
          some (.cancelJobs now systemNow pick { scheduleIds := some schedules })
      | _ => none
  | .commitStarts pick _ =>
      match server.starts with
      | .starting executions => some (.executionsStarted pick executions)
      | _ => none
  | .commitSucceeded _ pick _ =>
      match server.results with
      | .succeeding succeededExecutions _ => some (.executionsSucceeded pick succeededExecutions)
      | _ => none
  | .commitResults now pick _ =>
      match server.results with
      | .retrying call => some (call.operation now pick)
      | _ => none
  | .commitTimedOut now pick _ =>
      match server.timeouts with
      | .timingOut _ call _ _ => some (call.operation now pick)
      | _ => none
  | .commitOrphaned now pick _ =>
      match server.timeouts with
      | .failingOrphaned _ call => some (call.operation now pick)
      | _ => none
  | _ => none

/-- The executions that an action cancels in the pool. -/
def cancelledIds (server : ServerState) : Action → List ExecutionId
  | .cancelRequested index =>
      match server.requests[index]? with
      | some (.cancelling ids) => ids
      | _ => []
  | .cancelNotStarted =>
      match server.starts with
      | .cancelling ids => ids
      | _ => []
  | .cancelGivenUp =>
      match server.starts with
      | .givingUp ids => ids
      | _ => []
  | .cancelTimedOut _ =>
      match server.timeouts with
      | .cancelling _ ids _ => ids
      | _ => []
  | _ => []

/-- The steps of requests that change the backend and then act on it. -/
def ofRequests : Action → Bool
  | .cancelJobs _ _ _ _ | .stopSchedules _ _ _ | .cancelStopped _ _ _ _ => true
  | .cancelRequested _ => true
  | _ => false

/-- The steps of `ready_executions_loop`. -/
def ofReady : Action → Bool
  | .startPass | .readClock | .fetchReady _ | .fetchFails | .offer _ _ | .checkCapacity => true
  | _ => false

/-- The steps of `execution_starts_loop`. -/
def ofStarts : Action → Bool
  | .takeStarts _ | .commitStarts _ _ | .recordStarts | .cancelNotStarted => true
  | .giveUp | .cancelGivenUp | .forget => true
  | _ => false

/-- The steps of `executor_events_loop`. -/
def ofEvents : Action → Bool
  | .takeEvents _ _ _ | .stopWaiting | .commitSucceeded _ _ _ | .commitResults _ _ _ => true
  | _ => false

/-- The steps of `execution_timeouts_loop`. -/
def ofTimeouts : Action → Bool
  | .fetchInProgress _ | .checkInProgress | .startTimingOut _ | .commitTimedOut _ _ _ => true
  | .cancelTimedOut _ | .commitOrphaned _ _ _ => true
  | .fetchInProgressFails | .giveUpTimeouts => true
  | _ => false

end Action

namespace ServerState

variable {server after : ServerState}

attribute [local simp] ServerState.step

theorem step_addJobs {now : Time} {pick : Pick} {jobs : List NewJob}
    {ifNotExists : Option JobFilters}
    (taken : server.step (.addJobs now pick jobs ifNotExists) = some after) :
    ∃ store, (Operation.addJobs now pick jobs ifNotExists).apply server.store = some store ∧
      after = { server with store := store } := by
  obtain ⟨store, done, rfl⟩ := Option.map_eq_some_iff.mp taken
  exact ⟨store, done, rfl⟩

theorem step_addSchedules {now : Time} {schedules : List ScheduleDefinition}
    {ifNotExists : Option ScheduleFilters}
    (taken : server.step (.addSchedules now schedules ifNotExists) = some after) :
    ∃ store, (Operation.addSchedules now schedules ifNotExists).apply server.store = some store ∧
      after = { server with store := store } := by
  obtain ⟨store, done, rfl⟩ := Option.map_eq_some_iff.mp taken
  exact ⟨store, done, rfl⟩

theorem step_cancelStopped {index : Nat} {now systemNow : Time} {pick : Pick}
    (taken : server.step (.cancelStopped index now systemNow pick) = some after) :
    ∃ schedules, server.requests[index]? = some (.stopped schedules) ∧
      after = ({ server with requests := server.requests.eraseIdx index }.cancelJobs now systemNow
        pick { scheduleIds := some schedules }) := by
  simp only [step] at taken
  split at taken
  · cases taken
    exact ⟨_, by assumption, rfl⟩
  · cases taken

theorem step_cancelRequested {index : Nat}
    (taken : server.step (.cancelRequested index) = some after) :
    ∃ ids, server.requests[index]? = some (.cancelling ids) ∧
      after = { server with
        pool := server.pool.cancelExecutionIds ids
        requests := server.requests.eraseIdx index } := by
  simp only [step] at taken
  split at taken
  · cases taken
    exact ⟨_, by assumption, rfl⟩
  · cases taken

theorem step_startPass (taken : server.step .startPass = some after) :
    server.ready = .idle ∧
      after = { server with ready := .passing server.pool.inFlightExecutionIds none } := by
  simp only [step] at taken
  split at taken
  · cases taken
    exact ⟨by assumption, rfl⟩
  · cases taken

theorem step_readClock (taken : server.step .readClock = some after) :
    ∃ ignored last, server.ready = .passing ignored last ∧
      after = { server with ready := .fetching ignored last server.now } := by
  simp only [step] at taken
  split at taken
  · cases taken
    exact ⟨_, _, by assumption, rfl⟩
  · cases taken

theorem step_fetchReady {now : Time} (taken : server.step (.fetchReady now) = some after) :
    ∃ ignored last fetchedAt, server.ready = .fetching ignored last fetchedAt ∧
      after = { server with ready := server.fetched now ignored last fetchedAt } := by
  simp only [step] at taken
  split at taken
  · cases taken
    exact ⟨_, _, _, by assumption, rfl⟩
  · cases taken

theorem step_fetchFails (taken : server.step .fetchFails = some after) :
    ∃ ignored last fetchedAt, server.ready = .fetching ignored last fetchedAt ∧
      after = { server with ready := .idle } := by
  simp only [step] at taken
  split at taken
  · cases taken
    exact ⟨_, _, _, by assumption, rfl⟩
  · cases taken

theorem step_checkCapacity (taken : server.step .checkCapacity = some after) :
    ∃ ignored last, server.ready = .offered ignored last ∧
      after = { server with ready := server.checkCapacity ignored last } := by
  simp only [step] at taken
  split at taken
  · cases taken
    exact ⟨_, _, by assumption, rfl⟩
  · cases taken

theorem step_offer {systemNow : Time} {pick : ExecutionId → Nat}
    (taken : server.step (.offer systemNow pick) = some after) :
    ∃ ignored fetchedAt batch, server.ready = .offering ignored fetchedAt batch ∧
      after = server.offered ignored batch
        (server.pool.tryOffer server.now systemNow pick batch fetchedAt).1 := by
  simp only [step] at taken
  split at taken
  · cases taken
    exact ⟨_, _, _, by assumption, rfl⟩
  · cases taken

theorem step_takeStarts {count : Nat} (taken : server.step (.takeStarts count) = some after) :
    server.starts = .idle ∧
      after = { server with
        pool := { server.pool with accepted := server.pool.accepted.drop count }
        starts := .starting (server.pool.accepted.take count) } := by
  simp only [step] at taken
  split at taken
  · split at taken
    · cases taken
      exact ⟨by assumption, rfl⟩
    · cases taken
  · cases taken

theorem step_commitStarts {pick : Pick} {acknowledged : Bool}
    (taken : server.step (.commitStarts pick acknowledged) = some after) :
    ∃ executions, server.starts = .starting executions ∧
      after = server.commitStarts executions pick acknowledged := by
  simp only [step] at taken
  split at taken
  · cases taken
    exact ⟨_, by assumption, rfl⟩
  · cases taken

theorem step_recordStarts (taken : server.step .recordStarts = some after) :
    ∃ executions returned, server.starts = .started executions returned ∧
      after = server.recordStarts executions returned := by
  simp only [step] at taken
  split at taken
  · cases taken
    exact ⟨_, _, by assumption, rfl⟩
  · cases taken

theorem step_cancelNotStarted (taken : server.step .cancelNotStarted = some after) :
    ∃ ids, server.starts = .cancelling ids ∧
      after = { server with
        pool := server.pool.cancelExecutionIds ids
        starts := .idle } := by
  simp only [step] at taken
  split at taken
  · cases taken
    exact ⟨_, by assumption, rfl⟩
  · cases taken

theorem step_giveUp (taken : server.step .giveUp = some after) :
    ∃ executions, server.starts = .starting executions ∧
      after = { server with
        starts := .givingUp (executions.map StartedExecution.executionId) } := by
  simp only [step] at taken
  split at taken
  · cases taken
    exact ⟨_, by assumption, rfl⟩
  · cases taken

theorem step_cancelGivenUp (taken : server.step .cancelGivenUp = some after) :
    ∃ ids, server.starts = .givingUp ids ∧
      after = { server with
        pool := server.pool.cancelExecutionIds ids
        starts := .forgetting ids } := by
  simp only [step] at taken
  split at taken
  · cases taken
    exact ⟨_, by assumption, rfl⟩
  · cases taken

theorem step_forget (taken : server.step .forget = some after) :
    ∃ ids, server.starts = .forgetting ids ∧
      after = { server with
        pool := server.pool.acceptedExecutionsNotStarted ids
        starts := .idle } := by
  simp only [step] at taken
  split at taken
  · cases taken
    exact ⟨_, by assumption, rfl⟩
  · cases taken

theorem step_takeEvents {count : Nat} {systemNow : Nat → Nat → Time} {invalidJson : String → Option String}
    (taken : server.step (.takeEvents count systemNow invalidJson) = some after) :
    server.results = .idle ∧ after = server.takeEvents count systemNow invalidJson := by
  simp only [step] at taken
  split at taken
  · split at taken
    · cases taken
      exact ⟨by assumption, rfl⟩
    · cases taken
  · cases taken

theorem step_stopWaiting (taken : server.step .stopWaiting = some after) :
    ∃ deadline succeededExecutions maybeRetryExecutions,
      server.results = .waiting deadline succeededExecutions maybeRetryExecutions ∧
      after = { server with results := .succeeding succeededExecutions maybeRetryExecutions } := by
  simp only [step] at taken
  split at taken
  · split at taken
    · cases taken
      exact ⟨_, _, _, by assumption, rfl⟩
    · cases taken
  · cases taken

theorem step_commitSucceeded {systemNow : Nat → Time} {pick : Pick} {acknowledged : Bool}
    (taken : server.step (.commitSucceeded systemNow pick acknowledged) = some after) :
    ∃ succeededExecutions maybeRetryExecutions,
      server.results = .succeeding succeededExecutions maybeRetryExecutions ∧
      after = { server with
        store := Postgres.PostgresBackend.executionsSucceeded server.store pick succeededExecutions
        results :=
          if acknowledged then
            .retrying (retryExecutions systemNow maybeRetryExecutions)
          else
            .succeeding succeededExecutions maybeRetryExecutions } := by
  simp only [step] at taken
  split at taken
  · cases taken
    exact ⟨_, _, by assumption, rfl⟩
  · cases taken

/-- After a commit the call is repeated, its rest is called, or the loop is done. -/
theorem afterCommit_induction {α : Type} {motive : α → Prop} {call : RetryCall}
    {retry : RetryCall → α} {done : α} (again : motive (retry call))
    (next : ∀ rest, call.rest = some rest → motive (retry rest)) (last : motive done)
    (acknowledged : Bool) : motive (afterCommit call call.rest acknowledged retry done) := by
  unfold afterCommit
  split
  · split
    · rename_i rest left
      exact next rest left
    · exact last
  · exact again

theorem step_commitResults {now : Time} {pick : Pick} {acknowledged : Bool}
    (taken : server.step (.commitResults now pick acknowledged) = some after) :
    ∃ call store, server.results = .retrying call ∧
      (call.operation now pick).apply server.store = some store ∧
      after = { server with
        store := store
        results := afterCommit call call.rest acknowledged .retrying .idle } := by
  simp only [step] at taken
  split at taken
  · rw [RetryCall.commit_eq, Option.map_map] at taken
    obtain ⟨store, done, rfl⟩ := Option.map_eq_some_iff.mp taken
    exact ⟨_, store, by assumption, done, rfl⟩
  · cases taken

theorem step_fetchInProgress {systemNow : Time}
    (taken : server.step (.fetchInProgress systemNow) = some after) :
    ∃ last, server.timeouts = .fetching last ∧
      (after = { server with timeouts := .fetching none } ∨
        after = { server with
          timeouts := .checking ((PostgresBackend.inProgressExecutions server.store last).getLast?.map
            InProgressExecution.executionId) systemNow
            (PostgresBackend.inProgressExecutions server.store last) [] [] }) := by
  simp only [step] at taken
  split at taken
  · split at taken
    · cases taken
      exact ⟨_, by assumption, .inl rfl⟩
    · cases taken
      exact ⟨_, by assumption, .inr rfl⟩
  · cases taken

theorem step_fetchInProgressFails (taken : server.step .fetchInProgressFails = some after) :
    ∃ last, server.timeouts = .fetching last ∧ after = { server with timeouts := .fetching none } := by
  simp only [step] at taken
  split at taken
  · cases taken
    exact ⟨_, by assumption, rfl⟩
  · cases taken

theorem step_checkInProgress (taken : server.step .checkInProgress = some after) :
    ∃ last now execution unchecked timedOut orphaned,
      server.timeouts = .checking last now (execution :: unchecked) timedOut orphaned ∧
      after = { server with
        timeouts := .checking last now unchecked
          (checkExecution server.pool now execution timedOut orphaned).1
          (checkExecution server.pool now execution timedOut orphaned).2 } := by
  simp only [step] at taken
  split at taken
  · cases taken
    exact ⟨_, _, _, _, _, _, by assumption, rfl⟩
  · cases taken

theorem step_startTimingOut {systemNow : Nat → Time}
    (taken : server.step (.startTimingOut systemNow) = some after) :
    ∃ last now timedOut orphaned, server.timeouts = .checking last now [] timedOut orphaned ∧
      after = { server with
        timeouts := .timingOut last (retryExecutions systemNow timedOut)
          (timedOut.map fun execution => execution.execution.executionId) orphaned } := by
  simp only [step] at taken
  split at taken
  · cases taken
    exact ⟨_, _, _, _, by assumption, rfl⟩
  · cases taken

theorem step_commitTimedOut {now : Time} {pick : Pick} {acknowledged : Bool}
    (taken : server.step (.commitTimedOut now pick acknowledged) = some after) :
    ∃ last call ids orphaned store, server.timeouts = .timingOut last call ids orphaned ∧
      (call.operation now pick).apply server.store = some store ∧
      after = { server with
        store := store
        timeouts := afterCommit call call.rest acknowledged
          (fun call => .timingOut last call ids orphaned) (.cancelling last ids orphaned) } := by
  simp only [step] at taken
  split at taken
  · rw [RetryCall.commit_eq, Option.map_map] at taken
    obtain ⟨store, done, rfl⟩ := Option.map_eq_some_iff.mp taken
    exact ⟨_, _, _, _, store, by assumption, done, rfl⟩
  · cases taken

theorem step_cancelTimedOut {systemNow : Nat → Time}
    (taken : server.step (.cancelTimedOut systemNow) = some after) :
    ∃ last ids orphaned, server.timeouts = .cancelling last ids orphaned ∧
      after = { server with
        pool := server.pool.cancelExecutionIds ids
        timeouts := .failingOrphaned last (retryExecutions systemNow orphaned) } := by
  simp only [step] at taken
  split at taken
  · cases taken
    exact ⟨_, _, _, by assumption, rfl⟩
  · cases taken

theorem step_commitOrphaned {now : Time} {pick : Pick} {acknowledged : Bool}
    (taken : server.step (.commitOrphaned now pick acknowledged) = some after) :
    ∃ last call store, server.timeouts = .failingOrphaned last call ∧
      (call.operation now pick).apply server.store = some store ∧
      after = { server with
        store := store
        timeouts := afterCommit call call.rest acknowledged
          (fun call => .failingOrphaned last call) (.fetching last) } := by
  simp only [step] at taken
  split at taken
  · rw [RetryCall.commit_eq, Option.map_map] at taken
    obtain ⟨store, done, rfl⟩ := Option.map_eq_some_iff.mp taken
    exact ⟨_, _, store, by assumption, done, rfl⟩
  · cases taken

theorem step_giveUpTimeouts (taken : server.step .giveUpTimeouts = some after) :
    ∃ timeouts, server.timeouts.giveUp = some timeouts ∧
      after = { server with timeouts := timeouts } := by
  obtain ⟨timeouts, given, rfl⟩ := Option.map_eq_some_iff.mp taken
  exact ⟨timeouts, given, rfl⟩

/-- The store changes by the operation that the action performs, if any. -/
theorem step_operation {action : Action} (taken : server.step action = some after) :
    after.store = server.store ∨ ∃ operation, action.operation server = some operation ∧
      operation.apply server.store = some after.store := by
  cases action with
  | addJobs now pick jobs ifNotExists =>
      obtain ⟨store, done, rfl⟩ := step_addJobs taken
      exact .inr ⟨_, rfl, done⟩
  | addSchedules now schedules ifNotExists =>
      obtain ⟨store, done, rfl⟩ := step_addSchedules taken
      exact .inr ⟨_, rfl, done⟩
  | deleteHistory deleteBatchSize before =>
      cases taken
      exact .inr ⟨_, rfl, rfl⟩
  | cancelJobs now systemNow pick filters =>
      cases taken
      exact .inr ⟨_, rfl, rfl⟩
  | stopSchedules now filters cancelActiveJobs =>
      cases taken
      exact .inr ⟨_, rfl, rfl⟩
  | cancelStopped index now systemNow pick =>
      obtain ⟨schedules, current, rfl⟩ := step_cancelStopped taken
      exact .inr ⟨_, by rw [Action.operation, current], rfl⟩
  | commitStarts pick acknowledged =>
      obtain ⟨executions, current, rfl⟩ := step_commitStarts taken
      exact .inr ⟨_, by rw [Action.operation, current], rfl⟩
  | commitSucceeded systemNow pick acknowledged =>
      obtain ⟨_, _, current, rfl⟩ := step_commitSucceeded taken
      exact .inr ⟨_, by rw [Action.operation, current], rfl⟩
  | commitResults now pick acknowledged =>
      obtain ⟨_, _, current, done, rfl⟩ := step_commitResults taken
      exact .inr ⟨_, by rw [Action.operation, current], done⟩
  | commitTimedOut now pick acknowledged =>
      obtain ⟨_, _, _, _, _, current, done, rfl⟩ := step_commitTimedOut taken
      exact .inr ⟨_, by rw [Action.operation, current], done⟩
  | commitOrphaned now pick acknowledged =>
      obtain ⟨_, _, _, current, done, rfl⟩ := step_commitOrphaned taken
      exact .inr ⟨_, by rw [Action.operation, current], done⟩
  | tick | connect | message | checkOffers | disconnect | closeOutbound =>
      cases taken
      exact .inl rfl
  | cancelRequested =>
      obtain ⟨_, _, rfl⟩ := step_cancelRequested taken
      exact .inl rfl
  | startPass =>
      obtain ⟨_, rfl⟩ := step_startPass taken
      exact .inl rfl
  | readClock =>
      obtain ⟨_, _, _, rfl⟩ := step_readClock taken
      exact .inl rfl
  | fetchReady =>
      obtain ⟨_, _, _, _, rfl⟩ := step_fetchReady taken
      exact .inl rfl
  | fetchFails =>
      obtain ⟨_, _, _, _, rfl⟩ := step_fetchFails taken
      exact .inl rfl
  | offer =>
      obtain ⟨_, _, _, _, rfl⟩ := step_offer taken
      exact .inl rfl
  | checkCapacity =>
      obtain ⟨_, _, _, rfl⟩ := step_checkCapacity taken
      exact .inl rfl
  | takeStarts =>
      obtain ⟨_, rfl⟩ := step_takeStarts taken
      exact .inl rfl
  | recordStarts =>
      obtain ⟨_, _, _, rfl⟩ := step_recordStarts taken
      exact .inl rfl
  | cancelNotStarted =>
      obtain ⟨_, _, rfl⟩ := step_cancelNotStarted taken
      exact .inl rfl
  | giveUp =>
      obtain ⟨_, _, rfl⟩ := step_giveUp taken
      exact .inl rfl
  | cancelGivenUp =>
      obtain ⟨_, _, rfl⟩ := step_cancelGivenUp taken
      exact .inl rfl
  | forget =>
      obtain ⟨_, _, rfl⟩ := step_forget taken
      exact .inl rfl
  | takeEvents =>
      obtain ⟨_, rfl⟩ := step_takeEvents taken
      exact .inl rfl
  | stopWaiting =>
      obtain ⟨_, _, _, _, rfl⟩ := step_stopWaiting taken
      exact .inl rfl
  | fetchInProgress =>
      obtain ⟨_, _, rfl | rfl⟩ := step_fetchInProgress taken
      · exact .inl rfl
      · exact .inl rfl
  | checkInProgress =>
      obtain ⟨_, _, _, _, _, _, _, rfl⟩ := step_checkInProgress taken
      exact .inl rfl
  | fetchInProgressFails =>
      obtain ⟨_, _, rfl⟩ := step_fetchInProgressFails taken
      exact .inl rfl
  | giveUpTimeouts =>
      obtain ⟨_, _, rfl⟩ := step_giveUpTimeouts taken
      exact .inl rfl
  | startTimingOut =>
      obtain ⟨_, _, _, _, _, rfl⟩ := step_startTimingOut taken
      exact .inl rfl
  | cancelTimedOut =>
      obtain ⟨_, _, _, _, rfl⟩ := step_cancelTimedOut taken
      exact .inl rfl

/-- The pool after an action. -/
def poolAfter (server : ServerState) : Action → ExecutorPool
  | .connect => server.pool.addExecutor server.nextExecutor
  | .message id systemNow message =>
      server.pool.executorMessage server.now systemNow id message
  | .checkOffers id => server.pool.withdrawOffers id (some server.now) server.now
  | .disconnect id => server.pool.dropExecutor id
  | .closeOutbound id => server.pool.closeOutbound id
  | .offer systemNow pick =>
      match server.ready with
      | .offering _ fetchedAt batch =>
          (server.pool.tryOffer server.now systemNow pick batch fetchedAt).1
      | _ => server.pool
  | .takeStarts count => { server.pool with accepted := server.pool.accepted.drop count }
  | .recordStarts =>
      match server.starts with
      | .started executions _ => server.pool.acceptedExecutionsStarted
          (executions.map StartedExecution.executionId) server.now
      | _ => server.pool
  | .forget =>
      match server.starts with
      | .forgetting ids => server.pool.acceptedExecutionsNotStarted ids
      | _ => server.pool
  | .takeEvents count _ _ => { server.pool with events := server.pool.events.drop count }
  | action => server.pool.cancelExecutionIds (action.cancelledIds server)

theorem step_pool {action : Action} (taken : server.step action = some after) :
    after.pool = server.poolAfter action := by
  cases action with
  | tick | connect | message | checkOffers | disconnect | closeOutbound | deleteHistory
  | cancelJobs | stopSchedules =>
      cases taken
      rfl
  | addJobs now pick jobs ifNotExists =>
      obtain ⟨_, _, rfl⟩ := step_addJobs taken
      rfl
  | addSchedules now schedules ifNotExists =>
      obtain ⟨_, _, rfl⟩ := step_addSchedules taken
      rfl
  | cancelStopped index now systemNow pick =>
      obtain ⟨_, _, rfl⟩ := step_cancelStopped taken
      rfl
  | cancelRequested index =>
      obtain ⟨ids, current, rfl⟩ := step_cancelRequested taken
      simp only [poolAfter, Action.cancelledIds, current]
  | startPass =>
      obtain ⟨_, rfl⟩ := step_startPass taken
      rfl
  | readClock =>
      obtain ⟨_, _, _, rfl⟩ := step_readClock taken
      rfl
  | fetchReady now =>
      obtain ⟨_, _, _, _, rfl⟩ := step_fetchReady taken
      rfl
  | fetchFails =>
      obtain ⟨_, _, _, _, rfl⟩ := step_fetchFails taken
      rfl
  | offer systemNow pick =>
      obtain ⟨_, _, _, current, rfl⟩ := step_offer taken
      rw [poolAfter, current]
      rfl
  | checkCapacity =>
      obtain ⟨_, _, _, rfl⟩ := step_checkCapacity taken
      rfl
  | takeStarts count =>
      obtain ⟨_, rfl⟩ := step_takeStarts taken
      rfl
  | commitStarts pick acknowledged =>
      obtain ⟨_, _, rfl⟩ := step_commitStarts taken
      rfl
  | recordStarts =>
      obtain ⟨_, _, current, rfl⟩ := step_recordStarts taken
      rw [poolAfter, current]
      rfl
  | cancelNotStarted =>
      obtain ⟨_, current, rfl⟩ := step_cancelNotStarted taken
      simp only [poolAfter, Action.cancelledIds, current]
  | giveUp =>
      obtain ⟨_, _, rfl⟩ := step_giveUp taken
      rfl
  | cancelGivenUp =>
      obtain ⟨_, current, rfl⟩ := step_cancelGivenUp taken
      simp only [poolAfter, Action.cancelledIds, current]
  | forget =>
      obtain ⟨_, current, rfl⟩ := step_forget taken
      rw [poolAfter, current]
  | takeEvents count systemNow invalidJson =>
      obtain ⟨_, rfl⟩ := step_takeEvents taken
      rfl
  | stopWaiting =>
      obtain ⟨_, _, _, _, rfl⟩ := step_stopWaiting taken
      rfl
  | commitSucceeded systemNow pick acknowledged =>
      obtain ⟨_, _, _, rfl⟩ := step_commitSucceeded taken
      rfl
  | commitResults now pick acknowledged =>
      obtain ⟨_, _, _, _, rfl⟩ := step_commitResults taken
      rfl
  | fetchInProgress systemNow =>
      obtain ⟨_, _, rfl | rfl⟩ := step_fetchInProgress taken
      · rfl
      · rfl
  | checkInProgress =>
      obtain ⟨_, _, _, _, _, _, _, rfl⟩ := step_checkInProgress taken
      rfl
  | startTimingOut systemNow =>
      obtain ⟨_, _, _, _, _, rfl⟩ := step_startTimingOut taken
      rfl
  | commitTimedOut now pick acknowledged =>
      obtain ⟨_, _, _, _, _, _, _, rfl⟩ := step_commitTimedOut taken
      rfl
  | cancelTimedOut systemNow =>
      obtain ⟨_, _, _, current, rfl⟩ := step_cancelTimedOut taken
      simp only [poolAfter, Action.cancelledIds, current]
  | commitOrphaned now pick acknowledged =>
      obtain ⟨_, _, _, _, _, rfl⟩ := step_commitOrphaned taken
      rfl
  | fetchInProgressFails =>
      obtain ⟨_, _, rfl⟩ := step_fetchInProgressFails taken
      rfl
  | giveUpTimeouts =>
      obtain ⟨_, _, rfl⟩ := step_giveUpTimeouts taken
      rfl

theorem step_loops {action : Action} (taken : server.step action = some after) :
    (action.ofStarts = false → after.starts = server.starts) ∧
      (action.ofEvents = false → after.results = server.results) ∧
      (action.ofTimeouts = false → after.timeouts = server.timeouts) ∧
      (action.ofReady = false → after.ready = server.ready) ∧
      (action.ofRequests = false → after.requests = server.requests) := by
  cases action with
  | tick | connect | message | checkOffers | disconnect | closeOutbound | deleteHistory =>
      cases taken
      exact ⟨fun _ => rfl, fun _ => rfl, fun _ => rfl, fun _ => rfl, fun _ => rfl⟩
  | cancelJobs | stopSchedules =>
      cases taken
      exact ⟨fun _ => rfl, fun _ => rfl, fun _ => rfl, fun _ => rfl, fun own => (by cases own)⟩
  | addJobs now pick jobs ifNotExists =>
      obtain ⟨_, _, rfl⟩ := step_addJobs taken
      exact ⟨fun _ => rfl, fun _ => rfl, fun _ => rfl, fun _ => rfl, fun _ => rfl⟩
  | addSchedules now schedules ifNotExists =>
      obtain ⟨_, _, rfl⟩ := step_addSchedules taken
      exact ⟨fun _ => rfl, fun _ => rfl, fun _ => rfl, fun _ => rfl, fun _ => rfl⟩
  | cancelStopped index now systemNow pick =>
      obtain ⟨_, _, rfl⟩ := step_cancelStopped taken
      exact ⟨fun _ => rfl, fun _ => rfl, fun _ => rfl, fun _ => rfl, fun own => (by cases own)⟩
  | cancelRequested index =>
      obtain ⟨_, _, rfl⟩ := step_cancelRequested taken
      exact ⟨fun _ => rfl, fun _ => rfl, fun _ => rfl, fun _ => rfl, fun own => (by cases own)⟩
  | startPass =>
      obtain ⟨_, rfl⟩ := step_startPass taken
      exact ⟨fun _ => rfl, fun _ => rfl, fun _ => rfl, fun own => (by cases own), fun _ => rfl⟩
  | readClock =>
      obtain ⟨_, _, _, rfl⟩ := step_readClock taken
      exact ⟨fun _ => rfl, fun _ => rfl, fun _ => rfl, fun own => (by cases own), fun _ => rfl⟩
  | fetchReady now =>
      obtain ⟨_, _, _, _, rfl⟩ := step_fetchReady taken
      exact ⟨fun _ => rfl, fun _ => rfl, fun _ => rfl, fun own => (by cases own), fun _ => rfl⟩
  | fetchFails =>
      obtain ⟨_, _, _, _, rfl⟩ := step_fetchFails taken
      exact ⟨fun _ => rfl, fun _ => rfl, fun _ => rfl, fun own => (by cases own), fun _ => rfl⟩
  | offer systemNow pick =>
      obtain ⟨_, _, _, _, rfl⟩ := step_offer taken
      exact ⟨fun _ => rfl, fun _ => rfl, fun _ => rfl, fun own => (by cases own), fun _ => rfl⟩
  | checkCapacity =>
      obtain ⟨_, _, _, rfl⟩ := step_checkCapacity taken
      exact ⟨fun _ => rfl, fun _ => rfl, fun _ => rfl, fun own => (by cases own), fun _ => rfl⟩
  | takeStarts count =>
      obtain ⟨_, rfl⟩ := step_takeStarts taken
      exact ⟨fun own => (by cases own), fun _ => rfl, fun _ => rfl, fun _ => rfl, fun _ => rfl⟩
  | commitStarts pick acknowledged =>
      obtain ⟨_, _, rfl⟩ := step_commitStarts taken
      exact ⟨fun own => (by cases own), fun _ => rfl, fun _ => rfl, fun _ => rfl, fun _ => rfl⟩
  | recordStarts =>
      obtain ⟨_, _, _, rfl⟩ := step_recordStarts taken
      exact ⟨fun own => (by cases own), fun _ => rfl, fun _ => rfl, fun _ => rfl, fun _ => rfl⟩
  | cancelNotStarted =>
      obtain ⟨_, _, rfl⟩ := step_cancelNotStarted taken
      exact ⟨fun own => (by cases own), fun _ => rfl, fun _ => rfl, fun _ => rfl, fun _ => rfl⟩
  | giveUp =>
      obtain ⟨_, _, rfl⟩ := step_giveUp taken
      exact ⟨fun own => (by cases own), fun _ => rfl, fun _ => rfl, fun _ => rfl, fun _ => rfl⟩
  | cancelGivenUp =>
      obtain ⟨_, _, rfl⟩ := step_cancelGivenUp taken
      exact ⟨fun own => (by cases own), fun _ => rfl, fun _ => rfl, fun _ => rfl, fun _ => rfl⟩
  | forget =>
      obtain ⟨_, _, rfl⟩ := step_forget taken
      exact ⟨fun own => (by cases own), fun _ => rfl, fun _ => rfl, fun _ => rfl, fun _ => rfl⟩
  | takeEvents count systemNow invalidJson =>
      obtain ⟨_, rfl⟩ := step_takeEvents taken
      exact ⟨fun _ => rfl, fun own => (by cases own), fun _ => rfl, fun _ => rfl, fun _ => rfl⟩
  | stopWaiting =>
      obtain ⟨_, _, _, _, rfl⟩ := step_stopWaiting taken
      exact ⟨fun _ => rfl, fun own => (by cases own), fun _ => rfl, fun _ => rfl, fun _ => rfl⟩
  | commitSucceeded systemNow pick acknowledged =>
      obtain ⟨_, _, _, rfl⟩ := step_commitSucceeded taken
      exact ⟨fun _ => rfl, fun own => (by cases own), fun _ => rfl, fun _ => rfl, fun _ => rfl⟩
  | commitResults now pick acknowledged =>
      obtain ⟨_, _, _, _, rfl⟩ := step_commitResults taken
      exact ⟨fun _ => rfl, fun own => (by cases own), fun _ => rfl, fun _ => rfl, fun _ => rfl⟩
  | fetchInProgress systemNow =>
      obtain ⟨_, _, rfl | rfl⟩ := step_fetchInProgress taken
      · exact ⟨fun _ => rfl, fun _ => rfl, fun own => (by cases own), fun _ => rfl, fun _ => rfl⟩
      · exact ⟨fun _ => rfl, fun _ => rfl, fun own => (by cases own), fun _ => rfl, fun _ => rfl⟩
  | checkInProgress =>
      obtain ⟨_, _, _, _, _, _, _, rfl⟩ := step_checkInProgress taken
      exact ⟨fun _ => rfl, fun _ => rfl, fun own => (by cases own), fun _ => rfl, fun _ => rfl⟩
  | startTimingOut systemNow =>
      obtain ⟨_, _, _, _, _, rfl⟩ := step_startTimingOut taken
      exact ⟨fun _ => rfl, fun _ => rfl, fun own => (by cases own), fun _ => rfl, fun _ => rfl⟩
  | commitTimedOut now pick acknowledged =>
      obtain ⟨_, _, _, _, _, _, _, rfl⟩ := step_commitTimedOut taken
      exact ⟨fun _ => rfl, fun _ => rfl, fun own => (by cases own), fun _ => rfl, fun _ => rfl⟩
  | cancelTimedOut systemNow =>
      obtain ⟨_, _, _, _, rfl⟩ := step_cancelTimedOut taken
      exact ⟨fun _ => rfl, fun _ => rfl, fun own => (by cases own), fun _ => rfl, fun _ => rfl⟩
  | commitOrphaned now pick acknowledged =>
      obtain ⟨_, _, _, _, _, rfl⟩ := step_commitOrphaned taken
      exact ⟨fun _ => rfl, fun _ => rfl, fun own => (by cases own), fun _ => rfl, fun _ => rfl⟩
  | fetchInProgressFails =>
      obtain ⟨_, _, rfl⟩ := step_fetchInProgressFails taken
      exact ⟨fun _ => rfl, fun _ => rfl, fun own => (by cases own), fun _ => rfl, fun _ => rfl⟩
  | giveUpTimeouts =>
      obtain ⟨_, _, rfl⟩ := step_giveUpTimeouts taken
      exact ⟨fun _ => rfl, fun _ => rfl, fun own => (by cases own), fun _ => rfl, fun _ => rfl⟩

end ServerState

end Ora.Server
