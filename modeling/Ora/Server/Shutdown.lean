import Mathlib.Logic.Function.Basic
import Ora.Server.Handover
import Ora.Server.Steps

/-!
# Shutting down

The server of `Loops` with the shutdown of its loops.  After the signal the
executors are given a grace period to finish, the starts and the events are
processed until all of them are gone, and backend calls are given up after a
few attempts.  The `log` keeps what was sent on the two channels and what was
done with it.
-/

namespace Ora.Server

open Ora.Backend
open Ora.Library
open Ora.Postgres (PostgresBackend.readyExecutions)

/-! ## Executors -/

namespace ExecutorPool

/-- An execution accepted during shutdown is cancelled. -/
def acceptedInShutdown (pool : ExecutorPool) (executor : Executor) (id : ExecutionId) :
    ExecutorPool :=
  match executor.findExecution id with
  | none => pool.send executor (.executionCancelled id)
  | some execution =>
      match execution.state with
      | .accepted => pool
      | .offered _ _ =>
          (pool.modifyExecutor executor.id
            (Executor.modifyQueue id (ExecutorJobQueue.remove id))).send
              executor (.executionCancelled id)

/-- Messages that are ignored, the loop of the executor continues. -/
def ignores (executor : Executor) : ExecutorMessage → Bool
  | .executionRejected id => (executor.findExecution id).all ExecutorExecution.isAccepted
  | .executionSucceeded id _ _ => !(executor.findExecution id).any ExecutorExecution.isAccepted
  | .executionFailed id _ _ => !(executor.findExecution id).any ExecutorExecution.isAccepted
  | _ => false

/-- The executor is dropped if it has no accepted executions. -/
def dropFinished (pool : ExecutorPool) (id : ExecutorId) : ExecutorPool :=
  match pool.executors.find? fun executor => executor.id == id with
  | none => pool
  | some executor =>
      if executor.assignedExecutions.isEmpty then pool.dropExecutor id else pool

/-- One message of an executor that is finishing its executions. -/
def drainingMessage (pool : ExecutorPool) (now : Instant) (systemNow : Time) (id : ExecutorId)
    (message : ExecutorMessage) : ExecutorPool :=
  match pool.executors.find? fun executor => executor.id == id with
  | none => pool
  | some executor =>
      if executor.connected then
        match message with
        | .executionAccepted execution => pool.acceptedInShutdown executor execution
        | message =>
            let after := pool.executorMessage now systemNow id message
            if ignores executor message then after else after.dropFinished id
      else
        pool.dropExecutor id

/-- The grace period of the executor elapsed. -/
def cancelAssigned (pool : ExecutorPool) (id : ExecutorId) : ExecutorPool :=
  match pool.executors.find? fun executor => executor.id == id with
  | none => pool
  | some executor =>
      (executor.assignedExecutions.foldl (fun pool execution =>
        pool.send executor (.executionCancelled execution.executionId)) pool).dropExecutor id

/-- No new executions are accepted during shutdown, `true` if the executor has
to finish some first. -/
def shutdownExecutor (pool : ExecutorPool) (shutdownGracePeriod : Duration) (now : Instant)
    (id : ExecutorId) : ExecutorPool × Bool :=
  if shutdownGracePeriod = 0 then
    (pool.dropExecutor id, false)
  else
    let pool := pool.withdrawOffers id none now
    if pool.executors.any fun executor =>
        executor.id == id && !executor.assignedExecutions.isEmpty then
      (pool, true)
    else
      (pool.dropExecutor id, false)

end ExecutorPool

/-! ## Loops -/

/-- A loop that processes what executors send.  When it shuts down it looks at
the pool first, and at its channel if there were no executors. -/
inductive LoopPhase where
  | serving
  | draining (deadline : Instant)
  | poolEmpty (deadline : Instant)
  | returned
  deriving DecidableEq, Repr

inductive LoopAction where
  | noticeSignal
  | checkPool
  | checkChannel
  | deadlineElapsed
  deriving DecidableEq, Repr

def shutdownEventsMargin : Duration := 5 * second

/-- The maximum attempts of backend operations during shutdown. -/
def maxShutdownAttempts : Nat := 3

namespace LoopPhase

/-- Whether the loop receives from its channel. -/
def receives : LoopPhase → Bool
  | .serving => true
  | .draining _ => true
  | _ => false

def step (signalled : Bool) (now : Instant) (shutdownGracePeriod : Duration)
    (poolEmpty channelEmpty : Bool) : LoopPhase → LoopAction → Option LoopPhase
  | .serving, .noticeSignal =>
      if signalled then
        some (.draining (now + (shutdownGracePeriod + shutdownEventsMargin)))
      else
        none
  | .draining deadline, .checkPool =>
      some (if poolEmpty then .poolEmpty deadline else .draining deadline)
  | .poolEmpty deadline, .checkChannel =>
      some (if channelEmpty then .returned else .draining deadline)
  | .draining deadline, .deadlineElapsed =>
      if deadline ≤ now then some .returned else none
  | _, _ => none

end LoopPhase

/-- The loops that call the backend until it succeeds. -/
inductive Caller where
  | starts
  | events
  | timeouts
  deriving DecidableEq, Repr

/-- Backend calls for the results of executions. -/
inductive ResultCall where
  | executionsSucceeded (executions : List SucceededExecution)
  | executionsFailed (executions : List FailedExecution)
  | executionsRetried (executions : List RetriedExecution)
  deriving DecidableEq, Repr

def RetryCall.resultCall : RetryCall → ResultCall
  | .failing failedExecutions _ => .executionsFailed failedExecutions
  | .retrying retriedExecutions => .executionsRetried retriedExecutions

/-- The call that the loop makes. -/
def EventsLoop.call? : EventsLoop → Option ResultCall
  | .succeeding succeededExecutions _ => some (.executionsSucceeded succeededExecutions)
  | .retrying call => some call.resultCall
  | _ => none

/-- The call is not made again. -/
def EventsLoop.giveUp (systemNow : Nat → Time) : EventsLoop → Option EventsLoop
  | .succeeding _ maybeRetryExecutions =>
      some (.retrying (retryExecutions systemNow maybeRetryExecutions))
  | .retrying call => some (ServerState.afterCommit call call.rest true .retrying .idle)
  | _ => none

/-- Whether the loop is making a backend call. -/
def Caller.calling (server : ServerState) : Caller → Bool
  | .starts =>
      match server.starts with
      | .starting _ => true
      | _ => false
  | .events => server.results.call?.isSome
  | .timeouts => server.timeouts.giveUp.isSome

/-! ## The process -/

/-- What was sent on the channels and by whom, the events that were received,
the backend calls that were made for them, the calls of `start_executions`, the
executions named by calls of `executions_started` that returned, and the accepted
executions that were cancelled. -/
structure Log where
  sent : List (ExecutorId × ExecutorEvent)
  received : List ExecutorEvent
  resultCalls : List ResultCall
  accepted : List StartedExecution
  startCalls : List (List StartedExecution)
  recorded : List ExecutionId
  cancelled : List (ExecutorId × ExecutionId)

/-- `attempts` are the failed attempts of the current backend call of a loop. -/
structure Process where
  server : ServerState
  shutdownGracePeriod : Duration
  signalled : Bool
  draining : List (ExecutorId × Instant)
  readyReturned : Bool
  timeoutsReturned : Bool
  starts : LoopPhase
  events : LoopPhase
  attempts : Caller → Nat
  log : Log

def Process.initial (shutdownGracePeriod : Duration) : Process :=
  ⟨.initial, shutdownGracePeriod, false, [], false, false, .serving, .serving, fun _ => 0,
    ⟨[], [], [], [], [], [], []⟩⟩

inductive ProcessAction where
  | act (action : Action)
  -- `executor_loop`
  | message (executor : ExecutorId) (systemNow : Time) (message : ExecutorMessage)
  | checkOffers (executor : ExecutorId)
  | disconnect (executor : ExecutorId)
  | shutdownExecutor (executor : ExecutorId)
  | graceElapsed (executor : ExecutorId)
  -- shutdown
  | signal
  | endReady
  | endTimeouts
  | starts (action : LoopAction)
  | events (action : LoopAction)
  -- `retry_backend`
  | callFails (caller : Caller)
  | giveUpResults (systemNow : Nat → Time)

namespace ProcessAction

/-- Steps of `executor_loop`. -/
def ofExecutor : ProcessAction → Bool
  | .message _ _ _ | .checkOffers _ | .disconnect _ | .shutdownExecutor _ | .graceElapsed _ => true
  | _ => false

/-- Steps after which a loop is closer to its end. -/
def ofPhase : ProcessAction → Bool
  | .signal | .endReady | .endTimeouts | .starts _ | .events _ => true
  | _ => false

end ProcessAction

/-! ## What an action does to the log -/

namespace Action

/-- The loops of the executors are stepped by the process. -/
def ofExecutor : Action → Bool
  | .message _ _ _ => true
  | .checkOffers _ => true
  | .disconnect _ => true
  | _ => false

def receives (server : ServerState) : Action → List ExecutorEvent
  | .takeEvents count _ _ => server.pool.events.take count
  | _ => []

def resultCalls (server : ServerState) : Action → List ResultCall
  | .commitSucceeded _ _ _ => server.results.call?.toList
  | .commitResults _ _ _ => server.results.call?.toList
  | _ => []

def startCalls (server : ServerState) : Action → List (List StartedExecution)
  | .takeStarts count => [server.pool.accepted.take count]
  | _ => []

/-- The executions whose start is acknowledged. -/
def recorded (server : ServerState) : Action → List ExecutionId
  | .commitStarts _ true =>
      match server.starts with
      | .starting executions => executions.map StartedExecution.executionId
      | _ => []
  | _ => []

/-- The loop whose backend call is made or given up, and whether it is over. -/
def call? : Action → Option (Caller × Bool)
  | .commitStarts _ acknowledged => some (.starts, acknowledged)
  | .giveUp => some (.starts, true)
  | .commitSucceeded _ _ acknowledged => some (.events, acknowledged)
  | .commitResults _ _ acknowledged => some (.events, acknowledged)
  | .commitTimedOut _ _ acknowledged => some (.timeouts, acknowledged)
  | .commitOrphaned _ _ acknowledged => some (.timeouts, acknowledged)
  | .giveUpTimeouts => some (.timeouts, true)
  | _ => none

end Action

/-- The log after an action of the server. -/
def Log.record (log : Log) (server : ServerState) (action : Action) (after : ServerState) : Log where
  sent := log.sent
  received := log.received ++ action.receives server
  resultCalls := log.resultCalls ++ action.resultCalls server
  accepted := log.accepted ++ after.pool.accepted.drop server.pool.accepted.length
  startCalls := log.startCalls ++ action.startCalls server
  recorded := log.recorded ++ action.recorded server
  cancelled := log.cancelled ++ server.pool.assigned.filter fun pair =>
    (action.cancelledIds server).contains pair.2

/-! ## Steps -/

namespace Process

def isDraining (process : Process) (id : ExecutorId) : Bool :=
  process.draining.any fun entry => entry.1 == id

/-- The number of failed attempts after which a backend call is given up. -/
def maxAttempts (process : Process) : Nat :=
  if process.signalled then min maxU32 maxShutdownAttempts else maxU32

/-- What the loops do not do anymore after the signal, or once they returned. -/
def admits (process : Process) : Action → Bool
  | .startPass => !process.readyReturned
  | .readClock => !process.readyReturned
  | .fetchReady now => !process.readyReturned &&
      match process.server.ready with
      | .fetching ignored last _ => !process.signalled ||
          (PostgresBackend.readyExecutions process.server.store now ignored last).isEmpty
      | _ => true
  | .takeStarts _ => process.starts.receives
  | .giveUp => decide (process.maxAttempts ≤ process.attempts .starts)
  | .takeEvents _ _ _ => process.events.receives
  | .fetchInProgress _ => !process.timeoutsReturned
  | .fetchInProgressFails => !process.timeoutsReturned
  | .giveUpTimeouts => decide (process.maxAttempts ≤ process.attempts .timeouts)
  | action => !action.ofExecutor

/-- An action of the server. -/
def act (process : Process) (action : Action) (after : ServerState) : Process :=
  { process with
    server := after
    attempts :=
      match action.call? with
      | some (caller, acknowledged) => Function.update process.attempts caller
          (if acknowledged then 0 else process.attempts caller + 1)
      | none => process.attempts
    log := process.log.record process.server action after }

/-- The loop of an executor changes the pool. -/
def executorStep (process : Process) (id : ExecutorId) (pool : ExecutorPool) : Process :=
  { process with
    server := { process.server with pool := pool }
    log := { process.log with
      sent := process.log.sent ++
        (pool.events.drop process.server.pool.events.length).map fun event => (id, event)
      accepted := process.log.accepted ++
        pool.accepted.drop process.server.pool.accepted.length } }

def step (process : Process) : ProcessAction → Option Process
  | .act action =>
      if process.admits action then
        (process.server.step action).map (process.act action)
      else
        none
  | .message id systemNow message =>
      some (process.executorStep id
        (if process.isDraining id then
          process.server.pool.drainingMessage process.server.now systemNow id message
        else
          process.server.pool.executorMessage process.server.now systemNow id message))
  | .checkOffers id =>
      if process.isDraining id then
        none
      else
        some (process.executorStep id
          (process.server.pool.withdrawOffers id (some process.server.now) process.server.now))
  | .disconnect id => some (process.executorStep id (process.server.pool.dropExecutor id))
  | .shutdownExecutor id =>
      if process.signalled && !process.isDraining id then
        let stopped := process.server.pool.shutdownExecutor process.shutdownGracePeriod
          process.server.now id
        some { process.executorStep id stopped.1 with
          draining :=
            if stopped.2 then
              (id, process.server.now + process.shutdownGracePeriod) :: process.draining
            else
              process.draining }
      else
        none
  | .graceElapsed id =>
      if process.draining.any fun entry => entry.1 == id && decide (entry.2 ≤ process.server.now) then
        some (process.executorStep id (process.server.pool.cancelAssigned id))
      else
        none
  | .signal => some { process with signalled := true }
  | .endReady =>
      match process.server.ready with
      | .idle | .fetching _ _ _ =>
          if process.signalled then
            some { process with
              server := { process.server with ready := .idle }
              readyReturned := true }
          else
            none
      | _ => none
  | .endTimeouts =>
      if process.signalled ∧ process.server.timeouts = .fetching none then
        some { process with timeoutsReturned := true }
      else
        none
  | .starts action =>
      if process.server.starts = .idle then
        (process.starts.step process.signalled process.server.now process.shutdownGracePeriod
          process.server.pool.executors.isEmpty process.server.pool.accepted.isEmpty action).map
            fun phase => { process with starts := phase }
      else
        none
  | .events action =>
      if process.server.results = .idle then
        (process.events.step process.signalled process.server.now process.shutdownGracePeriod
          process.server.pool.executors.isEmpty process.server.pool.events.isEmpty action).map
            fun phase => { process with events := phase }
      else
        none
  | .callFails caller =>
      if caller.calling process.server then
        some { process with
          attempts := Function.update process.attempts caller (process.attempts caller + 1)
          log := { process.log with
            resultCalls := process.log.resultCalls ++
              (if caller = .events then process.server.results.call?.toList else []) } }
      else
        none
  | .giveUpResults systemNow =>
      if process.maxAttempts ≤ process.attempts .events then
        (process.server.results.giveUp systemNow).map fun results =>
          { process with
            server := { process.server with results := results }
            attempts := Function.update process.attempts .events 0 }
      else
        none

/-! ## What a step does -/

variable {process after : Process}

theorem maxAttempts_pos (process : Process) : 0 < process.maxAttempts := by
  unfold maxAttempts maxU32 maxShutdownAttempts
  split <;> decide

theorem admits_other {action : Action} (admitted : process.admits action = true) :
    action.ofExecutor = false := by
  cases action with
  | message | checkOffers | disconnect => simp [admits, Action.ofExecutor] at admitted
  | _ => rfl

theorem step_act {action : Action} (done : process.step (.act action) = some after) :
    process.admits action = true ∧ ∃ server, process.server.step action = some server ∧
      after = process.act action server := by
  simp only [step] at done
  split at done
  · rename_i admitted
    obtain ⟨server, taken, rfl⟩ := Option.map_eq_some_iff.mp done
    exact ⟨admitted, server, taken, rfl⟩
  · cases done

theorem step_checkOffers {id : ExecutorId} (done : process.step (.checkOffers id) = some after) :
    after = process.executorStep id
      (process.server.pool.withdrawOffers id (some process.server.now) process.server.now) := by
  simp only [step] at done
  split at done
  · cases done
  · cases done
    rfl

theorem step_shutdownExecutor {id : ExecutorId}
    (done : process.step (.shutdownExecutor id) = some after) :
    ∃ draining, after = { process.executorStep id (process.server.pool.shutdownExecutor
      process.shutdownGracePeriod process.server.now id).1 with draining := draining } := by
  simp only [step] at done
  split at done
  · cases done
    exact ⟨_, rfl⟩
  · cases done

theorem step_graceElapsed {id : ExecutorId}
    (done : process.step (.graceElapsed id) = some after) :
    after = process.executorStep id (process.server.pool.cancelAssigned id) := by
  simp only [step] at done
  split at done
  · cases done
    rfl
  · cases done

theorem step_endReady (done : process.step .endReady = some after) :
    after = { process with
      server := { process.server with ready := .idle }
      readyReturned := true } := by
  simp only [step] at done
  split at done
  · split at done
    · cases done
      rfl
    · cases done
  · split at done
    · cases done
      rfl
    · cases done
  · cases done

theorem step_endTimeouts (done : process.step .endTimeouts = some after) :
    after = { process with timeoutsReturned := true } := by
  simp only [step] at done
  split at done
  · cases done
    rfl
  · cases done

theorem step_starts {action : LoopAction} (done : process.step (.starts action) = some after) :
    process.server.starts = .idle ∧ ∃ phase, process.starts.step process.signalled
        process.server.now process.shutdownGracePeriod process.server.pool.executors.isEmpty
        process.server.pool.accepted.isEmpty action = some phase ∧
      after = { process with starts := phase } := by
  simp only [step] at done
  split at done
  · rename_i idle
    obtain ⟨phase, taken, rfl⟩ := Option.map_eq_some_iff.mp done
    exact ⟨idle, phase, taken, rfl⟩
  · cases done

theorem step_events {action : LoopAction} (done : process.step (.events action) = some after) :
    process.server.results = .idle ∧ ∃ phase, process.events.step process.signalled
        process.server.now process.shutdownGracePeriod process.server.pool.executors.isEmpty
        process.server.pool.events.isEmpty action = some phase ∧
      after = { process with events := phase } := by
  simp only [step] at done
  split at done
  · rename_i idle
    obtain ⟨phase, taken, rfl⟩ := Option.map_eq_some_iff.mp done
    exact ⟨idle, phase, taken, rfl⟩
  · cases done

/-- The phases of the loops are all that changes, no batch is offered anymore. -/
theorem step_phase {action : ProcessAction} (own : action.ofPhase = true)
    (done : process.step action = some after) :
    ∃ ready signalled readyReturned timeoutsReturned starts events,
      (ready = process.server.ready ∨ ready = .idle) ∧
      (process.signalled = true → signalled = true) ∧
      after = { process with
        server := { process.server with ready := ready }
        signalled := signalled
        readyReturned := readyReturned
        timeoutsReturned := timeoutsReturned
        starts := starts
        events := events } := by
  cases action with
  | signal =>
      cases done
      exact ⟨_, _, _, _, _, _, .inl rfl, fun _ => rfl, rfl⟩
  | endReady => exact ⟨_, _, _, _, _, _, .inr rfl, fun signalled => signalled, step_endReady done⟩
  | endTimeouts =>
      exact ⟨_, _, _, _, _, _, .inl rfl, fun signalled => signalled, step_endTimeouts done⟩
  | starts action =>
      obtain ⟨_, phase, _, rfl⟩ := step_starts done
      exact ⟨_, _, _, _, _, _, .inl rfl, fun signalled => signalled, rfl⟩
  | events action =>
      obtain ⟨_, phase, _, rfl⟩ := step_events done
      exact ⟨_, _, _, _, _, _, .inl rfl, fun signalled => signalled, rfl⟩
  | act | message | checkOffers | disconnect | shutdownExecutor | graceElapsed | callFails
  | giveUpResults => cases own

theorem step_callFails {caller : Caller} (done : process.step (.callFails caller) = some after) :
    caller.calling process.server = true ∧ after = { process with
      attempts := Function.update process.attempts caller (process.attempts caller + 1)
      log := { process.log with
        resultCalls := process.log.resultCalls ++
          (if caller = .events then process.server.results.call?.toList else []) } } := by
  simp only [step] at done
  split at done
  · rename_i calling
    cases done
    exact ⟨calling, rfl⟩
  · cases done

theorem step_giveUpResults {systemNow : Nat → Time}
    (done : process.step (.giveUpResults systemNow) = some after) :
    process.maxAttempts ≤ process.attempts .events ∧
      ∃ results, process.server.results.giveUp systemNow = some results ∧
        after = { process with
          server := { process.server with results := results }
          attempts := Function.update process.attempts .events 0 } := by
  simp only [step] at done
  split at done
  · rename_i enough
    obtain ⟨results, given, rfl⟩ := Option.map_eq_some_iff.mp done
    exact ⟨enough, results, given, rfl⟩
  · cases done

end Process

end Ora.Server
