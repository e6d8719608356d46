import Ora.Server.ExecutorLoop

/-!
# Shutdown drains the channels

When the loops of starts and events return after the signal, everything that
was sent to them was received and passed to the backend, and nothing is sent
afterwards: they look at their channels once there are no executors.
-/

namespace Ora.Server

open Ora.Backend
open Ora.Library

theorem ExecutorPool.cancelExecutionIds_channels (pool : ExecutorPool) (ids : List ExecutionId) :
    (pool.cancelExecutionIds ids).events = pool.events ∧
      (pool.cancelExecutionIds ids).accepted = pool.accepted := by
  obtain ⟨_, hands, _⟩ := pool.cancelExecutionIds_hands ids 0
  obtain ⟨_, effect⟩ := pool.cancelExecutionIds_releases ids
  exact ⟨hands.events.trans (List.append_nil _), effect.accepted⟩

namespace ServerState

variable {server after : ServerState} {action : Action}

theorem tryOffer_channels (pool : ExecutorPool) (now : Instant) (systemNow : Time)
    (pick : ExecutionId → Nat) (batch : List ReadyExecution) (fetchedAt : Instant) :
    (pool.tryOffer now systemNow pick batch fetchedAt).1.events = pool.events ∧
      ∃ accepted, (pool.tryOffer now systemNow pick batch fetchedAt).1.accepted =
        pool.accepted ++ accepted := by
  unfold ExecutorPool.tryOffer
  split
  · exact ⟨rfl, [], (List.append_nil _).symm⟩
  refine ExecutorPool.offerAll_induction (P := fun after _ => after.events = pool.events ∧
    ∃ accepted, after.accepted = pool.accepted ++ accepted) now systemNow pick _ ?_ ?_ batch
    ⟨rfl, [], (List.append_nil _).symm⟩
  · exact fun _ _ _ kept => kept
  · rintro before execution rest executor _ ⟨events, accepted, same⟩ _ _
    have sent : ∀ message, (before.send executor message).events = before.events ∧
        (before.send executor message).accepted = before.accepted := fun message => by
      unfold ExecutorPool.send
      split <;> exact ⟨rfl, rfl⟩
    unfold ExecutorPool.offerTo
    dsimp only
    split
    · exact ⟨(sent _).1.trans events, accepted, (sent _).2.trans same⟩
    · refine ⟨(sent _).1.trans events, ?_⟩
      simp only [ExecutorPool.modifyExecutor, ExecutorPool.accept, (sent _).2, same]
      exact ⟨_, List.append_assoc ..⟩

/-- Events and starts are received in the order in which they were sent. -/
theorem step_channels (other : action.ofExecutor = false)
    (taken : server.step action = some after) :
    server.pool.events = action.receives server ++ after.pool.events ∧
      (action.startCalls server).flatten ++ after.pool.accepted =
        server.pool.accepted ++ after.pool.accepted.drop server.pool.accepted.length := by
  have cancels := server.pool.cancelExecutionIds_channels
  rw [step_pool taken]
  cases action with
  | connect => exact ⟨rfl, by simp [Action.startCalls, poolAfter, ExecutorPool.addExecutor,
      ExecutorPool.send]⟩
  | closeOutbound id =>
      exact ⟨rfl, by simp [Action.startCalls, poolAfter, ExecutorPool.closeOutbound,
        ExecutorPool.modifyExecutor]⟩
  | offer systemNow pick =>
      obtain ⟨_, fetchedAt, batch, current, _⟩ := step_offer taken
      obtain ⟨events, accepted, same⟩ := tryOffer_channels server.pool server.now systemNow pick
        batch fetchedAt
      simp [Action.receives, Action.startCalls, poolAfter, current, events, same]
  | takeStarts count =>
      exact ⟨rfl, by simp [Action.startCalls, poolAfter]⟩
  | takeEvents count =>
      exact ⟨(List.take_append_drop ..).symm, by simp [Action.startCalls, poolAfter]⟩
  | recordStarts =>
      obtain ⟨_, _, current, _⟩ := step_recordStarts taken
      simp [Action.receives, Action.startCalls, poolAfter, current,
        ExecutorPool.acceptedExecutionsStarted]
  | forget =>
      obtain ⟨_, current, _⟩ := step_forget taken
      simp [Action.receives, Action.startCalls, poolAfter, current,
        ExecutorPool.acceptedExecutionsNotStarted]
  | message | checkOffers | disconnect => cases other
  | _ => exact ⟨(cancels _).1.symm, by simp [Action.startCalls, poolAfter, (cancels _).2]⟩

end ServerState

namespace Process

variable {process : Process}

/-- Everything that was sent was received or is still in its channel. -/
structure Channels (process : Process) : Prop where
  events : process.log.sent.map Prod.snd = process.log.received ++ process.server.pool.events
  accepted : process.log.accepted =
    process.log.startCalls.flatten ++ process.server.pool.accepted

namespace Channels

theorem initial (shutdownGracePeriod : Duration) : Channels (.initial shutdownGracePeriod) :=
  ⟨rfl, rfl⟩

theorem executorStep (channels : process.Channels) {pool : ExecutorPool}
    (steps : ExecutorPool.LoopSteps process.server.pool pool) (id : ExecutorId) :
    (process.executorStep id pool).Channels := by
  obtain ⟨⟨events, sent⟩, accepted, started⟩ := steps.channels
  refine ⟨?_, ?_⟩
  · simp [Process.executorStep, channels.events, sent]
  · simp [Process.executorStep, channels.accepted, started]

theorem act (channels : process.Channels) {action : Action} {server : ServerState}
    (other : action.ofExecutor = false) (taken : process.server.step action = some server) :
    (process.act action server).Channels := by
  obtain ⟨events, accepted⟩ := ServerState.step_channels other taken
  refine ⟨?_, ?_⟩
  · simp only [Process.act, Log.record, channels.events, List.append_assoc]
    rw [← events]
  · simp only [Process.act, Log.record, channels.accepted, List.append_assoc,
      List.flatten_append]
    rw [accepted]

theorem step (channels : process.Channels) {action : ProcessAction} {after : Process}
    (done : process.step action = some after) : after.Channels := by
  cases action with
  | act action =>
      obtain ⟨admitted, server, taken, rfl⟩ := step_act done
      exact channels.act (admits_other admitted) taken
  | message | checkOffers | disconnect | shutdownExecutor | graceElapsed =>
      obtain ⟨id, _, _, steps, rfl⟩ := step_executor rfl done
      have stepped := channels.executorStep steps id
      exact ⟨stepped.events, stepped.accepted⟩
  | signal | endReady | endTimeouts | starts | events =>
      obtain ⟨_, _, _, _, _, _, _, _, rfl⟩ := step_phase rfl done
      exact ⟨channels.events, channels.accepted⟩
  | callFails caller =>
      obtain ⟨_, rfl⟩ := step_callFails done
      exact ⟨channels.events, channels.accepted⟩
  | giveUpResults systemNow =>
      obtain ⟨_, results, _, rfl⟩ := step_giveUpResults done
      exact ⟨channels.events, channels.accepted⟩

end Channels

end Process

namespace ResultCall

def succeeded : ResultCall → List SucceededExecution
  | .executionsSucceeded executions => executions
  | _ => []

def failed : ResultCall → List FailedExecution
  | .executionsFailed executions => executions
  | .executionsRetried executions => executions.map RetriedExecution.failedExecution
  | _ => []

end ResultCall

def Log.succeeded (log : Log) : List SucceededExecution :=
  log.resultCalls.flatMap ResultCall.succeeded

def Log.failed (log : Log) : List FailedExecution :=
  log.resultCalls.flatMap ResultCall.failed

def RetryCall.unpassed : RetryCall → List FailedExecution
  | .failing failedExecutions retriedExecutions =>
      failedExecutions ++ retriedExecutions.map RetriedExecution.failedExecution
  | .retrying retriedExecutions => retriedExecutions.map RetriedExecution.failedExecution

/-- The results for which no call was made yet, or is being made. -/
def EventsLoop.unpassed : EventsLoop → List SucceededExecution × List FailedExecution
  | .idle => ([], [])
  | .waiting _ succeededExecutions maybeRetryExecutions
  | .succeeding succeededExecutions maybeRetryExecutions =>
      (succeededExecutions, maybeRetryExecutions.map MaybeRetryExecution.execution)
  | .retrying call => ([], call.unpassed)

/-- What the backend is told about an event.  The executions that a disconnected
executor was assigned fail at the time the loop reads its clock. -/
def PassedOn (invalidJson : String → Option String) (succeeded : List SucceededExecution)
    (failed : List FailedExecution) : ExecutorEvent → Prop
  | .executionSucceeded execution timestamp outputPayloadJson =>
      match invalidJson outputPayloadJson with
      | none => ⟨execution.executionId, timestamp, outputPayloadJson⟩ ∈ succeeded
      | some error =>
          ⟨execution.executionId, execution.jobId, timestamp,
            "invalid output returned by the executor: " ++ error⟩ ∈ failed
  | .executionFailed execution timestamp failureReason =>
      ⟨execution.executionId, execution.jobId, timestamp, failureReason⟩ ∈ failed
  | .executorDisconnected executor =>
      ∀ execution ∈ executor.assignedExecutions, ∃ failedAt,
        ⟨execution.executionId, execution.jobId, failedAt, "executor disconnected"⟩ ∈ failed

/-- The outputs are checked by `invalidJson`, which returns what is wrong with one. -/
def Action.validatesBy (invalidJson : String → Option String) : Action → Prop
  | .takeEvents _ _ checks => checks = invalidJson
  | _ => True

def ProcessAction.validatesBy (invalidJson : String → Option String) : ProcessAction → Prop
  | .act action => action.validatesBy invalidJson
  | _ => True

section Passing

variable {results after : EventsLoop} {calls : List ResultCall}

/-- The results are passed by the calls, or still to be passed. -/
structure EventsLoop.Covers (results : EventsLoop) (calls : List ResultCall) (after : EventsLoop) :
    Prop where
  succeeded : ∀ execution ∈ results.unpassed.1,
    execution ∈ calls.flatMap ResultCall.succeeded ++ after.unpassed.1
  failed : ∀ execution ∈ results.unpassed.2,
    execution ∈ calls.flatMap ResultCall.failed ++ after.unpassed.2

theorem EventsLoop.Covers.refl (results : EventsLoop) (calls : List ResultCall) :
    results.Covers calls results :=
  ⟨fun _ member => List.mem_append_right _ member, fun _ member => List.mem_append_right _ member⟩

theorem retryExecutions_unpassed (systemNow : Nat → Time) (executions : List MaybeRetryExecution) :
    ∀ execution ∈ executions.map MaybeRetryExecution.execution,
      execution ∈ (retryExecutions systemNow executions).unpassed := by
  intro execution member
  obtain ⟨entry, present, rfl⟩ := List.mem_map.mp member
  rw [retryExecutions, RetryCall.unpassed, List.mem_append]
  cases retries : entry.retries with
  | false =>
      exact .inl (List.mem_map_of_mem (List.mem_filter.mpr ⟨present, by simp [retries]⟩))
  | true =>
      obtain ⟨k, inside, same⟩ := List.mem_iff_getElem.mp (List.mem_filter.mpr ⟨present, retries⟩)
      exact .inr (List.mem_map.mpr ⟨_, List.mem_mapIdx.mpr ⟨k, inside, rfl⟩, by rw [same]; rfl⟩)

/-- What a call does not pass is left for the next one. -/
theorem EventsLoop.giveUp_covers {systemNow : Nat → Time} {call : ResultCall}
    (making : results.call? = some call) (given : results.giveUp systemNow = some after) :
    results.Covers [call] after := by
  cases results with
  | idle => cases making
  | waiting => cases making
  | succeeding succeededExecutions maybeRetryExecutions =>
      cases making
      cases given
      refine ⟨fun execution member => by simpa [unpassed, ResultCall.succeeded] using member, ?_⟩
      intro execution member
      exact List.mem_append_right _ (retryExecutions_unpassed systemNow _ execution member)
  | retrying retry =>
      cases making
      cases given
      refine ⟨by simp [unpassed], ?_⟩
      cases retry with
      | failing failedExecutions retriedExecutions =>
          intro execution member
          simpa [unpassed, RetryCall.unpassed, RetryCall.resultCall, RetryCall.rest,
            ServerState.afterCommit, ResultCall.failed] using member
      | retrying retriedExecutions =>
          intro execution member
          simpa [unpassed, RetryCall.unpassed, RetryCall.resultCall, RetryCall.rest,
            ServerState.afterCommit, ResultCall.failed] using member

end Passing

theorem PassedOn.mono {invalidJson : String → Option String}
    {succeeded more : List SucceededExecution} {failed others : List FailedExecution}
    {event : ExecutorEvent} (passed : PassedOn invalidJson succeeded failed event)
    (first : ∀ execution ∈ succeeded, execution ∈ more)
    (second : ∀ execution ∈ failed, execution ∈ others) :
    PassedOn invalidJson more others event := by
  cases event with
  | executionSucceeded execution timestamp outputPayloadJson =>
      rw [PassedOn] at passed ⊢
      split at passed
      · exact first _ passed
      · exact second _ passed
  | executionFailed => exact second _ passed
  | executorDisconnected executor =>
      intro execution assigned
      obtain ⟨failedAt, told⟩ := passed execution assigned
      exact ⟨failedAt, second _ told⟩

/-- The loop makes of an event what the backend has to be told. -/
theorem eventResults_passedOn (systemNow : Nat → Time) (invalidJson : String → Option String)
    (event : ExecutorEvent) :
    PassedOn invalidJson (eventResults systemNow invalidJson event).1
      ((eventResults systemNow invalidJson event).2.map MaybeRetryExecution.execution) event := by
  cases event with
  | executionSucceeded execution timestamp outputPayloadJson =>
      rw [PassedOn, eventResults]
      cases invalidJson outputPayloadJson with
      | none => exact List.mem_singleton.mpr rfl
      | some error => exact List.mem_singleton.mpr rfl
  | executionFailed => exact List.mem_singleton.mpr rfl
  | executorDisconnected executor =>
      intro execution assigned
      obtain ⟨k, inside, rfl⟩ := List.mem_iff_getElem.mp assigned
      exact ⟨systemNow k, List.mem_map.mpr ⟨_, List.mem_mapIdx.mpr ⟨k, inside, rfl⟩, rfl⟩⟩

/-- The results of taken events are in the loop. -/
theorem takeEvents_passedOn (events : List ExecutorEvent) (deadline : Instant)
    (systemNow : Nat → Nat → Time) (invalidJson : String → Option String) {event : ExecutorEvent}
    (taken : event ∈ events) :
    let results := events.mapIdx fun k => eventResults (systemNow k) invalidJson
    let waiting := EventsLoop.waiting deadline (results.flatMap Prod.fst) (results.flatMap Prod.snd)
    PassedOn invalidJson waiting.unpassed.1 waiting.unpassed.2 event := by
  intro results waiting
  obtain ⟨k, inside, rfl⟩ := List.mem_iff_getElem.mp taken
  have present : eventResults (systemNow k) invalidJson events[k] ∈ results :=
    List.mem_mapIdx.mpr ⟨k, inside, rfl⟩
  refine (eventResults_passedOn (systemNow k) invalidJson _).mono (fun execution member => ?_)
    (fun execution member => ?_)
  · exact List.mem_flatMap.mpr ⟨_, present, member⟩
  · obtain ⟨result, inside, same⟩ := List.mem_map.mp member
    exact List.mem_map.mpr ⟨result, List.mem_flatMap.mpr ⟨_, present, inside⟩, same⟩

namespace Process

variable {invalidJson : String → Option String} {process : Process}

/-- A result that was received is passed by a call, or still in the loop.  A call
is given up only after it was made. -/
structure Passing (invalidJson : String → Option String) (process : Process) : Prop where
  passed : ∀ event ∈ process.log.received,
    PassedOn invalidJson (process.log.succeeded ++ process.server.results.unpassed.1)
      (process.log.failed ++ process.server.results.unpassed.2) event
  made : ∀ call, process.server.results.call? = some call → process.attempts .events ≠ 0 →
    call ∈ process.log.resultCalls
  fresh : process.server.results.call? = none → process.attempts .events = 0

namespace Passing

theorem initial (shutdownGracePeriod : Duration) : Passing invalidJson (.initial shutdownGracePeriod) :=
  ⟨by simp [Process.initial], fun _ making => (by cases making), fun _ => rfl⟩

/-- The loop goes on with what the calls did not pass. -/
theorem covers (passing : process.Passing invalidJson) {calls : List ResultCall} {after : Process}
    (covers : process.server.results.Covers calls after.server.results)
    (kept : ∀ call ∈ process.log.resultCalls ++ calls, call ∈ after.log.resultCalls) :
    ∀ event ∈ process.log.received,
      PassedOn invalidJson (after.log.succeeded ++ after.server.results.unpassed.1)
        (after.log.failed ++ after.server.results.unpassed.2) event := by
  intro event member
  have sub : ∀ {β : Type} (view : ResultCall → List β) (entry : β),
      entry ∈ process.log.resultCalls.flatMap view ∨ entry ∈ calls.flatMap view →
        entry ∈ after.log.resultCalls.flatMap view := by
    intro β view entry either
    rw [← List.mem_append, ← List.flatMap_append] at either
    obtain ⟨call, present, inside⟩ := List.mem_flatMap.mp either
    exact List.mem_flatMap.mpr ⟨call, kept call present, inside⟩
  refine (passing.passed event member).mono ?_ ?_
  · intro execution either
    rcases List.mem_append.mp either with before | left
    · exact List.mem_append_left _ (sub _ execution (.inl before))
    · rcases List.mem_append.mp (covers.succeeded execution left) with now | later
      · exact List.mem_append_left _ (sub _ execution (.inr now))
      · exact List.mem_append_right _ later
  · intro execution either
    rcases List.mem_append.mp either with before | left
    · exact List.mem_append_left _ (sub _ execution (.inl before))
    · rcases List.mem_append.mp (covers.failed execution left) with now | later
      · exact List.mem_append_left _ (sub _ execution (.inr now))
      · exact List.mem_append_right _ later

/-- A call is made, and made again unless it is acknowledged. -/
theorem commits (passing : process.Passing invalidJson) {action : Action} {server : ServerState}
    {call : ResultCall} {acknowledged : Bool} (systemNow : Nat → Time)
    (making : process.server.results.call? = some call)
    (commits : action.call? = some (.events, acknowledged))
    (calls : action.resultCalls process.server = process.server.results.call?.toList)
    (receives : action.receives process.server = [])
    (results : some server.results = if acknowledged then
      process.server.results.giveUp systemNow else some process.server.results) :
    (process.act action server).Passing invalidJson := by
  have log : (process.act action server).log.resultCalls = process.log.resultCalls ++ [call] := by
    simp [Process.act, Log.record, calls, making]
  have received : (process.act action server).log.received = process.log.received := by
    simp [Process.act, Log.record, receives]
  have attempts : (process.act action server).attempts .events =
      if acknowledged then 0 else process.attempts .events + 1 := by
    simp [Process.act, commits]
  cases acknowledged with
  | true =>
      have covers := EventsLoop.giveUp_covers making results.symm
      refine ⟨?_, ?_, fun _ => attempts⟩
      · rw [received]
        exact passing.covers covers fun call member => by rw [log]; exact member
      · exact fun _ _ again => absurd attempts again
  | false =>
      have same : server.results = process.server.results := Option.some.inj results
      have covers : process.server.results.Covers [call] server.results := by
        rw [same]
        exact .refl _ [call]
      refine ⟨?_, ?_, ?_⟩
      · rw [received]
        exact passing.covers covers fun call member => by rw [log]; exact member
      · intro other again _
        change server.results.call? = some other at again
        rw [same, making] at again
        cases again
        rw [log]
        exact List.mem_append_right _ (List.mem_singleton.mpr rfl)
      · intro none
        change server.results.call? = Option.none at none
        rw [same, making] at none
        cases none

/-- The loop of events is not changed. -/
theorem keep (passing : process.Passing invalidJson) {after : Process}
    (results : after.server.results = process.server.results)
    (attempts : after.attempts .events = process.attempts .events)
    (received : after.log.received = process.log.received)
    (calls : after.log.resultCalls = process.log.resultCalls) : after.Passing invalidJson where
  passed := by
    rw [received, results, Log.succeeded, Log.failed, calls]
    exact passing.passed
  made := by
    rw [results, attempts, calls]
    exact passing.made
  fresh := by
    rw [results, attempts]
    exact passing.fresh

theorem act (passing : process.Passing invalidJson) {action : Action} {server : ServerState}
    (validates : action.validatesBy invalidJson)
    (taken : process.server.step action = some server) :
    (process.act action server).Passing invalidJson := by
  cases own : action.ofEvents with
  | false =>
      have results := (ServerState.step_loops taken).2.1 own
      cases action with
      | takeEvents | stopWaiting | commitSucceeded | commitResults => cases own
      | _ =>
          refine passing.keep results ?_ (List.append_nil _) (List.append_nil _)
          simp [Process.act, Action.call?]
  | true =>
      cases action with
      | takeEvents count systemNow checks =>
          obtain ⟨idle, rfl⟩ := ServerState.step_takeEvents taken
          cases validates
          refine ⟨fun event member => ?_, fun _ making => (by cases making), fun _ => ?_⟩
          · change event ∈ process.log.received ++ process.server.pool.events.take count at member
            rcases List.mem_append.mp member with old | new
            · have covers : process.server.results.Covers []
                  (process.server.takeEvents count systemNow invalidJson).results := by
                rw [idle]
                exact ⟨by simp [EventsLoop.unpassed], by simp [EventsLoop.unpassed]⟩
              exact passing.covers covers
                (fun call present => present) event old
            · refine (takeEvents_passedOn _ (process.server.now + startWaitTimeout) systemNow
                invalidJson new).mono ?_ ?_
              · exact fun _ inside => List.mem_append_right _ inside
              · exact fun _ inside => List.mem_append_right _ inside
          · exact passing.fresh (by rw [idle]; rfl)
      | stopWaiting =>
          obtain ⟨_, succeeded, maybeRetry, waiting, rfl⟩ := ServerState.step_stopWaiting taken
          have none : process.attempts .events = 0 := passing.fresh (by rw [waiting]; rfl)
          refine ⟨fun event member => ?_, fun _ _ again => absurd none again, fun _ => none⟩
          have covers : process.server.results.Covers []
              (.succeeding succeeded maybeRetry) := by
            rw [waiting]
            exact ⟨fun _ inside => List.mem_append_right _ inside,
              fun _ inside => List.mem_append_right _ inside⟩
          refine passing.covers covers (fun call present => present) event ?_
          simpa [Process.act, Log.record, Action.receives] using member
      | commitSucceeded systemNow pick acknowledged =>
          obtain ⟨_, _, current, rfl⟩ := ServerState.step_commitSucceeded taken
          refine passing.commits systemNow (by rw [current]; rfl) rfl rfl rfl ?_
          rw [current]
          cases acknowledged <;> rfl
      | commitResults now pick acknowledged =>
          obtain ⟨call, _, current, _, rfl⟩ := ServerState.step_commitResults taken
          refine passing.commits 0 (by rw [current]; rfl) rfl rfl rfl ?_
          rw [current]
          cases acknowledged <;> rfl
      | _ => cases own

theorem step (passing : process.Passing invalidJson) {action : ProcessAction} {after : Process}
    (validates : action.validatesBy invalidJson) (done : process.step action = some after) : after.Passing invalidJson := by
  cases action with
  | act action =>
      obtain ⟨_, server, taken, rfl⟩ := step_act done
      exact passing.act validates taken
  | message | checkOffers | disconnect | shutdownExecutor | graceElapsed =>
      obtain ⟨id, _, _, _, rfl⟩ := step_executor rfl done
      exact passing.keep rfl rfl rfl rfl
  | signal | endReady | endTimeouts | starts | events =>
      obtain ⟨_, _, _, _, _, _, _, _, rfl⟩ := step_phase rfl done
      exact passing.keep rfl rfl rfl rfl
  | callFails caller =>
      obtain ⟨calling, rfl⟩ := step_callFails done
      by_cases own : caller = .events
      · subst own
        refine ⟨passing.covers (.refl _ _) fun call present => present, fun call making _ => ?_,
          fun none => ?_⟩
        · change process.server.results.call? = some call at making
          simp [making]
        · change process.server.results.call? = Option.none at none
          rw [Caller.calling, none] at calling
          cases calling
      · refine passing.keep rfl ?_ rfl ?_
        · simp [Function.update_of_ne (Ne.symm own)]
        · simp [own]
  | giveUpResults systemNow =>
      obtain ⟨enough, results, given, rfl⟩ := step_giveUpResults done
      have tried : process.attempts .events ≠ 0 := by
        have positive := process.maxAttempts_pos
        omega
      cases making : process.server.results.call? with
      | none => exact absurd (passing.fresh making) tried
      | some call =>
          have covers := EventsLoop.giveUp_covers making given
          refine ⟨passing.covers covers fun other present => ?_, fun _ _ again => ?_, fun _ => ?_⟩
          · rcases List.mem_append.mp present with old | same
            · exact old
            · rw [List.mem_singleton.mp same]
              exact passing.made call making tried
          · simp at again
          · simp

end Passing

end Process

namespace ExecutorPool

section Empty

variable {pool : ExecutorPool} (none : pool.executors = []) (id : ExecutorId)
include none

theorem executorMessage_empty (now : Instant) (systemNow : Time) (message : ExecutorMessage) :
    pool.executorMessage now systemNow id message = pool := by
  simp [executorMessage, none]

theorem drainingMessage_empty (now : Instant) (systemNow : Time) (message : ExecutorMessage) :
    pool.drainingMessage now systemNow id message = pool := by
  simp [drainingMessage, none]

theorem withdrawOffers_empty (expiredAt : Option Instant) (now : Instant) :
    pool.withdrawOffers id expiredAt now = pool := by
  simp [withdrawOffers, none]

theorem dropExecutor_empty : pool.dropExecutor id = pool := by
  simp [dropExecutor, none]

theorem cancelAssigned_empty : pool.cancelAssigned id = pool := by
  simp [cancelAssigned, none]

theorem shutdownExecutor_empty (shutdownGracePeriod : Duration) (now : Instant) :
    (pool.shutdownExecutor shutdownGracePeriod now id).1 = pool := by
  rcases pool.shutdownExecutor_cases id shutdownGracePeriod now with same | same | same
  · rw [same, dropExecutor_empty none]
  · rw [same, withdrawOffers_empty none]
  · rw [same, withdrawOffers_empty none, dropExecutor_empty none]

theorem cancelExecutionIds_empty (ids : List ExecutionId) :
    pool.cancelExecutionIds ids = pool := by
  induction ids with
  | nil => rfl
  | cons first rest ih =>
      have unchanged : pool.cancelExecutionId first = pool := by
        simp [cancelExecutionId, none]
      rw [cancelExecutionIds, List.foldl_cons, unchanged]
      exact ih

/-- There is nobody to offer an execution to. -/
theorem tryOffer_empty (now : Instant) (systemNow : Time) (pick : ExecutionId → Nat)
    (batch : List ReadyExecution) (fetchedAt : Instant) :
    (pool.tryOffer now systemNow pick batch fetchedAt).1.executors = [] ∧
      (pool.tryOffer now systemNow pick batch fetchedAt).1.accepted = pool.accepted := by
  unfold tryOffer
  split
  · exact ⟨none, rfl⟩
  · refine offerAll_induction (P := fun after _ => after.executors = [] ∧
      after.accepted = pool.accepted) now systemNow pick _ (fun _ _ _ kept => kept) ?_ batch
      ⟨none, rfl⟩
    rintro before execution rest executor member ⟨empty, _⟩ _ _
    rw [empty] at member
    cases member

end Empty

end ExecutorPool

/-- Without executors nothing is sent by an action, unless one connects. -/
theorem ServerState.step_empty {server after : ServerState} {action : Action}
    (none : server.pool.executors = []) (other : action.ofExecutor = false)
    (connects : action ≠ .connect) (taken : server.step action = some after) :
    after.pool.executors = [] ∧
      after.pool.accepted.drop server.pool.accepted.length = [] := by
  have cancels := ExecutorPool.cancelExecutionIds_empty none
  rw [step_pool taken]
  cases action with
  | connect => exact absurd rfl connects
  | closeOutbound id =>
      simp [poolAfter, ExecutorPool.closeOutbound, ExecutorPool.modifyExecutor, none, modifyFirst]
  | offer systemNow pick =>
      obtain ⟨_, fetchedAt, batch, current, _⟩ := step_offer taken
      obtain ⟨executors, accepted⟩ := ExecutorPool.tryOffer_empty none server.now systemNow pick
        batch fetchedAt
      simp [poolAfter, current, executors, accepted]
  | takeStarts count => simp [poolAfter, none]
  | takeEvents count => simp [poolAfter, none]
  | recordStarts =>
      obtain ⟨_, _, current, _⟩ := step_recordStarts taken
      simp [poolAfter, current, ExecutorPool.acceptedExecutionsStarted, none]
  | forget =>
      obtain ⟨_, current, _⟩ := step_forget taken
      simp [poolAfter, current, ExecutorPool.acceptedExecutionsNotStarted, none]
  | message | checkOffers | disconnect => cases other
  | _ => simp [poolAfter, cancels, none]

namespace LoopPhase

/-- The loop has seen that there are no executors. -/
def sawEmpty : LoopPhase → Bool
  | .poolEmpty _ => true
  | .returned => true
  | _ => false

/-- A loop stops serving after the signal, and returns once it found the pool
and then its channel empty. -/
theorem step_cases {phase after : LoopPhase} {signalled : Bool} {now : Instant}
    {shutdownGracePeriod : Duration} {poolEmpty channelEmpty : Bool} {action : LoopAction}
    (within : action ≠ .deadlineElapsed)
    (taken : phase.step signalled now shutdownGracePeriod poolEmpty channelEmpty action =
      some after) :
    (phase = .serving → signalled = true) ∧
      (after.sawEmpty = true → phase.sawEmpty = true ∨ poolEmpty = true) ∧
      (after = .returned → channelEmpty = true) := by
  cases phase with
  | serving =>
      cases action with
      | noticeSignal =>
          rw [step] at taken
          split at taken
          · rename_i noticed
            cases taken
            exact ⟨fun _ => noticed, by simp [sawEmpty], by simp⟩
          · cases taken
      | _ => cases taken
  | draining deadline =>
      cases action with
      | checkPool =>
          cases taken
          cases poolEmpty with
          | true => exact ⟨by simp, fun _ => .inr rfl, by simp⟩
          | false => exact ⟨by simp, by simp [sawEmpty], by simp⟩
      | deadlineElapsed => exact absurd rfl within
      | _ => cases taken
  | poolEmpty deadline =>
      cases action with
      | checkChannel =>
          cases taken
          cases channelEmpty with
          | true => exact ⟨by simp, fun _ => .inl rfl, fun _ => rfl⟩
          | false => exact ⟨by simp, by simp [sawEmpty], by simp⟩
      | _ => cases taken
  | returned => cases action <;> cases taken

end LoopPhase

namespace Process

variable {process : Process}

/-- No deadline of the two loops elapses, and no executor is added after the
signal. -/
def withinDeadlines (process : Process) : ProcessAction → Bool
  | .act .connect => !process.signalled
  | .starts action => action != .deadlineElapsed
  | .events action => action != .deadlineElapsed
  | _ => true

structure Phases (process : Process) : Prop where
  signalled : process.starts ≠ .serving ∨ process.events ≠ .serving → process.signalled = true
  empty : process.starts.sawEmpty = true ∨ process.events.sawEmpty = true →
    process.server.pool.executors = []
  starts : process.starts = .returned →
    process.server.starts = .idle ∧ process.server.pool.accepted = []
  events : process.events = .returned →
    process.server.results = .idle ∧ process.server.pool.events = []

/-- The server goes on without executors and sends nothing. -/
structure Silent (process after : Process) : Prop where
  signalled : after.signalled = true
  executors : after.server.pool.executors = []
  sent : after.log.sent = process.log.sent
  accepted : after.log.accepted = process.log.accepted
  starts : process.server.pool.accepted = [] → after.server.pool.accepted = []
  events : process.server.pool.events = [] → after.server.pool.events = []

theorem Silent.trans {middle after : Process} (first : process.Silent middle)
    (second : middle.Silent after) : process.Silent after where
  signalled := second.signalled
  executors := second.executors
  sent := second.sent.trans first.sent
  accepted := second.accepted.trans first.accepted
  starts := fun empty => second.starts (first.starts empty)
  events := fun empty => second.events (first.events empty)

namespace Phases

theorem initial (shutdownGracePeriod : Duration) : Phases (.initial shutdownGracePeriod) where
  signalled := by simp [Process.initial]
  empty := by simp [Process.initial, LoopPhase.sawEmpty]
  starts := by simp [Process.initial]
  events := by simp [Process.initial]

end Phases

theorem executorStep_silent {pool : ExecutorPool} (signalled : process.signalled = true)
    (none : process.server.pool.executors = []) (same : pool = process.server.pool)
    (id : ExecutorId) : process.Silent (process.executorStep id pool) := by
  subst same
  exact ⟨signalled, none, by simp [executorStep], by simp [executorStep], fun empty => empty,
    fun empty => empty⟩

/-- Once there are no executors after the signal, nothing is sent anymore. -/
theorem step_silent {action : ProcessAction} {after : Process}
    (signalled : process.signalled = true) (none : process.server.pool.executors = [])
    (within : process.withinDeadlines action = true) (done : process.step action = some after) :
    process.Silent after := by
  cases action with
  | act action =>
      obtain ⟨admitted, server, taken, rfl⟩ := step_act done
      have connects : action ≠ .connect := by
        rintro rfl
        simp [withinDeadlines, signalled] at within
      obtain ⟨executors, accepted⟩ :=
        ServerState.step_empty none (admits_other admitted) connects taken
      obtain ⟨received, taken⟩ := ServerState.step_channels (admits_other admitted) taken
      rw [accepted, List.append_nil] at taken
      refine ⟨signalled, executors, rfl, by simp [act, Log.record, accepted], fun empty => ?_, fun empty => ?_⟩
      · rw [empty] at taken
        exact (List.append_eq_nil_iff.mp taken).2
      · rw [empty] at received
        exact (List.append_eq_nil_iff.mp received.symm).2
  | message id systemNow message =>
      cases done
      refine executorStep_silent signalled none ?_ id
      rw [ExecutorPool.drainingMessage_empty none, ExecutorPool.executorMessage_empty none, ite_self]
  | checkOffers id =>
      rw [step_checkOffers done]
      exact executorStep_silent signalled none (ExecutorPool.withdrawOffers_empty none ..) id
  | disconnect id =>
      cases done
      exact executorStep_silent signalled none (ExecutorPool.dropExecutor_empty none _) id
  | shutdownExecutor id =>
      obtain ⟨draining, rfl⟩ := step_shutdownExecutor done
      have shut := executorStep_silent signalled none (ExecutorPool.shutdownExecutor_empty none id
        process.shutdownGracePeriod process.server.now) id
      exact ⟨signalled, shut.executors, shut.sent, shut.accepted, shut.starts, shut.events⟩
  | graceElapsed id =>
      rw [step_graceElapsed done]
      exact executorStep_silent signalled none (ExecutorPool.cancelAssigned_empty none _) id
  | signal | endReady | endTimeouts | starts | events =>
      obtain ⟨_, _, _, _, _, _, _, stays, rfl⟩ := step_phase rfl done
      exact ⟨stays signalled, none, rfl, rfl, fun empty => empty, fun empty => empty⟩
  | callFails caller =>
      obtain ⟨_, rfl⟩ := step_callFails done
      exact ⟨signalled, none, rfl, rfl, fun empty => empty, fun empty => empty⟩
  | giveUpResults systemNow =>
      obtain ⟨_, results, _, rfl⟩ := step_giveUpResults done
      exact ⟨signalled, none, rfl, rfl, fun empty => empty, fun empty => empty⟩

/-- A loop that does not receive stays idle. -/
theorem step_idle {action : ProcessAction} {after : Process}
    (done : process.step action = some after) :
    (process.starts.receives = false → process.server.starts = .idle →
        after.server.starts = .idle) ∧
      (process.events.receives = false → process.server.results = .idle →
        after.server.results = .idle) := by
  cases action with
  | act action =>
      obtain ⟨admitted, server, taken, rfl⟩ := step_act done
      obtain ⟨starts, results, _⟩ := ServerState.step_loops taken
      refine ⟨fun closed idle => ?_, fun closed idle => ?_⟩
      · cases own : action.ofStarts with
        | false => exact (starts own).trans idle
        | true =>
            cases action with
            | takeStarts count => cases closed.symm.trans admitted
            | commitStarts | recordStarts | cancelNotStarted | giveUp | cancelGivenUp | forget =>
                simp [ServerState.step, idle] at taken
            | _ => cases own
      · cases own : action.ofEvents with
        | false => exact (results own).trans idle
        | true =>
            cases action with
            | takeEvents count => cases closed.symm.trans admitted
            | stopWaiting | commitSucceeded | commitResults =>
                simp [ServerState.step, idle] at taken
            | _ => cases own
  | message | checkOffers | disconnect | shutdownExecutor | graceElapsed =>
      obtain ⟨_, _, _, _, rfl⟩ := step_executor rfl done
      exact ⟨fun _ idle => idle, fun _ idle => idle⟩
  | signal | endReady | endTimeouts | starts | events =>
      obtain ⟨_, _, _, _, _, _, _, _, rfl⟩ := step_phase rfl done
      exact ⟨fun _ idle => idle, fun _ idle => idle⟩
  | callFails caller =>
      obtain ⟨_, rfl⟩ := step_callFails done
      exact ⟨fun _ idle => idle, fun _ idle => idle⟩
  | giveUpResults systemNow =>
      obtain ⟨_, results, given, rfl⟩ := step_giveUpResults done
      refine ⟨fun _ idle => idle, fun _ idle => ?_⟩
      rw [idle] at given
      cases given

namespace Phases

variable {action : ProcessAction} {after : Process}

theorem signalled_of_sawEmpty (phases : process.Phases)
    (saw : process.starts.sawEmpty = true ∨ process.events.sawEmpty = true) :
    process.signalled = true := by
  refine phases.signalled (saw.imp ?_ ?_)
  · intro empty serving
    rw [serving] at empty
    cases empty
  · intro empty serving
    rw [serving] at empty
    cases empty

/-- An action that does not change the phases. -/
theorem keep (phases : process.Phases) (within : process.withinDeadlines action = true)
    (done : process.step action = some after) (starts : after.starts = process.starts)
    (events : after.events = process.events)
    (signalled : process.signalled = true → after.signalled = true) : after.Phases := by
  have idle := step_idle done
  have silent : process.starts.sawEmpty = true ∨ process.events.sawEmpty = true →
      process.Silent after := fun saw =>
    step_silent (phases.signalled_of_sawEmpty saw) (phases.empty saw) within done
  refine ⟨?_, ?_, ?_, ?_⟩
  · rw [starts, events]
    exact fun serving => signalled (phases.signalled serving)
  · rw [starts, events]
    exact fun saw => (silent saw).executors
  · rw [starts]
    intro returned
    obtain ⟨waits, empty⟩ := phases.starts returned
    exact ⟨idle.1 (by rw [returned]; rfl) waits,
      (silent (.inl (by rw [returned]; rfl))).starts empty⟩
  · rw [events]
    intro returned
    obtain ⟨waits, empty⟩ := phases.events returned
    exact ⟨idle.2 (by rw [returned]; rfl) waits,
      (silent (.inr (by rw [returned]; rfl))).events empty⟩

theorem step (phases : process.Phases) (within : process.withinDeadlines action = true)
    (done : process.step action = some after) : after.Phases := by
  cases action with
  | starts action =>
      obtain ⟨idle, phase, taken, rfl⟩ := step_starts done
      obtain ⟨noticed, saw, returned⟩ :=
        LoopPhase.step_cases (by simpa [withinDeadlines] using within) taken
      have signalled : process.signalled = true := by
        cases current : process.starts with
        | serving => exact noticed current
        | _ => exact phases.signalled (.inl (by rw [current]; simp))
      refine ⟨fun _ => signalled, ?_, fun done => ⟨idle, by simpa using returned done⟩,
        phases.events⟩
      rintro (now | before)
      · rcases saw now with before | none
        · exact phases.empty (.inl before)
        · simpa using none
      · exact phases.empty (.inr before)
  | events action =>
      obtain ⟨idle, phase, taken, rfl⟩ := step_events done
      obtain ⟨noticed, saw, returned⟩ :=
        LoopPhase.step_cases (by simpa [withinDeadlines] using within) taken
      have signalled : process.signalled = true := by
        cases current : process.events with
        | serving => exact noticed current
        | _ => exact phases.signalled (.inr (by rw [current]; simp))
      refine ⟨fun _ => signalled, ?_, phases.starts, fun done => ⟨idle, by simpa using returned done⟩⟩
      rintro (before | now)
      · exact phases.empty (.inl before)
      · rcases saw now with before | none
        · exact phases.empty (.inr before)
        · simpa using none
  | act action =>
      obtain ⟨_, server, _, rfl⟩ := step_act done
      exact phases.keep within done rfl rfl fun signalled => signalled
  | message | checkOffers | disconnect | shutdownExecutor | graceElapsed =>
      obtain ⟨_, _, _, _, rfl⟩ := step_executor rfl done
      exact phases.keep within done rfl rfl fun signalled => signalled
  | signal =>
      cases done
      exact phases.keep within rfl rfl rfl fun _ => rfl
  | endReady =>
      have same := step_endReady done
      subst same
      exact phases.keep within done rfl rfl fun signalled => signalled
  | endTimeouts =>
      have same := step_endTimeouts done
      subst same
      exact phases.keep within done rfl rfl fun signalled => signalled
  | callFails caller =>
      obtain ⟨_, rfl⟩ := step_callFails done
      exact phases.keep within done rfl rfl fun signalled => signalled
  | giveUpResults systemNow =>
      obtain ⟨_, results, _, rfl⟩ := step_giveUpResults done
      exact phases.keep within done rfl rfl fun signalled => signalled

end Phases

end Process

/-- Every event was received and its results were passed to the backend. -/
structure Process.EventsDrained (invalidJson : String → Option String) (process : Process) :
    Prop where
  received : process.log.received = process.log.sent.map Prod.snd
  passed : ∀ entry ∈ process.log.sent,
    PassedOn invalidJson process.log.succeeded process.log.failed entry.2

/-- Every accepted execution was passed to `start_executions`, which is done. -/
structure Process.StartsDrained (process : Process) : Prop where
  passed : process.log.startCalls.flatten = process.log.accepted
  done : process.server.starts = .idle

section Runs

variable {invalidJson : String → Option String} {shutdownGracePeriod : Duration}
  {process later : Process}

/-- When the loops return after the signal their channels are drained, and stay
so: whatever happens later, nothing more is sent to them. -/
theorem shutdown_drains
    (run : Reaches Process.step (fun process action =>
        process.withinDeadlines action = true ∧ action.validatesBy invalidJson)
      (.initial shutdownGracePeriod) process)
    (continued : Reaches Process.step (fun process action => process.withinDeadlines action = true)
      process later) :
    (process.events = .returned → process.EventsDrained invalidJson ∧ later.log.sent = process.log.sent) ∧
      (process.starts = .returned →
        process.StartsDrained ∧ later.log.accepted = process.log.accepted) := by
  have channels := run.invariant (fun _ _ _ channels _ done => channels.step done)
    (Process.Channels.initial shutdownGracePeriod)
  have passing := run.invariant (fun _ _ _ passing allowed done => passing.step allowed.2 done)
    (Process.Passing.initial shutdownGracePeriod)
  have phases := run.invariant (fun _ _ _ phases allowed done => phases.step allowed.1 done)
    (Process.Phases.initial shutdownGracePeriod)
  have silent : process.starts.sawEmpty = true ∨ process.events.sawEmpty = true →
      later.log.sent = process.log.sent ∧ later.log.accepted = process.log.accepted := by
    intro saw
    have start : process.Silent process :=
      ⟨phases.signalled_of_sawEmpty saw, phases.empty saw, rfl, rfl, fun empty => empty,
        fun empty => empty⟩
    have silent : process.Silent later := continued.invariant
      (fun _ _ _ before within done =>
        before.trans (Process.step_silent before.signalled before.executors within done)) start
    exact ⟨silent.sent, silent.accepted⟩
  refine ⟨fun returned => ?_, fun returned => ?_⟩
  · obtain ⟨idle, empty⟩ := phases.events returned
    have received : process.log.received = process.log.sent.map Prod.snd := by
      rw [channels.events, empty, List.append_nil]
    refine ⟨⟨received, fun entry member => ?_⟩, (silent (.inr (by rw [returned]; rfl))).1⟩
    have passed := passing.passed entry.2 (by rw [received]; exact List.mem_map_of_mem member)
    rw [idle] at passed
    simpa [EventsLoop.unpassed] using passed
  · obtain ⟨idle, empty⟩ := phases.starts returned
    refine ⟨⟨?_, idle⟩, (silent (.inl (by rw [returned]; rfl))).2⟩
    rw [channels.accepted, empty, List.append_nil]

end Runs

/-- An executor is offered the execution `1`, and reports its result after the
signal.  Both loops return, they process what was sent first. -/
def stopped : List ProcessAction :=
  [.act (.addJobs 0 (fun _ => 0) [Postgres.plainJob 2] none), .act .connect,
    .message 0 0 (.capabilities false (some [("type", 1)])),
    .act .startPass, .act .readClock, .act (.fetchReady 0), .act (.offer 0 fun _ => 0),
    .signal, .starts .noticeSignal, .events .noticeSignal, .shutdownExecutor 0,
    .message 0 0 (.executionSucceeded 1 .absent "{}"),
    .act (.takeStarts 1), .act (.commitStarts (fun _ => 0) true), .act .recordStarts,
    .starts .checkPool, .starts .checkChannel,
    .act (.takeEvents 2 (fun _ _ => 0) fun _ => none), .act .stopWaiting,
    .act (.commitSucceeded (fun _ => 0) (fun _ => 0) true), .act (.commitResults 0 (fun _ => 0) true),
    .act (.commitResults 0 (fun _ => 0) true), .events .checkPool, .events .checkChannel]

theorem stopped_validatesBy :
    ∀ action ∈ stopped, action.validatesBy fun _ => none := by
  simp [stopped, ProcessAction.validatesBy, Action.validatesBy]

theorem shutdown_drains_stopped :
    ∃ process, Reaches Process.step (fun process action =>
          process.withinDeadlines action = true ∧ action.validatesBy fun _ => none)
        (.initial 1) process ∧
      process.log.sent.length = 2 ∧ process.EventsDrained (fun _ => none) ∧
      process.StartsDrained := by
  obtain ⟨process, run, checked⟩ := exists_reaches_of_execute_forall Process.step
    (fun process action => process.withinDeadlines action = true) (.initial 1) stopped
    (fun process => process.log.sent.length == 2 && (process.events == .returned &&
      process.starts == .returned)) (by decide) stopped_validatesBy
  simp only [Bool.and_eq_true, beq_iff_eq] at checked
  have drained := shutdown_drains run .refl
  exact ⟨process, run, checked.1, (drained.1 checked.2.1).1, (drained.2 checked.2.2).1⟩

end Ora.Server
