import Ora.Server.ExecutorLoop
import Ora.Server.Zombies

/-!
# Starts are recorded before results

When the loop of events calls the backend for the result of an execution, a call
of `executions_started` for it has returned: what was accepted waits in the
accepted executions until then, and the loop of events waits for it.
-/

namespace Ora.Server

open Ora.Backend
open Ora.Library
open Ora.Postgres (Store Pick Operation Evolves NotPending)

namespace EventsLoop

/-- The executions whose starts are waited for. -/
def waitingIds : EventsLoop → List ExecutionId
  | .waiting _ succeededExecutions maybeRetryExecutions =>
      ServerState.resultIds succeededExecutions maybeRetryExecutions
  | _ => []

/-- The executions that the backend is called for. -/
def calledIds : EventsLoop → List ExecutionId
  | .succeeding succeededExecutions maybeRetryExecutions =>
      ServerState.resultIds succeededExecutions maybeRetryExecutions
  | .retrying call => call.ids
  | _ => []

end EventsLoop

/-- The executions that were found in progress. -/
def TimeoutsLoop.ids : TimeoutsLoop → List ExecutionId
  | .fetching _ => []
  | .checking _ _ unchecked timedOut orphaned =>
      unchecked.map InProgressExecution.executionId ++ (failureIds timedOut ++ failureIds orphaned)
  | .timingOut _ call _ orphaned => call.ids ++ failureIds orphaned
  | .cancelling _ _ orphaned => failureIds orphaned
  | .failingOrphaned _ call => call.ids

def ResultCall.executionIds : ResultCall → List ExecutionId
  | .executionsSucceeded executions => executions.map SucceededExecution.executionId
  | .executionsFailed executions => executions.map FailedExecution.executionId
  | .executionsRetried executions =>
      executions.map fun execution => execution.failedExecution.executionId

theorem EventsLoop.call?_ids {results : EventsLoop} {call : ResultCall}
    (making : results.call? = some call) : ∀ id ∈ call.executionIds, id ∈ results.calledIds := by
  cases results with
  | succeeding succeededExecutions maybeRetryExecutions =>
      cases making
      exact fun id member => List.mem_append_left _ member
  | retrying retry =>
      cases making
      cases retry with
      | failing failedExecutions retriedExecutions =>
          exact fun id member => List.mem_append_left _ member
      | retrying retriedExecutions => exact fun id member => member
  | _ => cases making

/-- Giving up a call leaves others, or none. -/
theorem EventsLoop.giveUp_ids {systemNow : Nat → Time} {results after : EventsLoop}
    (given : results.giveUp systemNow = some after) :
    (∀ id ∈ after.calledIds, id ∈ results.calledIds) ∧ after.waitingIds = [] := by
  cases results with
  | succeeding succeededExecutions maybeRetryExecutions =>
      cases given
      exact ⟨fun id member => List.mem_append_right _
        (RetryCall.retryExecutions_ids systemNow _ id member), rfl⟩
  | retrying call =>
      cases given
      rcases ServerState.afterCommit_cases call true EventsLoop.retrying .idle with
        ⟨next, same, fewer⟩ | same
      · rw [same]
        exact ⟨fewer, rfl⟩
      · rw [same]
        exact ⟨by simp [calledIds], rfl⟩
  | _ => cases given

theorem TimeoutsLoop.giveUp_ids {timeouts after : TimeoutsLoop}
    (given : timeouts.giveUp = some after) : ∀ id ∈ after.ids, id ∈ timeouts.ids := by
  cases timeouts with
  | timingOut last call timedOut orphaned =>
      cases given
      rcases ServerState.afterCommit_cases call true
        (fun call => TimeoutsLoop.timingOut last call timedOut orphaned)
        (.cancelling last timedOut orphaned) with ⟨next, same, fewer⟩ | same
      · rw [same]
        exact fun id member => (List.mem_append.mp member).elim
          (fun named => List.mem_append_left _ (fewer id named)) (List.mem_append_right _)
      · rw [same]
        exact fun id member => List.mem_append_right _ member
  | failingOrphaned last call =>
      cases given
      rcases ServerState.afterCommit_cases call true
        (fun call => TimeoutsLoop.failingOrphaned last call) (.fetching last) with
        ⟨next, same, fewer⟩ | same
      · rw [same]
        exact fewer
      · rw [same]
        simp [ids]
  | _ => cases given

/-- What was accepted waits to be started, or its start was recorded. -/
structure PoolRecord (recorded waiting : List ExecutionId) (pool : ExecutorPool) : Prop where
  remembered : ∀ id, .forgotten id ∉ pool.history
  assigned : ∀ entry ∈ pool.held, entry.2.isAccepted = true →
    entry.2.executionId ∈ acceptedIds pool.history
  named : ∀ id ∈ pool.eventIds ++ waiting, id ∈ acceptedIds pool.history
  accepted : ∀ id ∈ acceptedIds pool.history,
    (id, none) ∈ pool.acceptedExecutions.rows ∨ id ∈ recorded

namespace PoolRecord

variable {recorded waiting : List ExecutionId} {pool after : ExecutorPool}

theorem empty : PoolRecord [] [] .empty where
  remembered := by simp [ExecutorPool.empty]
  assigned := by simp [ExecutorPool.held, ExecutorPool.empty]
  named := by simp [ExecutorPool.eventIds, ExecutorPool.empty]
  accepted := by simp [acceptedIds, acceptances, ExecutorPool.empty]

theorem mono {more fewer : List ExecutionId} (record : PoolRecord recorded waiting pool)
    (grows : ∀ id ∈ recorded, id ∈ more)
    (shrinks : ∀ id ∈ pool.eventIds ++ fewer, id ∈ pool.eventIds ++ waiting) :
    PoolRecord more fewer pool where
  remembered := record.remembered
  assigned := record.assigned
  named id member := record.named id (shrinks id member)
  accepted id member := (record.accepted id member).imp_right (grows id)

theorem releases {removed : List (ExecutorId × ExecutorExecution)}
    (record : PoolRecord recorded waiting pool) (effect : pool.Releases removed after) :
    PoolRecord recorded waiting after := by
  obtain ⟨sent, history, quiet⟩ := effect.history
  obtain ⟨reported, events, known⟩ := effect.events
  obtain ⟨rest, before, _⟩ := effect.queues.kept
  have same : acceptedIds after.history = acceptedIds pool.history := by
    rw [acceptedIds, history, acceptances_append_quiet quiet, acceptedIds]
  refine ⟨?_, ?_, ?_, ?_⟩
  · intro id forgotten
    rw [history, List.mem_append] at forgotten
    rcases forgotten with old | new
    · exact record.remembered id old
    · cases quiet _ new
  · rw [same]
    exact fun entry member => record.assigned entry (effect.held entry member)
  · intro id member
    rw [same]
    rw [ExecutorPool.eventIds, events, List.flatMap_append, List.append_assoc, List.mem_append,
      List.mem_append] at member
    rcases member with old | new | other
    · exact record.named id (List.mem_append_left _ old)
    · obtain ⟨event, present, named⟩ := List.mem_flatMap.mp new
      obtain ⟨execution, reports, rfl⟩ := List.mem_map.mp named
      obtain ⟨accepted, executorId, gone⟩ := known event present execution reports
      exact record.assigned (executorId, execution)
        (before.mem_iff.mpr (List.mem_append_left _ gone)) accepted
    · exact record.named id (List.mem_append_right _ other)
  · rw [same, effect.acceptedExecutions]
    exact record.accepted

theorem accepts {executorId : ExecutorId} {execution : ExecutorExecution}
    (record : PoolRecord recorded waiting pool) (effect : pool.Accepts executorId execution after) :
    PoolRecord recorded waiting after := by
  obtain ⟨rest, before, left⟩ := effect.queues.kept
  have same : acceptedIds after.history =
      acceptedIds pool.history ++ [execution.executionId] := by
    rw [acceptedIds, effect.history, acceptances_append_accepted, List.map_append, acceptedIds,
      List.map_singleton]
  have grows : ∀ id ∈ acceptedIds pool.history, id ∈ acceptedIds after.history :=
    fun id member => same ▸ List.mem_append_left _ member
  refine ⟨?_, ?_, ?_, ?_⟩
  · intro id forgotten
    rw [effect.history, List.mem_append, List.mem_singleton] at forgotten
    rcases forgotten with old | new
    · exact record.remembered id old
    · cases new
  · intro entry member isAccepted
    rcases List.mem_cons.mp (left.mem_iff.mp member) with rfl | other
    · rw [same]
      exact List.mem_append_right _ (List.mem_singleton.mpr rfl)
    · exact grows _ (record.assigned entry (before.mem_iff.mpr (List.mem_cons_of_mem _ other))
        isAccepted)
  · rw [ExecutorPool.eventIds, effect.events]
    exact fun id member => grows id (record.named id member)
  · intro id member
    rw [effect.acceptedExecutions, AcceptedExecutions.mem_insert]
    by_cases new : id = execution.executionId
    · exact .inl (.inl (by rw [new]))
    · rw [same, List.mem_append, List.mem_singleton] at member
      exact (record.accepted id (member.resolve_right new)).imp_left fun waits => .inr ⟨waits, new⟩

theorem offers {executorId : ExecutorId} {execution : ExecutorExecution}
    (record : PoolRecord recorded waiting pool) (effect : pool.Offers executorId execution after) :
    PoolRecord recorded waiting after := by
  obtain ⟨rest, before, left⟩ := effect.queues.kept
  obtain ⟨_, _, history⟩ := effect.history
  have same : acceptedIds after.history = acceptedIds pool.history := by
    rw [acceptedIds, history, acceptances_append_sent, acceptedIds]
  refine ⟨?_, ?_, ?_, ?_⟩
  · intro id forgotten
    rw [history, List.mem_append, List.mem_singleton] at forgotten
    rcases forgotten with old | new
    · exact record.remembered id old
    · cases new
  · intro entry member isAccepted
    rw [same]
    rcases List.mem_cons.mp (left.mem_iff.mp member) with rfl | other
    · rw [effect.offered] at isAccepted
      cases isAccepted
    · exact record.assigned entry (before.mem_iff.mpr other) isAccepted
  · rw [same, ExecutorPool.eventIds, effect.events]
    exact record.named
  · rw [same, effect.acceptedExecutions]
    exact record.accepted

theorem loopSteps (record : PoolRecord recorded waiting pool)
    (steps : ExecutorPool.LoopSteps pool after) : PoolRecord recorded waiting after := by
  induction steps with
  | refl => exact record
  | tail _ last ih =>
      rcases last with ⟨_, effect⟩ | ⟨_, _, effect⟩
      · exact ih.releases effect
      · exact ih.accepts effect

theorem connects (record : PoolRecord recorded waiting pool) (id : ExecutorId) :
    PoolRecord recorded waiting (pool.addExecutor id) := by
  have held : (pool.addExecutor id).held = pool.held := by
    simp [ExecutorPool.held, ExecutorPool.addExecutor, ExecutorPool.send_executors, Executor.held,
      Executor.executions]
  have history : (pool.addExecutor id).history =
      pool.history ++ [.sent id (.properties id)] := rfl
  have same : acceptedIds (pool.addExecutor id).history = acceptedIds pool.history := by
    rw [acceptedIds, history, acceptances_append_sent, acceptedIds]
  refine ⟨?_, ?_, ?_, ?_⟩
  · intro other forgotten
    rw [history, List.mem_append, List.mem_singleton] at forgotten
    rcases forgotten with old | new
    · exact record.remembered other old
    · cases new
  · rw [held, same]
    exact record.assigned
  · rw [same]
    exact record.named
  · rw [same]
    exact record.accepted

/-- Entries of executions that are not started are never purged. -/
theorem retains (record : PoolRecord recorded waiting pool) (fetchedAt : Instant) :
    PoolRecord recorded waiting
      { pool with acceptedExecutions := pool.acceptedExecutions.retain fetchedAt } where
  remembered := record.remembered
  assigned := record.assigned
  named := record.named
  accepted id member := (record.accepted id member).imp_left fun waits =>
    AcceptedExecutions.mem_retain.mpr ⟨waits, by simp⟩

/-- Starts are marked after they were recorded. -/
theorem marks {ids : List ExecutionId} (record : PoolRecord recorded waiting pool)
    (returned : ∀ id ∈ ids, id ∈ recorded) (now : Instant) :
    PoolRecord recorded waiting (pool.acceptedExecutionsStarted ids now) where
  remembered := record.remembered
  assigned := record.assigned
  named := record.named
  accepted id member := by
    by_cases marked : id ∈ ids
    · exact .inr (returned id marked)
    · refine (record.accepted id member).imp_left fun waits => ?_
      have kept := AcceptedExecutions.mem_started_of_mem ids now waits
      rwa [if_neg marked] at kept

/-- Nothing is waited for anymore that is not recorded. -/
theorem recorded_of_waited (record : PoolRecord recorded waiting pool)
    (settled : pool.startPending waiting = false) : ∀ id ∈ waiting, id ∈ recorded := by
  intro id member
  refine (record.accepted id (record.named id (List.mem_append_right _ member))).resolve_left ?_
  intro waits
  rw [ExecutorPool.startPending, List.any_eq_false] at settled
  exact settled _ waits (by simpa using member)

end PoolRecord

/-- The loop of events does not go on while a start is pending. -/
def ServerState.waits (server : ServerState) : Action → Bool
  | .stopWaiting => !server.pool.startPending server.results.waitingIds
  | _ => true

/-- The calls for results are made after `recorded` starts were acknowledged. -/
structure StartRecord (recorded : List ExecutionId) (server : ServerState) : Prop where
  offers : server.offerInvariant
  pool : PoolRecord recorded server.results.waitingIds server.pool
  kept : server.starts.givenUp = false
  started : ∀ executions returned, server.starts = .started executions returned →
    ∀ id ∈ executions.map StartedExecution.executionId, id ∈ recorded
  called : ∀ id ∈ server.results.calledIds, id ∈ recorded
  recorded : ∀ id ∈ recorded, NotPending server.store id
  inProgress : ∀ id ∈ server.timeouts.ids, NotPending server.store id

namespace StartRecord

variable {recorded : List ExecutionId} {server after : ServerState} {action : Action}

theorem initial : StartRecord [] .initial where
  offers := ServerState.offerInvariant_initial
  pool := .empty
  kept := rfl
  started := by simp [ServerState.initial]
  called := by simp [ServerState.initial, EventsLoop.calledIds]
  recorded := by simp
  inProgress := by simp [ServerState.initial, TimeoutsLoop.ids]

theorem loopSteps (record : StartRecord recorded server) {pool : ExecutorPool}
    (steps : ExecutorPool.LoopSteps server.pool pool) :
    StartRecord recorded { server with pool := pool } :=
  { record with
    offers := ServerState.offerInvariant_loopSteps record.offers steps
    pool := record.pool.loopSteps steps }

theorem offersBatch (record : StartRecord recorded server) {ignored : List ExecutionId}
    {fetchedAt : Instant} {batch : List ReadyExecution}
    (current : server.ready = .offering ignored fetchedAt batch) (systemNow : Time)
    (pick : ExecutionId → Nat) : PoolRecord recorded server.results.waitingIds
      (server.pool.tryOffer server.now systemNow pick batch fetchedAt).1 := by
  have inv : OfferInvariant server.store server.now server.nextExecutor server.pool server.ready
    server.starts := record.offers
  rw [current] at inv
  exact (inv.tryOffer_induction systemNow pick record.pool (record.pool.retains fetchedAt)
    (fun _ _ _ _ before _ _ _ _ effect => before.offers effect)
    fun _ _ _ _ before _ effect => before.accepts effect).1

/-- The executions of taken events were accepted, like those of all events. -/
theorem takesEvents (record : StartRecord recorded server) (count : Nat)
    (systemNow : Nat → Nat → Time) (invalidJson : String → Option String) :
    PoolRecord recorded (server.takeEvents count systemNow invalidJson).results.waitingIds
      (server.takeEvents count systemNow invalidJson).pool where
  remembered := record.pool.remembered
  assigned := record.pool.assigned
  accepted := record.pool.accepted
  named := by
    intro id member
    refine record.pool.named id (List.mem_append_left _ ?_)
    rw [ExecutorPool.eventIds, ← List.take_append_drop count server.pool.events,
      List.flatMap_append, List.mem_append]
    exact (List.mem_append.mp member).symm.imp_left (ServerState.takenIds _ _ _ id)

theorem pool_step (record : StartRecord recorded server) (other : action.ofExecutor = false)
    (taken : server.step action = some after) :
    PoolRecord recorded after.results.waitingIds after.pool := by
  have stops : ∀ results : EventsLoop, results.waitingIds = [] →
      PoolRecord recorded results.waitingIds server.pool := by
    intro results none
    rw [none]
    refine record.pool.mono (fun _ known => known) fun id member => ?_
    rw [List.append_nil] at member
    exact List.mem_append_left _ member
  cases own : action.ofEvents with
  | true =>
      cases action with
      | takeEvents count systemNow invalidJson =>
          obtain ⟨_, rfl⟩ := ServerState.step_takeEvents taken
          exact record.takesEvents count systemNow invalidJson
      | stopWaiting =>
          obtain ⟨_, _, _, _, rfl⟩ := ServerState.step_stopWaiting taken
          exact stops _ rfl
      | commitSucceeded systemNow pick acknowledged =>
          obtain ⟨_, _, _, rfl⟩ := ServerState.step_commitSucceeded taken
          exact stops _ (by cases acknowledged <;> rfl)
      | commitResults now pick acknowledged =>
          obtain ⟨call, _, _, _, rfl⟩ := ServerState.step_commitResults taken
          exact stops _ (by cases acknowledged <;> cases call <;> rfl)
      | _ => cases own
  | false =>
      rw [(ServerState.step_loops taken).2.1 own, ServerState.step_pool taken]
      have cancels : ∀ ids, PoolRecord recorded server.results.waitingIds
          (server.pool.cancelExecutionIds ids) := by
        intro ids
        obtain ⟨_, effect⟩ := server.pool.cancelExecutionIds_releases ids
        exact record.pool.releases effect
      cases action with
      | connect => exact record.pool.connects _
      | closeOutbound id => exact record.pool.releases (server.pool.closeOutbound_releases id)
      | offer systemNow pick =>
          obtain ⟨_, _, _, current, _⟩ := ServerState.step_offer taken
          simp only [ServerState.poolAfter, current]
          exact record.offersBatch current systemNow pick
      | takeStarts count =>
          exact ⟨record.pool.remembered, record.pool.assigned, record.pool.named,
            record.pool.accepted⟩
      | recordStarts =>
          obtain ⟨_, _, current, _⟩ := ServerState.step_recordStarts taken
          simp only [ServerState.poolAfter, current]
          exact record.pool.marks (record.started _ _ current) server.now
      | forget =>
          obtain ⟨_, current, _⟩ := ServerState.step_forget taken
          have kept := record.kept
          rw [current] at kept
          cases kept
      | message | checkOffers | disconnect => cases other
      | takeEvents | stopWaiting | commitSucceeded | commitResults => cases own
      | _ => exact cancels _

/-- The executions of a start are recorded when it is acknowledged. -/
theorem starts_step (record : StartRecord recorded server) (kept : action.givesUp = false)
    (taken : server.step action = some after) :
    after.starts.givenUp = false ∧
      ∀ executions returned, after.starts = .started executions returned →
        ∀ id ∈ executions.map StartedExecution.executionId,
          id ∈ recorded ++ action.recorded server := by
  cases own : action.ofStarts with
  | false =>
      rw [(ServerState.step_loops taken).1 own]
      exact ⟨record.kept, fun executions returned same id member =>
        List.mem_append_left _ (record.started executions returned same id member)⟩
  | true =>
      cases action with
      | takeStarts count =>
          obtain ⟨_, rfl⟩ := ServerState.step_takeStarts taken
          exact ⟨rfl, fun _ _ same => by cases same⟩
      | commitStarts pick acknowledged =>
          obtain ⟨executions, current, rfl⟩ := ServerState.step_commitStarts taken
          cases acknowledged with
          | false => exact ⟨rfl, fun _ _ same => by cases same⟩
          | true =>
              refine ⟨rfl, fun _ _ same id member => ?_⟩
              cases same
              rw [Action.recorded, current]
              exact List.mem_append_right _ member
      | recordStarts =>
          obtain ⟨executions, returned, current, rfl⟩ := ServerState.step_recordStarts taken
          unfold ServerState.recordStarts
          dsimp only
          split
          · exact ⟨rfl, fun _ _ same => by cases same⟩
          · exact ⟨rfl, fun _ _ same => by cases same⟩
      | cancelNotStarted =>
          obtain ⟨_, _, rfl⟩ := ServerState.step_cancelNotStarted taken
          exact ⟨rfl, fun _ _ same => by cases same⟩
      | giveUp => cases kept
      | cancelGivenUp =>
          obtain ⟨_, current, _⟩ := ServerState.step_cancelGivenUp taken
          have settled := record.kept
          rw [current] at settled
          cases settled
      | forget =>
          obtain ⟨_, current, _⟩ := ServerState.step_forget taken
          have settled := record.kept
          rw [current] at settled
          cases settled
      | _ => cases own

theorem recorded_step (record : StartRecord recorded server)
    (taken : server.step action = some after) :
    ∀ id ∈ recorded ++ action.recorded server, NotPending after.store id := by
  have evolves := ServerState.step_evolves taken
  intro id member
  rcases List.mem_append.mp member with old | new
  · exact evolves.notPending (record.recorded id old)
  cases action with
  | commitStarts pick acknowledged =>
      obtain ⟨executions, current, rfl⟩ := ServerState.step_commitStarts taken
      cases acknowledged with
      | false => cases new
      | true =>
          rw [Action.recorded, current] at new
          obtain ⟨execution, listed, rfl⟩ := List.mem_map.mp new
          have issued := record.offers.accepted
          rw [current] at issued
          exact Postgres.executionsStarted_notPending pick listed
            (issued execution (List.mem_append_right _ listed))
  | _ => cases new

theorem called_step (record : StartRecord recorded server) (waits : server.waits action = true)
    (taken : server.step action = some after) :
    ∀ id ∈ after.results.calledIds, id ∈ recorded := by
  cases own : action.ofEvents with
  | false =>
      rw [(ServerState.step_loops taken).2.1 own]
      exact record.called
  | true =>
      cases action with
      | takeEvents count systemNow invalidJson =>
          obtain ⟨_, rfl⟩ := ServerState.step_takeEvents taken
          simp [ServerState.takeEvents, EventsLoop.calledIds]
      | stopWaiting =>
          obtain ⟨_, _, _, current, rfl⟩ := ServerState.step_stopWaiting taken
          have settled := record.pool.recorded_of_waited (by simpa [ServerState.waits] using waits)
          rw [current] at settled
          exact settled
      | commitSucceeded systemNow pick acknowledged =>
          obtain ⟨_, _, current, rfl⟩ := ServerState.step_commitSucceeded taken
          have called := record.called
          rw [current] at called
          cases acknowledged with
          | false => exact called
          | true =>
              exact fun id member => called id (List.mem_append_right _
                (RetryCall.retryExecutions_ids systemNow _ id member))
      | commitResults now pick acknowledged =>
          obtain ⟨call, _, current, _, rfl⟩ := ServerState.step_commitResults taken
          have called := record.called
          rw [current] at called
          rcases ServerState.afterCommit_cases call acknowledged EventsLoop.retrying .idle with
            ⟨next, same, fewer⟩ | same
          · rw [same]
            exact fun id member => called id (fewer id member)
          · rw [same]
            simp [EventsLoop.calledIds]
      | _ => cases own

/-- Executions in progress are fetched, they are not pending anymore. -/
theorem fetched_notPending (record : StartRecord recorded server) (last : Option ExecutionId) :
    ∀ id ∈ (Postgres.PostgresBackend.inProgressExecutions server.store last).map
      InProgressExecution.executionId, NotPending server.store id := by
  intro id member
  obtain ⟨execution, fetched, rfl⟩ := List.mem_map.mp member
  obtain ⟨row, present, _, _, _, status, _, same⟩ :=
    Postgres.PostgresBackend.mem_inProgressExecutions fetched
  rw [same]
  refine ⟨record.offers.issued.executions row present, fun other otherPresent equal pending => ?_⟩
  cases server.store.executions.eq_of_key otherPresent present equal
  rw [status] at pending
  cases pending

/-- A checked execution is timed out, orphaned or left alone. -/
theorem checkExecution_ids (pool : ExecutorPool) (now : Time) (execution : InProgressExecution)
    (timedOutExecutions orphaned : List MaybeRetryExecution) :
    ∀ id ∈ failureIds (ServerState.checkExecution pool now execution timedOutExecutions orphaned).1 ++
        failureIds (ServerState.checkExecution pool now execution timedOutExecutions orphaned).2,
      id ∈ execution.executionId :: (failureIds timedOutExecutions ++ failureIds orphaned) := by
  intro id member
  unfold ServerState.checkExecution at member
  split at member
  · split at member
    · simpa [failureIds, failedInProgress, or_comm, or_left_comm] using member
    · exact List.mem_cons_of_mem _ member
  · simpa [failureIds, failedInProgress, or_comm, or_left_comm] using member

theorem inProgress_step (record : StartRecord recorded server)
    (taken : server.step action = some after) :
    ∀ id ∈ after.timeouts.ids, NotPending after.store id := by
  have evolves := ServerState.step_evolves taken
  have known : ∀ id ∈ server.timeouts.ids, NotPending after.store id := fun id member =>
    evolves.notPending (record.inProgress id member)
  cases own : action.ofTimeouts with
  | false =>
      rw [(ServerState.step_loops taken).2.2.1 own]
      exact known
  | true =>
      cases action with
      | fetchInProgress systemNow =>
          obtain ⟨last, _, rfl | rfl⟩ := ServerState.step_fetchInProgress taken
          · simp [TimeoutsLoop.ids]
          · intro id member
            refine record.fetched_notPending last id ?_
            simpa [TimeoutsLoop.ids, failureIds] using member
      | checkInProgress =>
          obtain ⟨_, now, execution, unchecked, timedOut, orphaned, current, rfl⟩ :=
            ServerState.step_checkInProgress taken
          rw [current] at known
          intro id member
          refine known id ?_
          rcases List.mem_append.mp member with later | checked
          · exact List.mem_append_left _ (List.mem_cons_of_mem _ later)
          · rcases List.mem_cons.mp (checkExecution_ids _ _ _ _ _ id checked) with same | old
            · rw [same]
              exact List.mem_append_left _ (List.mem_cons_self ..)
            · exact List.mem_append_right _ old
      | startTimingOut systemNow =>
          obtain ⟨_, _, timedOut, orphaned, current, rfl⟩ := ServerState.step_startTimingOut taken
          rw [current] at known
          intro id member
          refine known id (List.mem_append_right _ ?_)
          exact (List.mem_append.mp member).elim
            (fun retried => List.mem_append_left _ (RetryCall.retryExecutions_ids systemNow _ id retried))
            (List.mem_append_right _)
      | commitTimedOut now pick acknowledged =>
          obtain ⟨last, call, ids, orphaned, store, current, _, rfl⟩ :=
            ServerState.step_commitTimedOut taken
          rw [current] at known
          rcases ServerState.afterCommit_cases call acknowledged
            (fun call => TimeoutsLoop.timingOut last call ids orphaned)
            (.cancelling last ids orphaned) with ⟨next, same, fewer⟩ | same
          · rw [same]
            exact fun id member => known id ((List.mem_append.mp member).elim
              (fun named => List.mem_append_left _ (fewer id named)) (List.mem_append_right _))
          · rw [same]
            exact fun id member => known id (List.mem_append_right _ member)
      | cancelTimedOut systemNow =>
          obtain ⟨_, _, orphaned, current, rfl⟩ := ServerState.step_cancelTimedOut taken
          rw [current] at known
          exact fun id member => known id (RetryCall.retryExecutions_ids systemNow _ id member)
      | commitOrphaned now pick acknowledged =>
          obtain ⟨last, call, store, current, _, rfl⟩ := ServerState.step_commitOrphaned taken
          rw [current] at known
          rcases ServerState.afterCommit_cases call acknowledged
            (fun call => TimeoutsLoop.failingOrphaned last call) (.fetching last) with
            ⟨next, same, fewer⟩ | same
          · rw [same]
            exact fun id member => known id (fewer id member)
          · rw [same]
            simp [TimeoutsLoop.ids]
      | fetchInProgressFails =>
          obtain ⟨_, _, rfl⟩ := ServerState.step_fetchInProgressFails taken
          simp [TimeoutsLoop.ids]
      | giveUpTimeouts =>
          obtain ⟨timeouts, given, rfl⟩ := ServerState.step_giveUpTimeouts taken
          exact fun id member => known id (TimeoutsLoop.giveUp_ids given id member)
      | _ => cases own

theorem step (record : StartRecord recorded server) (other : action.ofExecutor = false)
    (kept : action.givesUp = false) (waits : server.waits action = true)
    (taken : server.step action = some after) :
    StartRecord (recorded ++ action.recorded server) after where
  offers := ServerState.offerInvariant_step record.offers taken
  pool := (record.pool_step other taken).mono (fun _ => List.mem_append_left _)
    fun _ member => member
  kept := (record.starts_step kept taken).1
  started := (record.starts_step kept taken).2
  called id member := List.mem_append_left _ (record.called_step waits taken id member)
  recorded := record.recorded_step taken
  inProgress := record.inProgress_step taken

/-- What the backend is called for was started, or found in progress. -/
theorem outcomes_notPending (record : StartRecord recorded server) {operation : Operation}
    (performed : action.operation server = some operation) :
    ∀ id ∈ operation.outcomes, NotPending server.store id := by
  have called : ∀ id ∈ server.results.calledIds, NotPending server.store id :=
    fun id member => record.recorded id (record.called id member)
  have inProgress := record.inProgress
  have calls : ∀ (call : RetryCall) now pick, ∀ id ∈ (call.operation now pick).outcomes,
      id ∈ call.ids := by
    intro call now pick id member
    cases call with
    | failing failedExecutions retriedExecutions => exact List.mem_append_left _ member
    | retrying retriedExecutions => exact member
  cases action with
  | commitSucceeded systemNow pick acknowledged =>
      simp only [Action.operation] at performed
      split at performed
      · rename_i current
        rw [current] at called
        cases performed
        exact fun id member => called id (List.mem_append_left _ member)
      · cases performed
  | commitResults now pick acknowledged =>
      simp only [Action.operation] at performed
      split at performed
      · rename_i current
        rw [current] at called
        cases performed
        exact fun id member => called id (calls _ _ _ id member)
      · cases performed
  | commitTimedOut now pick acknowledged =>
      simp only [Action.operation] at performed
      split at performed
      · rename_i current
        rw [current] at inProgress
        cases performed
        exact fun id member => inProgress id (List.mem_append_left _ (calls _ _ _ id member))
      · cases performed
  | commitOrphaned now pick acknowledged =>
      simp only [Action.operation] at performed
      split at performed
      · rename_i current
        rw [current] at inProgress
        cases performed
        exact fun id member => inProgress id (calls _ _ _ id member)
      · cases performed
  | commitStarts pick acknowledged =>
      simp only [Action.operation] at performed
      split at performed
      · cases performed
        simp [Operation.outcomes]
      · cases performed
  | cancelStopped index now systemNow pick =>
      simp only [Action.operation] at performed
      split at performed
      · cases performed
        simp [Operation.outcomes]
      · cases performed
  | addJobs | addSchedules | deleteHistory | cancelJobs | stopSchedules =>
      cases performed
      simp [Operation.outcomes]
  | _ => cases performed

end StartRecord

namespace Process

variable {process after : Process} {action : ProcessAction}

/-- No wait for starts times out, and starting is not given up. -/
def waits (process : Process) : ProcessAction → Bool
  | .act action => !action.givesUp && process.server.waits action
  | _ => true

def startRecord (process : Process) : Prop :=
  StartRecord process.log.recorded process.server

theorem startRecord_step (record : process.startRecord) (waits : process.waits action = true)
    (done : process.step action = some after) : after.startRecord := by
  have record : StartRecord process.log.recorded process.server := record
  cases action with
  | act action =>
      obtain ⟨admitted, server, taken, rfl⟩ := step_act done
      have waits : action.givesUp = false ∧ process.server.waits action = true := by
        simpa [Process.waits] using waits
      exact record.step (admits_other admitted) waits.1 waits.2 taken
  | message | checkOffers | disconnect | shutdownExecutor | graceElapsed =>
      obtain ⟨_, _, _, steps, rfl⟩ := step_executor rfl done
      exact record.loopSteps steps
  | signal | endReady | endTimeouts | starts | events =>
      obtain ⟨_, _, _, _, _, _, ready, _, rfl⟩ := step_phase rfl done
      exact { record with offers := ServerState.offerInvariant_ready record.offers ready }
  | callFails caller =>
      obtain ⟨_, rfl⟩ := step_callFails done
      exact record
  | giveUpResults systemNow =>
      obtain ⟨_, results, given, rfl⟩ := step_giveUpResults done
      obtain ⟨called, waiting⟩ := EventsLoop.giveUp_ids given
      exact { record with
        pool := record.pool.mono (fun _ known => known) fun id member => by
          rw [waiting, List.append_nil] at member
          exact List.mem_append_left _ member
        called := fun id member => record.called id (called id member) }

/-- A row does not go from pending to an outcome in one step. -/
theorem not_outcome_of_pending (record : process.startRecord)
    (done : process.step action = some after) {row later : Postgres.ExecutionRow}
    (member : row ∈ process.server.store.executions.rows) (pending : row.status = .pending)
    (present : later ∈ after.server.store.executions.rows) (same : later.id = row.id) :
    ¬later.hasOutcome := by
  intro outcome
  have record : StartRecord process.log.recorded process.server := record
  have unchanged : later ∈ process.server.store.executions.rows → False := by
    intro old
    cases process.server.store.executions.eq_of_key old member same
    rw [Postgres.ExecutionRow.hasOutcome, pending] at outcome
    rcases outcome with impossible | impossible <;> cases impossible
  cases action with
  | act action =>
      obtain ⟨_, server, taken, rfl⟩ := step_act done
      rcases ServerState.step_operation taken with kept | ⟨operation, performed, applied⟩
      · change later ∈ server.store.executions.rows at present
        rw [kept] at present
        exact unchanged present
      · rcases Postgres.outcome_before applied present outcome with old | named
        · exact unchanged old
        · exact (record.outcomes_notPending performed later.id named).status row member same.symm
            pending
  | message | checkOffers | disconnect | shutdownExecutor | graceElapsed =>
      obtain ⟨_, _, _, _, rfl⟩ := step_executor rfl done
      exact unchanged present
  | signal | endReady | endTimeouts | starts | events =>
      obtain ⟨_, _, _, _, _, _, _, _, rfl⟩ := step_phase rfl done
      exact unchanged present
  | callFails caller =>
      obtain ⟨_, rfl⟩ := step_callFails done
      exact unchanged present
  | giveUpResults systemNow =>
      obtain ⟨_, results, _, rfl⟩ := step_giveUpResults done
      exact unchanged present

end Process

/-- In every run in which no wait for starts times out and starting is not given
up: when the backend is called for results their starts were acknowledged, and no
step lets a pending execution succeed or fail. -/
theorem starts_recorded {shutdownGracePeriod : Duration} {process : Process}
    (run : Reaches Process.step (fun process action => process.waits action = true)
      (.initial shutdownGracePeriod) process) :
    (∀ call, process.server.results.call? = some call →
      ∀ id ∈ call.executionIds, id ∈ process.log.recorded) ∧
    ∀ action after, process.step action = some after →
      ∀ row ∈ process.server.store.executions.rows, row.status = .pending →
        ∀ later ∈ after.server.store.executions.rows, later.id = row.id →
          later.status ≠ .succeeded ∧ later.status ≠ .failed := by
  have record : process.startRecord := run.invariant
    (fun _ _ _ record waits done => Process.startRecord_step record waits done)
    StartRecord.initial
  refine ⟨fun call making id member => record.called id (EventsLoop.call?_ids making id member), ?_⟩
  intro action after done row member pending later present same
  exact not_or.mp (Process.not_outcome_of_pending record done member pending present same)

/-- The result arrives before the start is committed, it waits for it. -/
def startsFirst : List ProcessAction :=
  [.act (.addJobs 0 (fun _ => 0) [Postgres.plainJob 2] none), .act .connect,
    .message 0 0 (.capabilities false (some [("type", 1)])),
    .act .startPass, .act .readClock, .act (.fetchReady 0), .act (.offer 0 fun _ => 0),
    .message 0 0 (.executionSucceeded 1 .absent "{}"), .act (.takeEvents 1 (fun _ _ => 0) fun _ => none),
    .act (.takeStarts 1), .act (.commitStarts (fun _ => 0) true), .act .recordStarts,
    .act .stopWaiting]

theorem starts_recorded_startsFirst :
    ∃ process, Reaches Process.step (fun process action => process.waits action = true)
        (.initial 0) process ∧
      process.server.results.call? = some (.executionsSucceeded [⟨1, 0, "{}"⟩]) ∧
      1 ∈ process.log.recorded := by
  obtain ⟨process, run, checked⟩ := exists_reaches_of_execute Process.step
    (fun process action => process.waits action = true) (.initial 0) startsFirst
    (fun process => process.server.results.call? == some (.executionsSucceeded [⟨1, 0, "{}"⟩]))
    (by decide)
  have making := beq_iff_eq.mp checked
  exact ⟨process, run, making, (starts_recorded run).1 _ making 1 (by decide)⟩

end Ora.Server
