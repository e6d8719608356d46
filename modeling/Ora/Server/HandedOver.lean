import Ora.Server.ExecutorLoop

/-!
# Every acceptance is handed over once

Whatever executors send, and whenever they are cancelled, disconnected or shut
down: an execution that an executor accepted is in its job queues, was
cancelled, or is named by one event.
-/

namespace Ora.Server

open Ora.Backend
open Ora.Library
open Ora.Postgres (PostgresBackend.readyExecutions)

namespace ExecutorPool

section Actions

variable {pool after : ExecutorPool}

/-- Nothing is reported on behalf of any executor. -/
theorem Hands.silent {id : ExecutorId} {cancelled : List (ExecutorId × ExecutionId)}
    (hands : Hands id [] cancelled pool after) (other : ExecutorId) :
    Hands other [] cancelled pool after :=
  ⟨hands.balance, hands.events, hands.accepted⟩

theorem addExecutor_configured (known : pool.Configured) (id : ExecutorId) :
    (pool.addExecutor id).Configured := by
  intro executor member
  rcases List.mem_append.mp member with old | new
  · exact known executor old
  · cases List.mem_singleton.mp new
    exact fun _ => rfl

theorem addExecutor_hands (pool : ExecutorPool) (id : ExecutorId) :
    Hands id [] [] pool (pool.addExecutor id) where
  balance pair := by
    have assigned : (pool.addExecutor id).assigned = pool.assigned := by
      simp [ExecutorPool.assigned, held, addExecutor, send_executors, Executor.held,
        Executor.executions]
    have history : (pool.addExecutor id).history =
        pool.history ++ [.sent id (.properties id)] := rfl
    rw [assigned, history, acceptances_append_sent]
    simp [reports]
  events := by rw [List.append_nil]; rfl
  accepted := by simp

theorem assigned_heldIds {pair : ExecutorId × ExecutionId} (member : pair ∈ pool.assigned) :
    pair.2 ∈ pool.heldIds := by
  obtain ⟨entry, present, rfl⟩ := List.mem_map.mp member
  exact List.mem_map_of_mem (List.mem_of_mem_filter present)

/-- Exactly the assigned executions with the given identifiers are cancelled. -/
theorem cancelExecutionIds_exact (unique : pool.heldIds.Nodup) (ids : List ExecutionId)
    (executorId : ExecutorId) :
    Hands executorId [] (pool.assigned.filter fun pair => ids.contains pair.2) pool
      (pool.cancelExecutionIds ids) := by
  obtain ⟨cancelled, hands, named⟩ := pool.cancelExecutionIds_hands ids executorId
  obtain ⟨_, effect⟩ := pool.cancelExecutionIds_releases ids
  obtain ⟨_, history, quiet⟩ := effect.history
  refine { hands with balance := fun pair => ?_ }
  have balance := hands.balance pair
  rw [history, acceptances_append_quiet quiet] at balance ⊢
  by_cases given : pair.2 ∈ ids
  · have gone : (pool.cancelExecutionIds ids).assigned.count pair = 0 :=
      List.count_eq_zero.mpr fun member =>
        cancelExecutionIds_removes unique ids pair.2 given (assigned_heldIds member)
    rw [List.count_filter (by simpa using given), gone]
    simp [reports]
  · have kept : cancelled.count pair = 0 :=
      List.count_eq_zero.mpr fun member => given (named pair member)
    have unnamed : (pool.assigned.filter fun pair => ids.contains pair.2).count pair = 0 :=
      List.count_eq_zero.mpr fun member =>
        given (by simpa using (List.mem_filter.mp member).2)
    omega

end Actions

end ExecutorPool

namespace ServerState

variable {server after : ServerState} {action : Action}

/-- Offering reports and cancels nothing. -/
theorem tryOffer_hands (inv : server.offerInvariant) {ignored : List ExecutionId}
    {fetchedAt : Instant} {batch : List ReadyExecution}
    (current : server.ready = .offering ignored fetchedAt batch) (systemNow : Time)
    (pick : ExecutionId → Nat) (known : server.pool.Configured) (executorId : ExecutorId) :
    (server.pool.tryOffer server.now systemNow pick batch fetchedAt).1.Configured ∧
      ExecutorPool.Hands executorId [] [] server.pool
        (server.pool.tryOffer server.now systemNow pick batch fetchedAt).1 := by
  have inv : OfferInvariant server.store server.now server.nextExecutor server.pool server.ready
    server.starts := inv
  rw [current] at inv
  refine (inv.tryOffer_induction
    (P := fun pool => pool.Configured ∧ ExecutorPool.Hands executorId [] [] server.pool pool)
    systemNow pick ⟨known, .refl executorId server.pool⟩ ⟨known, ?_⟩ ?_ ?_).1
  · have start := ExecutorPool.Hands.refl executorId server.pool
    exact ⟨start.balance, start.events, start.accepted⟩
  · rintro pool offered other entry ⟨configured, hands⟩ _ _ _ _ effect
    exact ⟨effect.queues.configured configured,
      hands.trans ((ExecutorPool.Hands.of_offers effect).silent executorId)⟩
  · rintro pool accepted other entry ⟨configured, hands⟩ _ effect
    exact ⟨effect.queues.configured configured,
      hands.trans ((ExecutorPool.Hands.of_accepts effect).silent executorId)⟩

/-- An action that is not one of an executor reports nothing. -/
theorem step_balance (inv : server.offerInvariant) (known : server.pool.Configured)
    (other : action.ofExecutor = false) (taken : server.step action = some after) :
    after.pool.Configured ∧ ∀ pair,
      (acceptances after.pool.history).count pair + server.pool.assigned.count pair =
        (acceptances server.pool.history).count pair + after.pool.assigned.count pair +
          (server.pool.assigned.filter fun pair =>
            (action.cancelledIds server).contains pair.2).count pair := by
  have cancels : ∀ ids, (server.pool.cancelExecutionIds ids).Configured := by
    intro ids
    obtain ⟨_, effect⟩ := server.pool.cancelExecutionIds_releases ids
    exact effect.queues.configured known
  rw [step_pool taken]
  cases action with
  | connect =>
      exact ⟨ExecutorPool.addExecutor_configured known _, fun pair => by
        simpa [poolAfter, Action.cancelledIds, reports] using
          (server.pool.addExecutor_hands server.nextExecutor).balance pair⟩
  | closeOutbound id =>
      exact ⟨(server.pool.closeOutbound_releases id).queues.configured known, fun pair => by
        simpa [poolAfter, Action.cancelledIds, reports] using
          (server.pool.closeOutbound_hands id id).balance pair⟩
  | offer systemNow pick =>
      obtain ⟨ignored, fetchedAt, batch, current, _⟩ := step_offer taken
      obtain ⟨configured, hands⟩ := tryOffer_hands inv current systemNow pick known 0
      simp only [poolAfter, current]
      exact ⟨configured, fun pair => by
        simpa [Action.cancelledIds, reports] using hands.balance pair⟩
  | takeStarts | takeEvents =>
      exact ⟨known, fun pair => by simp [Action.cancelledIds, poolAfter]; rfl⟩
  | recordStarts =>
      obtain ⟨executions, _, current, _⟩ := step_recordStarts taken
      simp only [poolAfter, current]
      exact ⟨known, fun pair => by simp [Action.cancelledIds]; rfl⟩
  | forget =>
      obtain ⟨ids, current, _⟩ := step_forget taken
      simp only [poolAfter, current]
      refine ⟨known, fun pair => ?_⟩
      rw [ExecutorPool.acceptedExecutionsNotStarted, acceptances_append_forgotten]
      simp [Action.cancelledIds]
      rfl
  | message | checkOffers | disconnect => cases other
  | _ => exact ⟨cancels _, (ExecutorPool.cancelExecutionIds_exact inv.queues.unique _ 0).balance⟩

end ServerState

/-- The executions named by events, with the executors that sent them. -/
def Log.reported (log : Log) : List (ExecutorId × ExecutionId) :=
  log.sent.flatMap fun entry => reports entry.1 [entry.2]

theorem reports_eq (executorId : ExecutorId) (events : List ExecutorEvent) :
    (events.map fun event => (executorId, event)).flatMap (fun entry => reports entry.1 [entry.2]) =
      reports executorId events := by
  simp [reports, List.flatMap_map, List.map_flatMap]

namespace Process

/-- An execution that was accepted is in a job queue, was cancelled or is named
by an event, once for each time it was accepted.  Offers are not named. -/
structure HandedOver (process : Process) : Prop where
  once : ∀ executorId id, (acceptances process.server.pool.history).count (executorId, id) =
    process.server.pool.assigned.count (executorId, id) +
      process.log.cancelled.count (executorId, id) + process.log.reported.count (executorId, id)
  queued : process.server.pool.assigned.Nodup
  offered : ∀ entry ∈ process.log.sent, ∀ execution ∈ entry.2.executions,
    execution.isAccepted = true

/-- Every result of an assigned execution has a timestamp that can be converted,
and the channels stay open. -/
def readable (process : Process) : ProcessAction → Bool
  | .message id _ message => (ExecutorPool.unreadable message).all fun execution =>
      !process.server.pool.assigned.contains (id, execution)
  | .starts action => action != .deadlineElapsed
  | .events action => action != .deadlineElapsed
  | _ => true

structure HandInvariant (process : Process) : Prop where
  offers : process.server.offerInvariant
  configured : process.server.pool.Configured
  once : ∀ pair, (acceptances process.server.pool.history).count pair =
    process.server.pool.assigned.count pair + process.log.cancelled.count pair +
      process.log.reported.count pair
  accepted : ∀ entry ∈ process.log.sent, ∀ execution ∈ entry.2.executions,
    execution.isAccepted = true

namespace HandInvariant

variable {process : Process}

theorem initial (shutdownGracePeriod : Duration) :
    HandInvariant (.initial shutdownGracePeriod) where
  offers := ServerState.offerInvariant_initial
  configured := by
    simp [ExecutorPool.Configured, Process.initial, ServerState.initial, ExecutorPool.empty]
  once _ := rfl
  accepted := by simp [Process.initial]

theorem executorStep (inv : process.HandInvariant) {id : ExecutorId} {pool : ExecutorPool}
    (steps : ExecutorPool.LoopSteps process.server.pool pool)
    (hands : ∃ new, ExecutorPool.Hands id new [] process.server.pool pool) :
    (process.executorStep id pool).HandInvariant := by
  obtain ⟨new, hands⟩ := hands
  have sent : (process.executorStep id pool).log.sent =
      process.log.sent ++ new.map fun event => (id, event) := by
    rw [Process.executorStep, hands.events, List.drop_left]
  refine ⟨ServerState.offerInvariant_loopSteps inv.offers steps, steps.configured inv.configured,
    fun pair => ?_, ?_⟩
  · have before := inv.once pair
    have balance := hands.balance pair
    rw [List.count_nil] at balance
    rw [Log.reported, sent, List.flatMap_append, reports_eq, List.count_append, ← Log.reported]
    simp only [Process.executorStep]
    omega
  · rw [sent]
    intro entry member
    rcases List.mem_append.mp member with old | later
    · exact inv.accepted entry old
    · obtain ⟨event, present, rfl⟩ := List.mem_map.mp later
      exact hands.accepted event present

theorem act (inv : process.HandInvariant) {action : Action} {server : ServerState}
    (other : action.ofExecutor = false) (taken : process.server.step action = some server) :
    (process.act action server).HandInvariant := by
  obtain ⟨configured, balance⟩ :=
    ServerState.step_balance inv.offers inv.configured other taken
  refine ⟨ServerState.offerInvariant_step inv.offers taken, configured, fun pair => ?_,
    inv.accepted⟩
  have before := inv.once pair
  have after := balance pair
  simp only [Process.act, Log.record, Log.reported, List.count_append] at before ⊢
  omega

theorem step (inv : process.HandInvariant) {action : ProcessAction} {after : Process}
    (readable : process.readable action = true) (done : process.step action = some after) :
    after.HandInvariant := by
  cases action with
  | act action =>
      obtain ⟨admitted, server, taken, rfl⟩ := step_act done
      exact inv.act (admits_other admitted) taken
  | message id systemNow message =>
      cases done
      have known : ∀ execution, ExecutorPool.unreadable message = some execution →
          (id, execution) ∉ process.server.pool.assigned := by
        intro execution named
        simpa [Process.readable, named] using readable
      split
      · exact inv.executorStep (ExecutorPool.drainingMessage_loopSteps ..)
          (ExecutorPool.drainingMessage_hands _ _ inv.configured _ _ _ known)
      · exact inv.executorStep (ExecutorPool.executorMessage_loopSteps ..)
          (ExecutorPool.executorMessage_hands _ inv.configured _ _ _ _ known)
  | checkOffers id =>
      rw [step_checkOffers done]
      exact inv.executorStep (ExecutorPool.withdrawOffers_loopSteps ..)
        ⟨[], ExecutorPool.withdrawOffers_hands ..⟩
  | disconnect id =>
      cases done
      exact inv.executorStep (ExecutorPool.dropExecutor_loopSteps ..)
        (ExecutorPool.dropExecutor_hands ..)
  | shutdownExecutor id =>
      obtain ⟨draining, rfl⟩ := step_shutdownExecutor done
      have shut := inv.executorStep (ExecutorPool.shutdownExecutor_loopSteps _ id
        process.shutdownGracePeriod process.server.now) (ExecutorPool.shutdownExecutor_hands ..)
      exact ⟨shut.offers, shut.configured, shut.once, shut.accepted⟩
  | graceElapsed id =>
      rw [step_graceElapsed done]
      exact inv.executorStep (ExecutorPool.cancelAssigned_loopSteps ..)
        (ExecutorPool.cancelAssigned_hands ..)
  | signal | endReady | endTimeouts | starts | events =>
      obtain ⟨_, _, _, _, _, _, ready, _, rfl⟩ := step_phase rfl done
      exact ⟨ServerState.offerInvariant_ready inv.offers ready, inv.configured, inv.once,
        inv.accepted⟩
  | callFails caller =>
      obtain ⟨_, rfl⟩ := step_callFails done
      exact ⟨inv.offers, inv.configured, inv.once, inv.accepted⟩
  | giveUpResults systemNow =>
      obtain ⟨_, results, _, rfl⟩ := step_giveUpResults done
      exact ⟨inv.offers, inv.configured, inv.once, inv.accepted⟩

end HandInvariant

end Process

/-- Every acceptance is handed over once as long as the timestamps of results can
be converted. -/
theorem accepted_handed_over {shutdownGracePeriod : Duration} {process : Process}
    (run : Reaches Process.step (fun process action => process.readable action = true)
      (.initial shutdownGracePeriod) process) : process.HandedOver := by
  have inv := run.invariant (fun _ _ _ inv readable done => inv.step readable done)
    (Process.HandInvariant.initial shutdownGracePeriod)
  refine ⟨fun executorId id => inv.once _, ?_, inv.accepted⟩
  have ids := inv.offers.queues.unique
  have held : (process.server.pool.assigned.map Prod.snd).Sublist process.server.pool.heldIds := by
    rw [ExecutorPool.assigned, assignedOf, List.map_map]
    exact List.filter_sublist.map _
  exact .of_map _ (ids.sublist held)

/-- An executor without the handshake is offered the execution `1`. -/
def serving : List ProcessAction :=
  [.act (.addJobs 0 (fun _ => 0) [Postgres.plainJob 2] none), .act .connect,
    .message 0 0 (.capabilities false (some [("type", 1)])),
    .act .startPass, .act .readClock, .act (.fetchReady 0), .act (.offer 0 fun _ => 0)]

/-- The executor shuts down after the signal, and reports the result meanwhile. -/
def finished : List ProcessAction :=
  serving ++ [.signal, .shutdownExecutor 0, .message 0 0 (.executionSucceeded 1 (.at 0) "{}")]

/-- The result has a timestamp that cannot be converted. -/
def unreadableResult : List ProcessAction :=
  serving ++ [.message 0 0 (.executionSucceeded 1 .invalid "{}")]

theorem accepted_handed_over_finished :
    ∃ process, Reaches Process.step (fun process action => process.readable action = true)
        (.initial 1) process ∧
      (acceptances process.server.pool.history = [(0, 1)] ∧ process.log.reported = [(0, 1)]) ∧
      process.HandedOver := by
  obtain ⟨process, run, checked⟩ := exists_reaches_of_execute Process.step
    (fun process action => process.readable action = true) (.initial 1) finished
    (fun process => acceptances process.server.pool.history == [(0, 1)] &&
      process.log.reported == [(0, 1)]) (by decide)
  exact ⟨process, run, by simpa using checked, accepted_handed_over run⟩

/-- The accepted execution is removed before the timestamp is converted. -/
theorem unreadableResult_not_handed_over :
    ∃ process, Reaches Process.step (fun _ _ => True) (.initial 0) process ∧
      ¬process.HandedOver := by
  obtain ⟨process, run, checked⟩ := exists_reaches_of_execute Process.step (fun _ _ => True)
    (.initial 0) unreadableResult
    (fun process => acceptances process.server.pool.history == [(0, 1)] &&
      (process.server.pool.assigned.isEmpty && process.log.cancelled.isEmpty &&
        process.log.reported.isEmpty)) (by decide)
  refine ⟨process, run, fun handedOver => ?_⟩
  simp only [Bool.and_eq_true, beq_iff_eq, List.isEmpty_iff] at checked
  obtain ⟨accepted, ⟨assigned, cancelled⟩, reported⟩ := checked
  have once := handedOver.once 0 1
  rw [accepted, assigned, cancelled, reported] at once
  simp at once

end Ora.Server
