import Ora.Postgres.InProgress
import Ora.Server.Zombies

/-!
# One pass of the timeouts loop

`execution_timeouts_loop` goes through the executions in progress batch by
batch.  An execution whose executor is gone, or whose time is over for as long
as the pass takes, does not survive the pass, whatever the other loops do.
-/

namespace Ora.Server

open Ora.Backend
open Ora.Library
open Ora.Postgres

/-- The executor was connected and is not any more. -/
def Gone (server : ServerState) (executorId : ExecutorId) : Prop :=
  executorId < server.nextExecutor ∧ executorId ∉ server.pool.executorIds

theorem executorExists_iff (pool : ExecutorPool) (executorId : ExecutorId) :
    pool.executorExists executorId = true ↔ executorId ∈ pool.executorIds := by
  simp [ExecutorPool.executorExists, ExecutorPool.executorIds]

theorem ExecutorPool.Exchanges.absent {removed added : List (ExecutorId × ExecutorExecution)}
    {pool after : ExecutorPool} (changes : pool.Exchanges removed added after)
    {executorId : ExecutorId} (absent : executorId ∉ pool.executorIds) :
    executorId ∉ after.executorIds := by
  obtain ⟨gone, same⟩ := changes.executorIds
  exact fun member => absent (same.mem_iff.mpr (List.mem_append_right _ member))

namespace ServerState

variable {server after : ServerState} {action : Action}

/-- Identifiers of executors are issued by connecting. -/
theorem step_nextExecutor (done : server.step action = some after) :
    after.nextExecutor = server.nextExecutor ∨
      action = .connect ∧ after.nextExecutor = server.nextExecutor + 1 := by
  cases action with
  | connect =>
      cases done
      exact .inr ⟨rfl, rfl⟩
  | tick | message | checkOffers | disconnect | closeOutbound | deleteHistory | cancelJobs
  | stopSchedules =>
      cases done
      exact .inl rfl
  | addJobs =>
      obtain ⟨_, _, rfl⟩ := step_addJobs done
      exact .inl rfl
  | addSchedules =>
      obtain ⟨_, _, rfl⟩ := step_addSchedules done
      exact .inl rfl
  | cancelStopped =>
      obtain ⟨_, _, rfl⟩ := step_cancelStopped done
      exact .inl rfl
  | cancelRequested =>
      obtain ⟨_, _, rfl⟩ := step_cancelRequested done
      exact .inl rfl
  | startPass =>
      obtain ⟨_, rfl⟩ := step_startPass done
      exact .inl rfl
  | readClock =>
      obtain ⟨_, _, _, rfl⟩ := step_readClock done
      exact .inl rfl
  | fetchReady =>
      obtain ⟨_, _, _, _, rfl⟩ := step_fetchReady done
      exact .inl rfl
  | fetchFails =>
      obtain ⟨_, _, _, _, rfl⟩ := step_fetchFails done
      exact .inl rfl
  | offer =>
      obtain ⟨_, _, _, _, rfl⟩ := step_offer done
      exact .inl rfl
  | checkCapacity =>
      obtain ⟨_, _, _, rfl⟩ := step_checkCapacity done
      exact .inl rfl
  | takeStarts =>
      obtain ⟨_, rfl⟩ := step_takeStarts done
      exact .inl rfl
  | commitStarts =>
      obtain ⟨_, _, rfl⟩ := step_commitStarts done
      exact .inl rfl
  | recordStarts =>
      obtain ⟨_, _, _, rfl⟩ := step_recordStarts done
      exact .inl rfl
  | cancelNotStarted =>
      obtain ⟨_, _, rfl⟩ := step_cancelNotStarted done
      exact .inl rfl
  | giveUp =>
      obtain ⟨_, _, rfl⟩ := step_giveUp done
      exact .inl rfl
  | cancelGivenUp =>
      obtain ⟨_, _, rfl⟩ := step_cancelGivenUp done
      exact .inl rfl
  | forget =>
      obtain ⟨_, _, rfl⟩ := step_forget done
      exact .inl rfl
  | takeEvents =>
      obtain ⟨_, rfl⟩ := step_takeEvents done
      exact .inl rfl
  | stopWaiting =>
      obtain ⟨_, _, _, _, rfl⟩ := step_stopWaiting done
      exact .inl rfl
  | commitSucceeded =>
      obtain ⟨_, _, _, rfl⟩ := step_commitSucceeded done
      exact .inl rfl
  | commitResults =>
      obtain ⟨_, _, _, _, rfl⟩ := step_commitResults done
      exact .inl rfl
  | fetchInProgress =>
      obtain ⟨_, _, rfl | rfl⟩ := step_fetchInProgress done
      · exact .inl rfl
      · exact .inl rfl
  | checkInProgress =>
      obtain ⟨_, _, _, _, _, _, _, rfl⟩ := step_checkInProgress done
      exact .inl rfl
  | startTimingOut =>
      obtain ⟨_, _, _, _, _, rfl⟩ := step_startTimingOut done
      exact .inl rfl
  | commitTimedOut =>
      obtain ⟨_, _, _, _, _, _, _, rfl⟩ := step_commitTimedOut done
      exact .inl rfl
  | cancelTimedOut =>
      obtain ⟨_, _, _, _, rfl⟩ := step_cancelTimedOut done
      exact .inl rfl
  | commitOrphaned =>
      obtain ⟨_, _, _, _, _, rfl⟩ := step_commitOrphaned done
      exact .inl rfl
  | fetchInProgressFails =>
      obtain ⟨_, _, rfl⟩ := step_fetchInProgressFails done
      exact .inl rfl
  | giveUpTimeouts =>
      obtain ⟨_, _, rfl⟩ := step_giveUpTimeouts done
      exact .inl rfl

theorem step_assigned (assigned : Assigned server.store) (done : server.step action = some after) :
    Assigned after.store := by
  obtain same | ⟨operation, _, applied⟩ := step_operation done
  · exact same ▸ assigned
  · exact assigned.step applied

/-- Only connecting adds an executor to the pool. -/
theorem step_absent (inv : server.offerInvariant) (done : server.step action = some after)
    (connects : action ≠ .connect) {executorId : ExecutorId}
    (absent : executorId ∉ server.pool.executorIds) : executorId ∉ after.pool.executorIds := by
  rw [step_pool done]
  cases action with
  | connect => exact absurd rfl connects
  | message id systemNow message =>
      obtain ⟨_, effect⟩ | ⟨_, _, effect⟩ :=
        server.pool.executorMessage_cases server.now systemNow id message
      · exact effect.queues.absent absent
      · exact effect.queues.absent absent
  | checkOffers id =>
      obtain ⟨_, _, effect⟩ := server.pool.withdrawOffers_releases id (some server.now) server.now
      exact effect.queues.absent absent
  | disconnect id =>
      obtain ⟨_, effect⟩ := server.pool.dropExecutor_releases id
      exact effect.queues.absent absent
  | closeOutbound id => exact (server.pool.closeOutbound_releases id).queues.absent absent
  | offer systemNow pick =>
      obtain ⟨ignored, fetchedAt, batch, current, _⟩ := step_offer done
      have inv : OfferInvariant server.store server.now server.nextExecutor server.pool
        (.offering ignored fetchedAt batch) server.starts := current ▸ inv
      rw [poolAfter, current]
      exact (inv.tryOffer_induction (P := fun pool => executorId ∉ pool.executorIds) systemNow pick
        absent absent (fun _ _ _ _ absent _ _ _ _ effect => effect.queues.absent absent)
        fun _ _ _ _ absent _ effect => effect.queues.absent absent).1
  | recordStarts =>
      obtain ⟨_, _, current, _⟩ := step_recordStarts done
      rw [poolAfter, current]
      exact absent
  | forget =>
      obtain ⟨_, current, _⟩ := step_forget done
      rw [poolAfter, current]
      exact absent
  | takeStarts | takeEvents => exact absent
  | _ =>
      obtain ⟨_, effect⟩ := server.pool.cancelExecutionIds_releases (Action.cancelledIds server _)
      exact effect.queues.absent absent

end ServerState

/-- An executor that is gone does not come back. -/
theorem Gone.step {server after : ServerState} {action : Action} {executorId : ExecutorId}
    (gone : Gone server executorId) (inv : server.offerInvariant)
    (done : server.step action = some after) : Gone after executorId := by
  obtain same | ⟨rfl, next⟩ := ServerState.step_nextExecutor done
  · by_cases connects : action = .connect
    · subst connects
      cases done
      exact absurd same (Nat.succ_ne_self _)
    · exact ⟨same ▸ gone.1, ServerState.step_absent inv done connects gone.2⟩
  · refine ⟨next ▸ Nat.lt_succ_of_lt gone.1, ?_⟩
    cases done
    have others := gone.2
    simp only [ExecutorPool.executorIds, ExecutorPool.addExecutor, ExecutorPool.send_executors,
      List.map_append, List.mem_append, List.map_singleton, List.mem_singleton, not_or] at others ⊢
    exact ⟨others, Nat.ne_of_lt gone.1⟩

/-- The time of the execution is over if it is still in progress. -/
def Overdue (store : Store) (time : Time) (id : ExecutionId) : Prop :=
  ∀ row ∈ store.executions.rows, row.id = id → row.status = .inProgress →
    ∀ job ∈ store.jobs.rows, job.id = row.jobId → ∀ executorId,
      timedOut time (PostgresBackend.inProgressExecution store executorId (row, job)) = true

theorem timedOut_later {time later : Time} {execution : InProgressExecution} (order : time ≤ later)
    (ended : timedOut time execution = true) : timedOut later execution = true := by
  unfold timedOut at *
  simp only [Bool.and_eq_true, decide_eq_true_eq] at *
  exact ⟨ended.1, Int.lt_of_lt_of_le ended.2 order⟩

/-- The next batch can contain the execution. -/
def Ahead (last : Option ExecutionId) (id : ExecutionId) : Prop :=
  ∀ previous ∈ last, previous < id

/-- The execution will be fetched, or was and will be failed. -/
def TimeoutsLoop.WillFail (server : ServerState) (executorId : ExecutorId) (id : ExecutionId) :
    TimeoutsLoop → Prop
  | .fetching last => Ahead last id
  | .checking last now unchecked timedOutExecutions orphaned =>
      Ahead last id ∨ id ∈ failureIds timedOutExecutions ∨ id ∈ failureIds orphaned ∨
        ∃ execution ∈ unchecked, execution.executionId = id ∧ execution.executorId = executorId ∧
          (Gone server executorId ∨ timedOut now execution = true)
  | .timingOut last call _ orphaned => Ahead last id ∨ id ∈ call.ids ∨ id ∈ failureIds orphaned
  | .cancelling last _ orphaned => Ahead last id ∨ id ∈ failureIds orphaned
  | .failingOrphaned last call => Ahead last id ∨ id ∈ call.ids

theorem mem_retryExecutions_ids (systemNow : Nat → Time) {executions : List MaybeRetryExecution}
    {id : ExecutionId} (member : id ∈ failureIds executions) :
    id ∈ (retryExecutions systemNow executions).ids := by
  obtain ⟨execution, present, rfl⟩ := List.mem_map.mp member
  rw [retryExecutions, RetryCall.ids, List.mem_append]
  cases retries : execution.retries with
  | false =>
      refine .inl (List.mem_map_of_mem (List.mem_map_of_mem (List.mem_filter.mpr ⟨present, ?_⟩)))
      simp [retries]
  | true =>
      obtain ⟨k, inside, same⟩ := List.mem_iff_getElem.mp (List.mem_filter.mpr ⟨present, retries⟩)
      exact .inr (List.mem_map.mpr ⟨_, List.mem_mapIdx.mpr ⟨k, inside, rfl⟩, by rw [same]; rfl⟩)

/-- A call ends the executions that it names, some of them with its second part. -/
theorem RetryCall.ends {call : RetryCall} {store after : Store} {now : Time} {pick : Pick}
    {id : ExecutionId} (done : (call.operation now pick).apply store = some after)
    (known : id < store.nextUuid) (named : id ∈ call.ids) :
    NotActive after id ∨ ∃ rest, call.rest = some rest ∧ id ∈ rest.ids := by
  cases call with
  | failing failedExecutions retriedExecutions =>
      cases done
      obtain failed | retried := List.mem_append.mp named
      · exact .inl (executionsFailed_notActive known failed)
      · exact .inr ⟨_, rfl, retried⟩
  | retrying retriedExecutions => exact .inl (executionsRetried_notActive done known named)

/-- A checked execution whose executor is gone or whose time is over will be failed. -/
theorem checkExecution_fails {server : ServerState} {now : Time} {execution : InProgressExecution}
    (timedOutExecutions orphaned : List MaybeRetryExecution)
    (doomed : Gone server execution.executorId ∨ timedOut now execution = true) :
    execution.executionId ∈ failureIds
        (ServerState.checkExecution server.pool now execution timedOutExecutions orphaned).1 ∨
      execution.executionId ∈ failureIds
        (ServerState.checkExecution server.pool now execution timedOutExecutions orphaned).2 := by
  unfold ServerState.checkExecution
  split
  · rename_i connected
    have ended : timedOut now execution = true := doomed.resolve_left fun gone =>
      gone.2 ((executorExists_iff ..).mp connected)
    rw [if_pos ended]
    simp [failureIds, failedInProgress]
  · simp [failureIds, failedInProgress]

theorem checkExecution_keeps {pool : ExecutorPool} {now : Time} {execution : InProgressExecution}
    {timedOutExecutions orphaned : List MaybeRetryExecution} {id : ExecutionId} :
    (id ∈ failureIds timedOutExecutions →
      id ∈ failureIds (ServerState.checkExecution pool now execution timedOutExecutions orphaned).1) ∧
    (id ∈ failureIds orphaned →
      id ∈ failureIds (ServerState.checkExecution pool now execution timedOutExecutions orphaned).2) := by
  unfold ServerState.checkExecution
  simp only [failureIds]
  split
  · split
    · refine ⟨fun member => ?_, fun member => member⟩
      exact List.map_append ▸ List.mem_append_left _ member
    · exact ⟨fun member => member, fun member => member⟩
  · refine ⟨fun member => member, fun member => ?_⟩
    exact List.map_append ▸ List.mem_append_left _ member

theorem TimeoutsLoop.WillFail.mono {server after : ServerState} {executorId : ExecutorId}
    {id : ExecutionId} {timeouts : TimeoutsLoop}
    (stays : Gone server executorId → Gone after executorId)
    (will : timeouts.WillFail server executorId id) : timeouts.WillFail after executorId id := by
  cases timeouts with
  | checking last now unchecked timedOutExecutions orphaned =>
      obtain ahead | failing | orphan | ⟨execution, member, same, executor, doomed⟩ := will
      · exact .inl ahead
      · exact .inr (.inl failing)
      · exact .inr (.inr (.inl orphan))
      · exact .inr (.inr (.inr ⟨execution, member, same, executor, doomed.imp_left stays⟩))
  | fetching | timingOut | cancelling | failingOrphaned => exact will

/-- The execution is over, or runs and will be failed in this pass. -/
structure SweepInvariant (executorId : ExecutorId) (id : ExecutionId) (lost : Prop)
    (server : ServerState) : Prop where
  offers : server.offerInvariant
  assigned : Assigned server.store
  gone : lost → Gone server executorId
  fate : NotActive server.store id ∨
    Runs server.store executorId id ∧ server.timeouts.WillFail server executorId id

/-- The timeouts loop gives up a call. -/
def Action.givesUpTimeouts : Action → Bool
  | .giveUpTimeouts => true
  | _ => false

/-- The loop gives up no call, and the executor is lost or the execution is overdue
whenever a batch is fetched. -/
def Doomed (lost : Prop) (time : Time) (id : ExecutionId) (server : ServerState)
    (action : Action) : Prop :=
  action.givesUpTimeouts = false ∧ (lost ∨ ∀ systemNow, action = .fetchInProgress systemNow →
    time ≤ systemNow ∧ Overdue server.store time id)

namespace SweepInvariant

variable {executorId : ExecutorId} {id : ExecutionId} {lost : Prop} {time : Time}
  {server after : ServerState} {action : Action}

/-- A fetched batch contains the execution, or it is still ahead. -/
theorem fetches (inv : SweepInvariant executorId id lost server) {last : Option ExecutionId}
    (running : Runs server.store executorId id) (ahead : Ahead last id) {systemNow : Time}
    (doomed : lost ∨ time ≤ systemNow ∧ Overdue server.store time id) :
    (TimeoutsLoop.checking ((PostgresBackend.inProgressExecutions server.store last).getLast?.map
      InProgressExecution.executionId) systemNow
      (PostgresBackend.inProgressExecutions server.store last) [] []).WillFail server executorId
      id := by
  obtain ⟨row, member, rfl, inProgress, executor⟩ := running
  obtain ⟨execution, fetched, job, present, owner, assigned, same⟩ | ⟨final, isLast, before⟩ :=
    PostgresBackend.inProgressExecutions_complete inv.assigned member inProgress ahead
  · rw [executor, Option.some.injEq] at assigned
    refine .inr (.inr (.inr ⟨execution, fetched, by rw [same]; rfl, assigned.symm, ?_⟩))
    refine doomed.imp inv.gone fun ⟨order, overdue⟩ => ?_
    rw [same]
    exact timedOut_later order (overdue row member rfl inProgress job present owner _)
  · refine .inl fun previous listed => ?_
    obtain ⟨other, found, rfl⟩ := Option.mem_map.mp listed
    rw [Option.mem_unique found isLast]
    exact before

theorem checks {last : Option ExecutionId} {now : Time} {execution : InProgressExecution}
    {unchecked : List InProgressExecution} {timedOutExecutions orphaned : List MaybeRetryExecution}
    (will : (TimeoutsLoop.checking last now (execution :: unchecked) timedOutExecutions
      orphaned).WillFail server executorId id) :
    (TimeoutsLoop.checking last now unchecked
      (ServerState.checkExecution server.pool now execution timedOutExecutions orphaned).1
      (ServerState.checkExecution server.pool now execution timedOutExecutions
        orphaned).2).WillFail server executorId id := by
  obtain ahead | failing | orphan | ⟨other, member, same, executor, doomed⟩ := will
  · exact .inl ahead
  · exact .inr (.inl (checkExecution_keeps.1 failing))
  · exact .inr (.inr (.inl (checkExecution_keeps.2 orphan)))
  · obtain rfl | later := List.mem_cons.mp member
    · subst same executor
      refine .inr ((checkExecution_fails timedOutExecutions orphaned doomed).imp_right .inl)
    · exact .inr (.inr (.inr ⟨other, later, same, executor, doomed⟩))

/-- A committed call ends the execution that it names, or names it again. -/
theorem commits {motive : TimeoutsLoop → Prop} {call : RetryCall} {store : Store} {now : Time}
    {pick : Pick} {retry : RetryCall → TimeoutsLoop} {finished : TimeoutsLoop}
    (known : id < server.store.nextUuid)
    (done : (call.operation now pick).apply server.store = some store)
    (named : ∀ call : RetryCall, id ∈ call.ids → motive (retry call))
    (will : (∀ call, motive (retry call)) ∧ motive finished ∨ id ∈ call.ids)
    (acknowledged : Bool) : NotActive store id ∨
      motive (ServerState.afterCommit call call.rest acknowledged retry finished) := by
  obtain ⟨always, last⟩ | member := will
  · exact .inr (ServerState.afterCommit_induction (always call) (fun rest _ => always rest) last _)
  · refine (call.ends done known member).imp_right fun ⟨rest, left, again⟩ => ?_
    rw [left, ServerState.afterCommit]
    split
    · exact named rest again
    · exact named call member

theorem step (inv : SweepInvariant executorId id lost server)
    (doomed : Doomed lost time id server action) (done : server.step action = some after) :
    SweepInvariant executorId id lost after := by
  have issued : Issued server.store := inv.offers.issued
  have stays : Gone server executorId → Gone after executorId := fun gone =>
    gone.step inv.offers done
  refine ⟨ServerState.offerInvariant_step inv.offers done,
    ServerState.step_assigned inv.assigned done, fun isLost => stays (inv.gone isLost), ?_⟩
  obtain ended | ⟨running, will⟩ := inv.fate
  · exact .inl ((ServerState.step_evolves done).notActive ended)
  have runs : Runs after.store executorId id ∨ NotActive after.store id := by
    obtain same | ⟨operation, _, applied⟩ := ServerState.step_operation done
    · exact .inl (same ▸ running)
    · exact running.stays issued applied
  obtain runs | ended := runs
  swap
  · exact .inl ended
  have known : id < server.store.nextUuid := by
    obtain ⟨row, member, rfl, _⟩ := running
    exact issued.executions row member
  suffices next : NotActive after.store id ∨ after.timeouts.WillFail server executorId id from
    next.imp_right fun will => ⟨runs, will.mono stays⟩
  cases action with
  | fetchInProgress systemNow =>
      obtain ⟨last, current, rfl | rfl⟩ := ServerState.step_fetchInProgress done
      · exact .inr (fun _ none => by cases none)
      · rw [current] at will
        exact .inr (inv.fetches running will (doomed.2.imp_right fun when => when systemNow rfl))
  | checkInProgress =>
      obtain ⟨_, _, _, _, _, _, current, rfl⟩ := ServerState.step_checkInProgress done
      rw [current] at will
      exact .inr (checks will)
  | startTimingOut systemNow =>
      obtain ⟨_, _, _, _, current, rfl⟩ := ServerState.step_startTimingOut done
      rw [current] at will
      obtain ahead | failing | orphan | ⟨_, member, _⟩ := will
      · exact .inr (.inl ahead)
      · exact .inr (.inr (.inl (mem_retryExecutions_ids systemNow failing)))
      · exact .inr (.inr (.inr orphan))
      · cases member
  | commitTimedOut now pick acknowledged =>
      obtain ⟨last, call, ids, orphaned, store, current, applied, rfl⟩ :=
        ServerState.step_commitTimedOut done
      rw [current] at will
      have named : ∀ call : RetryCall, id ∈ call.ids →
          (TimeoutsLoop.timingOut last call ids orphaned).WillFail server executorId id :=
        fun call member => .inr (.inl member)
      refine commits known applied named ?_ acknowledged
      obtain ahead | member | orphan := will
      · exact .inl ⟨fun _ => .inl ahead, .inl ahead⟩
      · exact .inr member
      · exact .inl ⟨fun _ => .inr (.inr orphan), .inr orphan⟩
  | cancelTimedOut systemNow =>
      obtain ⟨_, _, _, current, rfl⟩ := ServerState.step_cancelTimedOut done
      rw [current] at will
      exact .inr (will.imp_right (mem_retryExecutions_ids systemNow))
  | commitOrphaned now pick acknowledged =>
      obtain ⟨last, call, store, current, applied, rfl⟩ := ServerState.step_commitOrphaned done
      rw [current] at will
      have named : ∀ call : RetryCall, id ∈ call.ids →
          (TimeoutsLoop.failingOrphaned last call).WillFail server executorId id :=
        fun call member => .inr member
      refine commits known applied named ?_ acknowledged
      exact will.imp_left fun ahead => ⟨fun _ => .inl ahead, ahead⟩
  | fetchInProgressFails =>
      obtain ⟨_, _, rfl⟩ := ServerState.step_fetchInProgressFails done
      exact .inr (fun _ none => by cases none)
  | giveUpTimeouts => cases doomed.1
  | _ =>
      have same := (ServerState.step_loops done).2.2.1 rfl
      exact .inr (same ▸ will)

end SweepInvariant

/-- When a pass of the timeouts loop ends, an execution that was in progress at
its start is over if its executor was gone at the start, or if it was overdue by
the clock of each batch, whatever the other loops, the executors and the clients
do meanwhile. -/
theorem doomed_execution_ends {start server : ServerState} {executorId : ExecutorId}
    {id : ExecutionId} {time : Time} {last : Option ExecutionId}
    (offers : start.offerInvariant) (assigned : Assigned start.store)
    (passStarts : start.timeouts = .fetching none) (running : Runs start.store executorId id)
    (run : Reaches ServerState.step (Doomed (Gone start executorId) time id) start server)
    (fetches : server.timeouts = .fetching last)
    (passEnds : PostgresBackend.inProgressExecutions server.store last = []) :
    NotActive server.store id := by
  have inv : SweepInvariant executorId id (Gone start executorId) server := by
    refine run.invariant (fun _ _ _ inv doomed done => inv.step doomed done)
      ⟨offers, assigned, fun gone => gone, .inr ⟨running, ?_⟩⟩
    rw [passStarts]
    exact fun _ none => by cases none
  obtain ended | ⟨runs, will⟩ := inv.fate
  · exact ended
  · rw [fetches] at will
    obtain ⟨row, member, rfl, inProgress, _⟩ := runs
    obtain ⟨_, fetched, _⟩ | ⟨_, isLast, _⟩ :=
      PostgresBackend.inProgressExecutions_complete inv.assigned member inProgress will
    · rw [passEnds] at fetched
      cases fetched
    · rw [passEnds] at isLast
      cases isLast

theorem assigned_of_reaches {server : ServerState}
    (run : Reaches ServerState.step (fun _ _ => True) .initial server) : Assigned server.store := by
  induction run with
  | refl => simp [Assigned, ServerState.initial, Store.empty]
  | tail _ _ taken ih => exact ServerState.step_assigned ih taken

/-- The pass in which the only execution is found without its executor. -/
def orphanPass : List Action :=
  [.fetchInProgress 1, .checkInProgress, .startTimingOut (fun _ => 1), .commitTimedOut 1 (fun _ => 0) true,
    .commitTimedOut 1 (fun _ => 0) true, .cancelTimedOut (fun _ => 1), .commitOrphaned 1 (fun _ => 0) true,
    .commitOrphaned 1 (fun _ => 0) true]

/-- The orphaned execution `1` is over and was retried as `2`. -/
theorem doomed_execution_ends_orphanPass :
    ∃ server : ServerState,
      server.store.executions.rows.map ExecutionRow.status = [.failed, .pending] ∧
      NotActive server.store 1 := by
  obtain ⟨start, before, checked⟩ := exists_reaches_of_execute ServerState.step (fun _ _ => True)
    .initial (assigned ++ startAccepted ++ [.disconnect 0])
    (fun start => (start.timeouts == .fetching none && decide (0 < start.nextExecutor) &&
      !start.pool.executorIds.contains 0 && start.store.executions.rows.any fun row =>
        row.id == 1 && row.status == .inProgress && row.executorId == some 0) &&
      (execute ServerState.step (fun _ action => action.givesUpTimeouts = false) start
        orphanPass).any fun server =>
        server.store.executions.rows.map ExecutionRow.status == [.failed, .pending] &&
          server.timeouts == .fetching (some 1) &&
          (PostgresBackend.inProgressExecutions server.store (some 1)).isEmpty)
    (by decide)
  simp only [Bool.and_eq_true, beq_iff_eq, decide_eq_true_eq, List.any_eq_true] at checked
  obtain ⟨⟨⟨⟨passStarts, connected⟩, left⟩, row, member, ⟨id, inProgress⟩, executor⟩, pass⟩ := checked
  obtain ⟨server, run, ended⟩ := exists_reaches_of_execute ServerState.step
    (fun _ action => action.givesUpTimeouts = false) start orphanPass _ pass
  simp only [Bool.and_eq_true, beq_iff_eq, List.isEmpty_iff] at ended
  obtain ⟨⟨statuses, fetches⟩, passEnds⟩ := ended
  refine ⟨server, statuses, @doomed_execution_ends start server 0 1 0 (some 1) ?_ ?_ passStarts
    ⟨row, member, id, inProgress, executor⟩ (run.mono fun _ _ kept => ⟨kept, .inl ?_⟩) fetches passEnds⟩
  · exact before.invariant (fun _ _ _ inv _ done => ServerState.offerInvariant_step inv done)
      ServerState.offerInvariant_initial
  · exact assigned_of_reaches before
  · exact ⟨connected, by simpa using left⟩

end Ora.Server
