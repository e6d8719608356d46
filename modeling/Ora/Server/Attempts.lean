import Ora.Postgres.RetryBudget
import Ora.Server.Offers

/-!
# Attempts

What the loops and the pool remember of an execution agrees with the store: its
job, the retry policy of the job, and its position among the executions of the
job as the attempt number.  This keeps every job within its retry budget.
-/

namespace Ora.Server

open Ora.Backend
open Ora.Library
open Ora.Postgres (Store Pick Operation Evolves Issued JobInvariant WithinBudget position
  CarriesJobs RetriesLeft ExecutionRow JobRow)
open Ora.Postgres.PostgresBackend (executionCount)

def Attempt.ofInProgress (execution : InProgressExecution) : Attempt :=
  ⟨execution.executionId, execution.jobId, execution.retryPolicy, execution.attemptNumber⟩

def Attempt.ofFailure (execution : MaybeRetryExecution) : Attempt :=
  ⟨execution.execution.executionId, execution.execution.jobId, execution.retryPolicy,
    execution.attemptNumber⟩

/-- What is remembered of an execution agrees with its row while it is stored. -/
structure Counted (store : Store) (attempt : Attempt) : Prop where
  issued : attempt.executionId < store.nextUuid
  row : ∀ row ∈ store.executions.rows, row.id = attempt.executionId →
    row.jobId = attempt.jobId ∧ position store row = attempt.attemptNumber ∧
      ∀ job ∈ store.jobs.rows, job.id = row.jobId → job.retryPolicyJson = attempt.retryPolicy

namespace Counted

variable {store after : Store} {attempt : Attempt}

/-- The number of executions of a job is the position of its active one. -/
theorem of_active (inv : JobInvariant store) {row : ExecutionRow} {job : JobRow}
    (member : row ∈ store.executions.rows) (active : row.active = true)
    (present : job ∈ store.jobs.rows) (same : job.id = row.jobId) :
    Counted store ⟨row.id, job.id, job.retryPolicyJson, executionCount store job.id⟩ where
  issued := inv.issuedExecutions row member
  row other otherMember otherId := by
    cases store.executions.eq_of_key otherMember member otherId
    refine ⟨same.symm, ?_, ?_⟩
    · rw [inv.position_of_active member active, same]
    · intro owner ownerMember ownerId
      rw [store.jobs.eq_of_key ownerMember present (ownerId.trans same.symm)]

theorem evolves (counted : Counted store attempt) (issued : Issued store)
    (effect : Evolves store after) : Counted after attempt where
  issued := Nat.lt_of_lt_of_le counted.issued effect.next
  row row member id := by
    obtain ⟨before, present, succeeds⟩ := effect.exists_before member (id ▸ counted.issued)
    have sameId := succeeds.id.symm
    have sameJob := succeeds.jobId.symm
    obtain ⟨jobId, number, policy⟩ := counted.row before present (sameId.trans id)
    refine ⟨sameJob.symm.trans jobId, ?_, ?_⟩
    · rw [effect.position issued present member sameId sameJob]
      exact number
    · intro job jobMember owner
      rcases effect.jobs job jobMember with ⟨old, oldMember, oldId, oldPolicy⟩ | fresh
      · rw [← oldPolicy]
        exact policy old oldMember (by rw [oldId, owner, sameJob])
      · obtain ⟨known, knownMember, knownId⟩ := store.execution_job before present
        have below := issued.jobs known knownMember
        rw [knownId, sameJob, ← owner] at below
        exact absurd below (Nat.not_lt.mpr fresh.1)

end Counted

def Attempt.names (attempt : Attempt) (execution : FailedExecution) : Prop :=
  attempt.executionId = execution.executionId ∧ attempt.jobId = execution.jobId

/-- The executions that fail for good have no retries left. -/
def FailuresFinal (store : Store) (executions : List FailedExecution) : Prop :=
  ∀ execution ∈ executions, ∃ attempt, Counted store attempt ∧ attempt.names execution ∧
    attempt.retryPolicy.retries < attempt.attemptNumber

/-- The executions that are retried have retries left. -/
def RetriesCounted (store : Store) (executions : List RetriedExecution) : Prop :=
  ∀ execution ∈ executions, ∃ attempt, Counted store attempt ∧
    attempt.names execution.failedExecution ∧ attempt.attemptNumber ≤ attempt.retryPolicy.retries

def RetryCall.Sound (store : Store) : RetryCall → Prop
  | .failing failedExecutions retriedExecutions =>
      FailuresFinal store failedExecutions ∧ RetriesCounted store retriedExecutions
  | .retrying retriedExecutions => RetriesCounted store retriedExecutions

namespace RetryCall

variable {store after : Store} {call : RetryCall}

theorem retryExecutions_sound {executions : List MaybeRetryExecution}
    (counted : ∀ execution ∈ executions, Counted store (.ofFailure execution)) (systemNow : Nat → Time) :
    (retryExecutions systemNow executions).Sound store := by
  constructor
  · intro failed member
    obtain ⟨execution, present, rfl⟩ := List.mem_map.mp member
    obtain ⟨listed, exhausted⟩ := List.mem_filter.mp present
    refine ⟨.ofFailure execution, counted execution listed, ⟨rfl, rfl⟩, ?_⟩
    simp only [MaybeRetryExecution.retries, Bool.not_eq_true', decide_eq_false_iff_not,
      Nat.not_le] at exhausted
    exact exhausted
  · intro retried member
    obtain ⟨k, inside, rfl⟩ := List.mem_mapIdx.mp member
    obtain ⟨listed, left⟩ := List.mem_filter.mp (List.getElem_mem inside)
    exact ⟨.ofFailure _, counted _ listed, ⟨rfl, rfl⟩, of_decide_eq_true left⟩

theorem Sound.evolves (sound : call.Sound store) (issued : Issued store)
    (effect : Evolves store after) : call.Sound after := by
  have retried : ∀ executions, RetriesCounted store executions → RetriesCounted after executions := by
    intro executions counted execution member
    obtain ⟨attempt, known, facts⟩ := counted execution member
    exact ⟨attempt, known.evolves issued effect, facts⟩
  cases call with
  | failing failedExecutions retriedExecutions =>
      refine ⟨?_, retried retriedExecutions sound.2⟩
      intro execution member
      obtain ⟨attempt, known, facts⟩ := sound.1 execution member
      exact ⟨attempt, known.evolves issued effect, facts⟩
  | retrying retriedExecutions => exact retried retriedExecutions sound

theorem Sound.rest (sound : call.Sound store) : ∀ rest ∈ call.rest, rest.Sound store := by
  cases call with
  | failing failedExecutions retriedExecutions =>
      rintro _ ⟨rfl⟩
      exact sound.2
  | retrying retriedExecutions =>
      rintro _ ⟨⟩

/-- The call carries the jobs of its executions, and retries those that may be. -/
theorem Sound.operation (sound : call.Sound store) (now : Time) (pick : Pick) :
    (call.operation now pick).carriesJobs store ∧ (call.operation now pick).retriesLeft store := by
  cases call with
  | failing failedExecutions retriedExecutions =>
      refine ⟨?_, trivial⟩
      intro execution member row present id
      obtain ⟨attempt, counted, ⟨sameId, sameJob⟩, _⟩ := sound.1 execution member
      rw [← sameJob]
      exact (counted.row row present (id.trans sameId.symm)).1
  | retrying retriedExecutions =>
      refine ⟨?_, ?_⟩
      · intro failed member row present id
        obtain ⟨execution, listed, rfl⟩ := List.mem_map.mp member
        obtain ⟨attempt, counted, ⟨sameId, sameJob⟩, _⟩ := sound execution listed
        rw [← sameJob]
        exact (counted.row row present (id.trans sameId.symm)).1
      · intro execution member row present id job jobMember owner
        obtain ⟨attempt, counted, ⟨sameId, _⟩, left⟩ := sound execution member
        obtain ⟨_, number, policy⟩ := counted.row row present (id.trans sameId.symm)
        rw [number, policy job jobMember owner]
        exact left

end RetryCall

def EventsLoop.Sound (store : Store) : EventsLoop → Prop
  | .idle => True
  | .waiting _ _ maybeRetryExecutions =>
      ∀ execution ∈ maybeRetryExecutions, Counted store (.ofFailure execution)
  | .succeeding _ maybeRetryExecutions =>
      ∀ execution ∈ maybeRetryExecutions, Counted store (.ofFailure execution)
  | .retrying call => call.Sound store

def TimeoutsLoop.Sound (store : Store) : TimeoutsLoop → Prop
  | .fetching _ => True
  | .checking _ _ unchecked timedOut orphaned =>
      (∀ execution ∈ unchecked, Counted store (.ofInProgress execution)) ∧
        (∀ execution ∈ timedOut, Counted store (.ofFailure execution)) ∧
        ∀ execution ∈ orphaned, Counted store (.ofFailure execution)
  | .timingOut _ call _ orphaned =>
      call.Sound store ∧ ∀ execution ∈ orphaned, Counted store (.ofFailure execution)
  | .cancelling _ _ orphaned => ∀ execution ∈ orphaned, Counted store (.ofFailure execution)
  | .failingOrphaned _ call => call.Sound store

theorem EventsLoop.Sound.evolves {results : EventsLoop} {store after : Store}
    (sound : results.Sound store) (issued : Issued store) (effect : Evolves store after) :
    results.Sound after := by
  have counted := fun attempt (known : Counted store attempt) => known.evolves issued effect
  cases results with
  | idle => trivial
  | waiting _ _ _ => exact fun execution member => counted _ (sound execution member)
  | succeeding _ _ => exact fun execution member => counted _ (sound execution member)
  | retrying call => exact RetryCall.Sound.evolves sound issued effect

theorem TimeoutsLoop.Sound.evolves {timeouts : TimeoutsLoop} {store after : Store}
    (sound : timeouts.Sound store) (issued : Issued store) (effect : Evolves store after) :
    timeouts.Sound after := by
  have counted := fun attempt (known : Counted store attempt) => known.evolves issued effect
  cases timeouts with
  | fetching _ => trivial
  | checking _ _ _ _ _ =>
      exact ⟨fun execution member => counted _ (sound.1 execution member),
        fun execution member => counted _ (sound.2.1 execution member),
        fun execution member => counted _ (sound.2.2 execution member)⟩
  | timingOut _ _ _ _ =>
      exact ⟨sound.1.evolves issued effect, fun execution member =>
        counted _ (sound.2 execution member)⟩
  | cancelling _ _ _ => exact fun execution member => counted _ (sound execution member)
  | failingOrphaned _ _ => exact RetryCall.Sound.evolves sound issued effect

/-- What is left after a call was given up was there before. -/
theorem TimeoutsLoop.giveUp_sound {timeouts after : TimeoutsLoop} {store : Store}
    (sound : timeouts.Sound store) (given : timeouts.giveUp = some after) : after.Sound store := by
  cases timeouts with
  | timingOut last call ids orphaned =>
      cases given
      refine ServerState.afterCommit_induction (motive := TimeoutsLoop.Sound store) ?_ ?_ ?_ true
      · exact sound
      · exact fun rest left => ⟨sound.1.rest rest left, sound.2⟩
      · exact sound.2
  | failingOrphaned last call =>
      cases given
      have called : call.Sound store := sound
      refine ServerState.afterCommit_induction (motive := TimeoutsLoop.Sound store) ?_ ?_ ?_ true
      · exact called
      · exact called.rest
      · trivial
  | fetching | checking | cancelling => cases given

/-- The pool holds, reports and offers executions with their attempt numbers. -/
structure PoolCounted (store : Store) (pool : ExecutorPool) : Prop where
  held : ∀ entry ∈ pool.held, Counted store (.ofExecutor entry.2)
  events : ∀ event ∈ pool.events, ∀ execution ∈ event.executions,
    Counted store (.ofExecutor execution)
  offered : ∀ executorId jobId id jobTypeId attemptNumber inputPayloadJson targetExecutionTime,
    .sent executorId (.executionReady jobId id jobTypeId attemptNumber inputPayloadJson
      targetExecutionTime) ∈ pool.history →
    ∃ retryPolicy, Counted store ⟨id, jobId, retryPolicy, attemptNumber⟩

namespace PoolCounted

variable {store later : Store} {pool after : ExecutorPool}

theorem evolves (counted : PoolCounted store pool) (issued : Issued store)
    (effect : Evolves store later) : PoolCounted later pool where
  held entry member := (counted.held entry member).evolves issued effect
  events event member execution named :=
    (counted.events event member execution named).evolves issued effect
  offered executorId jobId id jobTypeId attemptNumber inputPayloadJson targetExecutionTime sent := by
    obtain ⟨retryPolicy, known⟩ := counted.offered executorId jobId id jobTypeId attemptNumber
      inputPayloadJson targetExecutionTime sent
    exact ⟨retryPolicy, known.evolves issued effect⟩

/-- No execution is offered by the new events. -/
theorem offered_append {new : List PoolEvent} (counted : PoolCounted store pool)
    (after : ExecutorPool) (history : after.history = pool.history ++ new)
    (quiet : ∀ executorId message, .sent executorId message ∈ new → message.offered? = none) :
    ∀ executorId jobId id jobTypeId attemptNumber inputPayloadJson targetExecutionTime,
      .sent executorId (.executionReady jobId id jobTypeId attemptNumber inputPayloadJson
        targetExecutionTime) ∈ after.history →
      ∃ retryPolicy, Counted store ⟨id, jobId, retryPolicy, attemptNumber⟩ := by
  intro executorId jobId id jobTypeId attemptNumber inputPayloadJson targetExecutionTime sent
  rw [history, List.mem_append] at sent
  rcases sent with old | fresh
  · exact counted.offered executorId jobId id jobTypeId attemptNumber inputPayloadJson
      targetExecutionTime old
  · cases quiet executorId _ fresh

theorem releases {removed : List (ExecutorId × ExecutorExecution)}
    (counted : PoolCounted store pool) (effect : pool.Releases removed after) :
    PoolCounted store after := by
  obtain ⟨rest, before, _⟩ := effect.queues.kept
  obtain ⟨reported, events, known⟩ := effect.events
  obtain ⟨sent, history, quiet⟩ := effect.history
  have kept : ∀ entry ∈ removed ++ rest, Counted store (.ofExecutor entry.2) :=
    fun entry member => counted.held entry (before.mem_iff.mpr member)
  refine ⟨?_, ?_, counted.offered_append after history ?_⟩
  · exact fun entry member => counted.held entry (effect.held entry member)
  · intro event member execution named
    rw [events, List.mem_append] at member
    rcases member with old | new
    · exact counted.events event old execution named
    · obtain ⟨_, executorId, gone⟩ := known event new execution named
      exact kept _ (List.mem_append_left _ gone)
  · intro executorId message member
    simpa [PoolEvent.quiet] using quiet _ member

theorem accepts {executorId : ExecutorId} {execution : ExecutorExecution}
    (counted : PoolCounted store pool) (effect : pool.Accepts executorId execution after) :
    PoolCounted store after := by
  obtain ⟨rest, before, left⟩ := effect.queues.kept
  refine ⟨?_, by rw [effect.events]; exact counted.events,
    counted.offered_append after effect.history (by simp)⟩
  intro entry member
  rcases List.mem_cons.mp (left.mem_iff.mp member) with rfl | other
  · exact counted.held (executorId, execution) (before.mem_iff.mpr (List.mem_cons_self ..))
  · exact counted.held entry (before.mem_iff.mpr (List.mem_cons_of_mem _ other))

theorem offers {executorId : ExecutorId} {execution : ExecutorExecution}
    (counted : PoolCounted store pool) (effect : pool.Offers executorId execution after)
    (known : Counted store (.ofExecutor execution)) : PoolCounted store after := by
  obtain ⟨rest, before, left⟩ := effect.queues.kept
  obtain ⟨_, _, history⟩ := effect.history
  refine ⟨?_, by rw [effect.events]; exact counted.events, ?_⟩
  · intro entry member
    rcases List.mem_cons.mp (left.mem_iff.mp member) with rfl | other
    · exact known
    · exact counted.held entry (before.mem_iff.mpr other)
  · intro otherId jobId id jobTypeId attemptNumber inputPayloadJson targetExecutionTime sent
    rw [history, List.mem_append, List.mem_singleton] at sent
    rcases sent with old | fresh
    · exact counted.offered otherId jobId id jobTypeId attemptNumber inputPayloadJson
        targetExecutionTime old
    · cases fresh
      exact ⟨_, known⟩

/-- A fetched batch agrees with the store, so do the offers made of it. -/
theorem offersBatch {now fetchedAt : Instant} {nextExecutor : ExecutorId} {starts : StartsLoop}
    {ignored : List ExecutionId} {batch : List ReadyExecution} (counted : PoolCounted store pool)
    (offering : OfferInvariant store now nextExecutor pool (.offering ignored fetchedAt batch) starts)
    (listed : ∀ execution ∈ batch, Counted store (.ofReady execution)) (systemNow : Time)
    (pick : ExecutionId → Nat) :
    PoolCounted store (pool.tryOffer now systemNow pick batch fetchedAt).1 := by
  refine (offering.tryOffer_induction (P := PoolCounted store) systemNow pick counted ?_ ?_ ?_).1
  · exact ⟨counted.held, counted.events, counted.offered⟩
  · intro before after executorId entry counted _ fetched _ _ effect
    obtain ⟨execution, member, same⟩ := fetched
    exact counted.offers effect (same ▸ listed execution member)
  · intro before after executorId entry counted _ effect
    exact counted.accepts effect

end PoolCounted

structure AttemptInvariant (store : Store) (pool : ExecutorPool) (ready : ReadyLoop)
    (results : EventsLoop) (timeouts : TimeoutsLoop) : Prop where
  pool : PoolCounted store pool
  batch : ∀ execution ∈ ready.batch, Counted store (.ofReady execution)
  results : results.Sound store
  timeouts : timeouts.Sound store

namespace AttemptInvariant

variable {store later : Store} {pool after : ExecutorPool} {ready : ReadyLoop}
  {results : EventsLoop} {timeouts : TimeoutsLoop}

theorem evolves (inv : AttemptInvariant store pool ready results timeouts) (issued : Issued store)
    (effect : Evolves store later) : AttemptInvariant later pool ready results timeouts where
  pool := inv.pool.evolves issued effect
  batch execution member := (inv.batch execution member).evolves issued effect
  results := inv.results.evolves issued effect
  timeouts := inv.timeouts.evolves issued effect

theorem withPool (inv : AttemptInvariant store pool ready results timeouts)
    (counted : PoolCounted store after) : AttemptInvariant store after ready results timeouts :=
  { inv with pool := counted }

theorem releases {removed : List (ExecutorId × ExecutorExecution)}
    (inv : AttemptInvariant store pool ready results timeouts)
    (effect : pool.Releases removed after) :
    AttemptInvariant store after ready results timeouts :=
  inv.withPool (inv.pool.releases effect)

/-- The results of events are about the executions that they report. -/
theorem eventResults_counted {event : ExecutorEvent}
    (counted : ∀ execution ∈ event.executions, Counted store (.ofExecutor execution))
    (systemNow : Nat → Time) (invalidJson : String → Option String) :
    ∀ execution ∈ (eventResults systemNow invalidJson event).2,
      Counted store (.ofFailure execution) := by
  intro failure member
  cases event with
  | executionSucceeded execution timestamp outputPayloadJson =>
      simp only [eventResults] at member
      cases invalid : invalidJson outputPayloadJson with
      | some error =>
          rw [invalid] at member
          cases List.mem_singleton.mp member
          exact counted execution (List.mem_singleton.mpr rfl)
      | none =>
          rw [invalid] at member
          cases member
  | executionFailed execution timestamp failureReason =>
      cases List.mem_singleton.mp member
      exact counted execution (List.mem_singleton.mpr rfl)
  | executorDisconnected executor =>
      obtain ⟨k, inside, rfl⟩ := List.mem_mapIdx.mp member
      exact counted _ (List.getElem_mem inside)

theorem takesEvents (inv : AttemptInvariant store pool ready results timeouts) (count : Nat)
    (deadline : Instant) (systemNow : Nat → Nat → Time) (invalidJson : String → Option String) :
    let taken := (pool.events.take count).mapIdx fun k => eventResults (systemNow k) invalidJson
    AttemptInvariant store { pool with events := pool.events.drop count } ready
      (.waiting deadline (taken.flatMap Prod.fst) (taken.flatMap Prod.snd)) timeouts := by
  refine ⟨⟨inv.pool.held, ?_, inv.pool.offered⟩, inv.batch, ?_, inv.timeouts⟩
  · exact fun event member => inv.pool.events event (List.mem_of_mem_drop member)
  · intro failure member
    obtain ⟨_, result, listed⟩ := List.mem_flatMap.mp member
    obtain ⟨k, inside, rfl⟩ := List.mem_mapIdx.mp result
    have present := List.mem_of_mem_take (List.getElem_mem inside)
    exact eventResults_counted (inv.pool.events _ present) (systemNow k) invalidJson failure listed

theorem checks {last : Option ExecutionId} {now : Time} {execution : InProgressExecution}
    {unchecked : List InProgressExecution} {timedOut orphaned : List MaybeRetryExecution}
    (inv : AttemptInvariant store pool ready results
      (.checking last now (execution :: unchecked) timedOut orphaned)) :
    AttemptInvariant store pool ready results
      (.checking last now unchecked
        (ServerState.checkExecution pool now execution timedOut orphaned).1
        (ServerState.checkExecution pool now execution timedOut orphaned).2) := by
  obtain ⟨first, others⟩ := List.forall_mem_cons.mp inv.timeouts.1
  have added : ∀ reason, ∀ list : List MaybeRetryExecution,
      (∀ execution ∈ list, Counted store (.ofFailure execution)) →
      ∀ failure ∈ list ++ [failedInProgress execution now reason],
        Counted store (.ofFailure failure) := by
    intro reason list counted failure member
    rcases List.mem_append.mp member with old | new
    · exact counted failure old
    · cases List.mem_singleton.mp new
      exact first
  refine { inv with timeouts := ⟨others, ?_, ?_⟩ }
  · unfold ServerState.checkExecution
    split
    · split
      · exact added _ timedOut inv.timeouts.2.1
      · exact inv.timeouts.2.1
    · exact inv.timeouts.2.1
  · unfold ServerState.checkExecution
    split
    · split
      · exact inv.timeouts.2.2
      · exact inv.timeouts.2.2
    · exact added _ orphaned inv.timeouts.2.2

end AttemptInvariant

namespace ServerState

def attemptInvariant (server : ServerState) : Prop :=
  AttemptInvariant server.store server.pool server.ready server.results server.timeouts

variable {server after : ServerState} {action : Action}

/-- What the loops and the pool remember after a step agrees with the store before it. -/
theorem attemptInvariant_loops (inv : server.attemptInvariant) (offers : server.offerInvariant)
    (jobs : JobInvariant server.store) (done : server.step action = some after) :
    AttemptInvariant server.store after.pool after.ready after.results after.timeouts := by
  have inv : AttemptInvariant server.store server.pool server.ready server.results
    server.timeouts := inv
  cases action with
  | tick elapsed =>
      cases done
      exact inv
  | connect =>
      cases done
      refine inv.withPool ⟨?_, inv.pool.events, inv.pool.offered_append
        (server.pool.addExecutor server.nextExecutor) rfl ?_⟩
      · have held : (server.pool.addExecutor server.nextExecutor).held = server.pool.held := by
          simp [ExecutorPool.held, ExecutorPool.addExecutor, ExecutorPool.send_executors,
            Executor.held, Executor.executions]
        rw [held]
        exact inv.pool.held
      · intro executorId message member
        cases List.mem_singleton.mp member
        rfl
  | message executor systemNow message =>
      cases done
      rcases server.pool.executorMessage_cases server.now systemNow executor message with
        ⟨_, effect⟩ | ⟨_, _, effect⟩
      · exact inv.releases effect
      · exact inv.withPool (inv.pool.accepts effect)
  | checkOffers executor =>
      cases done
      obtain ⟨_, _, effect⟩ :=
        server.pool.withdrawOffers_releases executor (some server.now) server.now
      exact inv.releases effect
  | disconnect executor =>
      cases done
      obtain ⟨_, effect⟩ := server.pool.dropExecutor_releases executor
      exact inv.releases effect
  | closeOutbound executor =>
      cases done
      have effect := server.pool.closeOutbound_releases executor
      exact inv.releases effect
  | addJobs now pick jobs ifNotExists =>
      obtain ⟨_, _, rfl⟩ := step_addJobs done
      exact inv
  | addSchedules now schedules ifNotExists =>
      obtain ⟨_, _, rfl⟩ := step_addSchedules done
      exact inv
  | deleteHistory deleteBatchSize before =>
      cases done
      exact inv
  | cancelJobs now systemNow pick filters =>
      cases done
      exact inv
  | stopSchedules now filters cancelActiveJobs =>
      cases done
      exact inv
  | cancelStopped index now systemNow pick =>
      obtain ⟨_, _, rfl⟩ := step_cancelStopped done
      exact inv
  | cancelRequested index =>
      obtain ⟨ids, _, rfl⟩ := step_cancelRequested done
      obtain ⟨_, effect⟩ := server.pool.cancelExecutionIds_releases ids
      exact inv.releases effect
  | startPass =>
      obtain ⟨_, rfl⟩ := step_startPass done
      exact { inv with batch := by simp [ReadyLoop.batch] }
  | readClock =>
      obtain ⟨_, _, _, rfl⟩ := step_readClock done
      exact { inv with batch := by simp [ReadyLoop.batch] }
  | fetchReady now =>
      obtain ⟨ignored, last, fetchedAt, _, rfl⟩ := step_fetchReady done
      refine { inv with batch := ?_ }
      intro execution member
      unfold fetched at member
      dsimp only at member
      split at member
      · cases member
      · obtain ⟨row, present, job, owner, same, status, rfl⟩ :=
          Postgres.PostgresBackend.mem_readyExecutions member
        exact Counted.of_active jobs present
          ((ExecutionRow.active_iff_status row).mpr (.inl status)) owner same
  | fetchFails =>
      obtain ⟨_, _, _, _, rfl⟩ := step_fetchFails done
      exact { inv with batch := by simp [ReadyLoop.batch] }
  | offer systemNow pick =>
      obtain ⟨ignored, fetchedAt, batch, current, rfl⟩ := step_offer done
      have offering : OfferInvariant server.store server.now server.nextExecutor server.pool
        server.ready server.starts := offers
      have listed : ∀ execution ∈ server.ready.batch, Counted server.store (.ofReady execution) :=
        inv.batch
      rw [current] at offering listed
      have counted := inv.pool.offersBatch offering listed systemNow pick
      refine { inv.withPool counted with batch := ?_ }
      simp [ReadyLoop.batch, ServerState.offered]
  | checkCapacity =>
      obtain ⟨_, _, _, rfl⟩ := step_checkCapacity done
      refine { inv with batch := ?_ }
      unfold checkCapacity
      dsimp only
      split <;> simp [ReadyLoop.batch]
  | takeStarts count =>
      obtain ⟨_, rfl⟩ := step_takeStarts done
      exact inv.withPool ⟨inv.pool.held, inv.pool.events, inv.pool.offered⟩
  | commitStarts pick acknowledged =>
      obtain ⟨_, _, rfl⟩ := step_commitStarts done
      exact inv
  | recordStarts =>
      obtain ⟨_, _, _, rfl⟩ := step_recordStarts done
      exact inv.withPool ⟨inv.pool.held, inv.pool.events, inv.pool.offered⟩
  | cancelNotStarted =>
      obtain ⟨ids, _, rfl⟩ := step_cancelNotStarted done
      obtain ⟨_, effect⟩ := server.pool.cancelExecutionIds_releases ids
      exact inv.releases effect
  | giveUp =>
      obtain ⟨_, _, rfl⟩ := step_giveUp done
      exact inv
  | cancelGivenUp =>
      obtain ⟨ids, _, rfl⟩ := step_cancelGivenUp done
      obtain ⟨_, effect⟩ := server.pool.cancelExecutionIds_releases ids
      exact inv.releases effect
  | forget =>
      obtain ⟨ids, _, rfl⟩ := step_forget done
      exact inv.withPool ⟨inv.pool.held, inv.pool.events, inv.pool.offered_append
        (server.pool.acceptedExecutionsNotStarted ids) rfl (by simp)⟩
  | takeEvents count systemNow invalidJson =>
      obtain ⟨_, rfl⟩ := step_takeEvents done
      exact inv.takesEvents count _ systemNow invalidJson
  | stopWaiting =>
      obtain ⟨_, _, _, current, rfl⟩ := step_stopWaiting done
      rw [current] at inv
      exact { inv with results := inv.results }
  | commitSucceeded systemNow pick acknowledged =>
      obtain ⟨_, _, current, rfl⟩ := step_commitSucceeded done
      rw [current] at inv
      refine { inv with results := ?_ }
      cases acknowledged with
      | true => exact RetryCall.retryExecutions_sound inv.results systemNow
      | false => exact inv.results
  | commitResults now pick acknowledged =>
      obtain ⟨call, _, current, _, rfl⟩ := step_commitResults done
      rw [current] at inv
      have sound : call.Sound server.store := inv.results
      refine { inv with results := ?_ }
      refine afterCommit_induction (motive := EventsLoop.Sound server.store) ?_ ?_ ?_ acknowledged
      · exact sound
      · exact sound.rest
      · trivial
  | fetchInProgress systemNow =>
      obtain ⟨last, _, rfl | rfl⟩ := step_fetchInProgress done
      · exact { inv with timeouts := trivial }
      · refine { inv with timeouts := ⟨?_, by simp, by simp⟩ }
        intro execution member
        obtain ⟨row, present, job, owner, same, status, _, fetched⟩ :=
          Postgres.PostgresBackend.mem_inProgressExecutions member
        rw [fetched]
        exact Counted.of_active jobs present
          ((ExecutionRow.active_iff_status row).mpr (.inr status)) owner same
  | checkInProgress =>
      obtain ⟨_, _, _, _, _, _, current, rfl⟩ := step_checkInProgress done
      rw [current] at inv
      exact inv.checks
  | startTimingOut systemNow =>
      obtain ⟨_, _, _, _, current, rfl⟩ := step_startTimingOut done
      rw [current] at inv
      exact { inv with timeouts :=
        ⟨RetryCall.retryExecutions_sound inv.timeouts.2.1 systemNow, inv.timeouts.2.2⟩ }
  | commitTimedOut now pick acknowledged =>
      obtain ⟨_, call, _, orphaned, _, current, _, rfl⟩ := step_commitTimedOut done
      rw [current] at inv
      have sound : call.Sound server.store := inv.timeouts.1
      refine { inv with timeouts := ?_ }
      dsimp only
      refine afterCommit_induction (motive := TimeoutsLoop.Sound server.store) ?_ ?_ ?_ acknowledged
      · exact inv.timeouts
      · exact fun rest left => ⟨sound.rest rest left, inv.timeouts.2⟩
      · exact inv.timeouts.2
  | cancelTimedOut systemNow =>
      obtain ⟨_, ids, _, current, rfl⟩ := step_cancelTimedOut done
      obtain ⟨_, effect⟩ := server.pool.cancelExecutionIds_releases ids
      rw [current] at inv
      exact { inv.releases effect with
        timeouts := RetryCall.retryExecutions_sound inv.timeouts systemNow }
  | commitOrphaned now pick acknowledged =>
      obtain ⟨_, call, _, current, _, rfl⟩ := step_commitOrphaned done
      rw [current] at inv
      have sound : call.Sound server.store := inv.timeouts
      refine { inv with timeouts := ?_ }
      refine afterCommit_induction (motive := TimeoutsLoop.Sound server.store) ?_ ?_ ?_ acknowledged
      · exact sound
      · exact sound.rest
      · trivial
  | fetchInProgressFails =>
      obtain ⟨_, _, rfl⟩ := step_fetchInProgressFails done
      exact { inv with timeouts := trivial }
  | giveUpTimeouts =>
      obtain ⟨timeouts, given, rfl⟩ := step_giveUpTimeouts done
      exact { inv with timeouts := TimeoutsLoop.giveUp_sound inv.timeouts given }

/-- Failed and retried executions come from calls that agree with the store. -/
theorem operation_sound (inv : server.attemptInvariant) {operation : Operation}
    (performed : action.operation server = some operation) :
    operation.carriesJobs server.store ∧ operation.retriesLeft server.store ∧
      ∀ pick executions, operation = .executionsFailed pick executions →
        FailuresFinal server.store executions := by
  have called : ∀ (call : RetryCall) now pick, call.Sound server.store →
      (call.operation now pick).carriesJobs server.store ∧
        (call.operation now pick).retriesLeft server.store ∧
        ∀ other executions, call.operation now pick = .executionsFailed other executions →
          FailuresFinal server.store executions := by
    intro call now pick sound
    refine ⟨(sound.operation now pick).1, (sound.operation now pick).2, ?_⟩
    intro other executions same
    cases call with
    | failing failedExecutions retriedExecutions =>
        cases same
        exact sound.1
    | retrying retriedExecutions => cases same
  have results := inv.results
  have timeouts := inv.timeouts
  cases action with
  | commitResults now pick acknowledged =>
      simp only [Action.operation] at performed
      split at performed
      · rename_i call current
        rw [current] at results
        cases performed
        exact called call now pick results
      · cases performed
  | commitTimedOut now pick acknowledged =>
      simp only [Action.operation] at performed
      split at performed
      · rename_i call _ _ current
        rw [current] at timeouts
        cases performed
        exact called call now pick timeouts.1
      · cases performed
  | commitOrphaned now pick acknowledged =>
      simp only [Action.operation] at performed
      split at performed
      · rename_i call current
        rw [current] at timeouts
        cases performed
        exact called call now pick timeouts
      · cases performed
  | commitStarts | commitSucceeded | cancelStopped =>
      simp only [Action.operation] at performed
      split at performed
      · cases performed
        exact ⟨trivial, trivial, by simp⟩
      · cases performed
  | addJobs | addSchedules | deleteHistory | cancelJobs | stopSchedules =>
      cases performed
      exact ⟨trivial, trivial, by simp⟩
  | _ => cases performed

theorem step_evolves (done : server.step action = some after) :
    Evolves server.store after.store := by
  rcases step_operation done with same | ⟨operation, _, applied⟩
  · rw [same]
    exact .refl _
  · exact .of_apply applied

end ServerState

/-- A job whose active execution is retried is named by one entry of the batch. -/
def Action.retriesOnce (server : ServerState) (action : Action) : Prop :=
  ∀ operation ∈ action.operation server, operation.retriesOnce server.store

instance (server : ServerState) (action : Action) : Decidable (action.retriesOnce server) :=
  inferInstanceAs (Decidable (∀ operation ∈ action.operation server, _))

structure BudgetInvariant (server : ServerState) : Prop where
  offers : server.offerInvariant
  jobs : JobInvariant server.store
  budget : WithinBudget server.store
  attempts : server.attemptInvariant

namespace BudgetInvariant

theorem initial : BudgetInvariant .initial where
  offers := ServerState.offerInvariant_initial
  jobs := .empty
  budget := by simp [WithinBudget, ServerState.initial, Store.empty]
  attempts := by
    refine ⟨⟨?_, ?_, ?_⟩, ?_, trivial, trivial⟩ <;>
      simp [ServerState.initial, ExecutorPool.empty, ExecutorPool.held, ReadyLoop.batch]

theorem step {server after : ServerState} {action : Action} (inv : BudgetInvariant server)
    (once : action.retriesOnce server) (done : server.step action = some after) :
    BudgetInvariant after := by
  have issued : Issued server.store := ⟨inv.jobs.issuedExecutions, inv.jobs.issuedJobs⟩
  have loops := ServerState.attemptInvariant_loops inv.attempts inv.offers inv.jobs done
  refine ⟨ServerState.offerInvariant_step inv.offers done, ?_, ?_,
    loops.evolves issued (ServerState.step_evolves done)⟩
  · rcases ServerState.step_operation done with same | ⟨operation, performed, applied⟩
    · rw [same]
      exact inv.jobs
    · obtain ⟨carries, _, _⟩ := ServerState.operation_sound inv.attempts performed
      exact inv.jobs.step carries (once operation performed) applied
  · rcases ServerState.step_operation done with same | ⟨operation, performed, applied⟩
    · rw [same]
      exact inv.budget
    · obtain ⟨_, left, _⟩ := ServerState.operation_sound inv.attempts performed
      exact inv.budget.step inv.jobs (once operation performed) left applied

end BudgetInvariant

theorem budgetInvariant_of_reaches {server : ServerState}
    (run : Reaches ServerState.step (fun server action => action.retriesOnce server)
      .initial server) : BudgetInvariant server :=
  run.invariant (fun _ _ _ inv once done => inv.step once done) .initial

/-- In every run whose batches retry a job through one entry, a job has at most
one execution more than it may be retried, an execution is offered with its
position as the attempt number, and executions fail for good only when their
job has all of its executions. -/
theorem retry_budget {server : ServerState}
    (run : Reaches ServerState.step (fun server action => action.retriesOnce server)
      .initial server) :
    (∀ job ∈ server.store.jobs.rows,
      executionCount server.store job.id ≤ job.retryPolicyJson.retries + 1) ∧
    (∀ executorId jobId id jobTypeId attemptNumber inputPayloadJson targetExecutionTime,
      .sent executorId (.executionReady jobId id jobTypeId attemptNumber inputPayloadJson
        targetExecutionTime) ∈ server.pool.history →
      ∀ row ∈ server.store.executions.rows, row.id = id →
        row.jobId = jobId ∧ position server.store row = attemptNumber) ∧
    ∀ action pick executions,
      Action.operation server action = some (.executionsFailed pick executions) →
      ∀ execution ∈ executions, ∀ row ∈ server.store.executions.rows,
        row.id = execution.executionId → ∀ job ∈ server.store.jobs.rows, job.id = row.jobId →
          executionCount server.store job.id = job.retryPolicyJson.retries + 1 := by
  have inv := budgetInvariant_of_reaches run
  refine ⟨inv.budget, ?_, ?_⟩
  · intro executorId jobId id jobTypeId attemptNumber inputPayloadJson targetExecutionTime sent row
      member same
    obtain ⟨retryPolicy, counted⟩ := inv.attempts.pool.offered executorId jobId id jobTypeId
      attemptNumber inputPayloadJson targetExecutionTime sent
    obtain ⟨sameJob, number, _⟩ := counted.row row member same
    exact ⟨sameJob, number⟩
  · intro action pick executions performed execution listed row member id job owner same
    obtain ⟨_, _, final⟩ := ServerState.operation_sound inv.attempts performed
    obtain ⟨attempt, counted, ⟨sameId, _⟩, exhausted⟩ := final pick executions rfl execution listed
    obtain ⟨_, number, policy⟩ := counted.row row member (id.trans sameId.symm)
    refine Nat.le_antisymm (inv.budget job owner) ?_
    calc
      job.retryPolicyJson.retries + 1
      _ = attempt.retryPolicy.retries + 1 := by rw [policy job owner same]
      _ ≤ attempt.attemptNumber := exhausted
      _ = position server.store row := number.symm
      _ ≤ executionCount server.store row.jobId := Postgres.position_le_executionCount ..
      _ = executionCount server.store job.id := by rw [same]

def startAccepted : List Action :=
  [.takeStarts 1, .commitStarts (fun _ => 0) true, .recordStarts]

/-- The executor of `1` disconnects, the timeouts loop retries it as `2`. -/
def retryOrphaned : List Action :=
  [.fetchInProgress 1, .disconnect 0, .checkInProgress, .startTimingOut (fun _ => 1),
    .commitTimedOut 1 (fun _ => 0) true, .commitTimedOut 1 (fun _ => 0) true, .cancelTimedOut (fun _ => 1),
    .commitOrphaned 1 (fun _ => 0) true, .commitOrphaned 1 (fun _ => 0) true]

/-- Another executor runs `2`, which fails. -/
def failSecond : List Action :=
  [.connect, .message 1 1 (.capabilities false (some [("type", 1)])), .startPass, .readClock,
      .fetchReady 1, .offer 1 fun _ => 0, .checkCapacity] ++
    startAccepted ++ [.message 1 2 (.executionFailed 2 .absent "failed")]

/-- The events loop takes some events and retries what failed. -/
def retryResults (count : Nat) : List Action :=
  [.takeEvents count (fun _ _ => 2) fun _ => none, .stopWaiting, .commitSucceeded (fun _ => 2) (fun _ => 0) true,
    .commitResults 2 (fun _ => 0) true, .commitResults 2 (fun _ => 0) true]

/-- Both failures are processed, one after the other. -/
def retriedByBoth : List Action :=
  assigned ++ startAccepted ++ retryOrphaned ++ retryResults 1 ++ failSecond ++ retryResults 1

theorem retry_budget_retriedByBoth :
    ∃ server, Reaches ServerState.step (fun server action => action.retriesOnce server)
        .initial server ∧
      server.store.executions.rows.length = 3 ∧
      ∀ job ∈ server.store.jobs.rows,
        executionCount server.store job.id ≤ job.retryPolicyJson.retries + 1 := by
  obtain ⟨server, run, count⟩ := exists_reaches_of_execute ServerState.step
    (fun server action => action.retriesOnce server) .initial retriedByBoth
    (fun server => server.store.executions.rows.length == 3) (by decide)
  exact ⟨server, run, by simpa using count, (retry_budget run).1⟩

/-- The stale failure of `1` meets the failure of `2` in one batch of events. -/
def retriedInOneBatch : List Action :=
  assigned ++ startAccepted ++ retryOrphaned ++ failSecond ++ retryResults 2

theorem retriedInOneBatch_exceeds_budget :
    ¬∀ server, Reaches ServerState.step (fun _ _ => True) .initial server →
      ∀ job ∈ server.store.jobs.rows,
        executionCount server.store job.id ≤ job.retryPolicyJson.retries + 1 := by
  intro claim
  obtain ⟨server, run, exceeded⟩ := exists_reaches_of_execute ServerState.step (fun _ _ => True)
    .initial retriedInOneBatch (fun server => server.store.jobs.rows.any fun job =>
      decide (job.retryPolicyJson.retries + 1 < executionCount server.store job.id)) (by decide)
  obtain ⟨job, member, more⟩ := List.any_eq_true.mp exceeded
  exact Nat.not_le.mpr (of_decide_eq_true more) (claim server run job member)

end Ora.Server
