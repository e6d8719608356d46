import Ora.Server.Pool

/-!
# Changes of the pool

A change of the job queues releases executions, offers one or accepts one that
was offered.  What the queues hold is compared up to the order.
-/

namespace Ora.Server

open Ora.Backend
open Ora.Library

/-- What is remembered of an execution to retry it. -/
structure Attempt where
  executionId : ExecutionId
  jobId : JobId
  retryPolicy : RetryPolicy
  attemptNumber : Nat
  deriving DecidableEq, Repr

def Attempt.ofReady (execution : ReadyExecution) : Attempt :=
  ⟨execution.executionId, execution.jobId, execution.retryPolicy, execution.attemptNumber⟩

def Attempt.ofExecutor (execution : ExecutorExecution) : Attempt :=
  ⟨execution.executionId, execution.jobId, execution.retryPolicy, execution.attemptNumber⟩

def Executor.held (executor : Executor) : List (ExecutorId × ExecutorExecution) :=
  executor.executions.map fun execution => (executor.id, execution)

def Executor.Bounded (executor : Executor) : Prop :=
  ∀ queue ∈ executor.jobQueues, queue.executions.length ≤ queue.maxExecutions

/-- An executor has no queues before it sent its capabilities. -/
def Executor.Configured (executor : Executor) : Prop :=
  executor.initialized = false → executor.jobQueues = []

namespace ExecutorPool

/-- The executions in the job queues, with their executors. -/
def held (pool : ExecutorPool) : List (ExecutorId × ExecutorExecution) :=
  pool.executors.flatMap Executor.held

def heldIds (pool : ExecutorPool) : List ExecutionId :=
  pool.held.map fun entry => entry.2.executionId

def Bounded (pool : ExecutorPool) : Prop :=
  ∀ executor ∈ pool.executors, executor.Bounded

def Configured (pool : ExecutorPool) : Prop :=
  ∀ executor ∈ pool.executors, executor.Configured

def executorIds (pool : ExecutorPool) : List ExecutorId :=
  pool.executors.map Executor.id

theorem heldIds_eq (pool : ExecutorPool) :
    pool.heldIds = pool.executions.map ExecutorExecution.executionId := by
  simp [heldIds, held, executions, Executor.held, List.map_flatMap, Function.comp_def]

end ExecutorPool

/-- Executions of an executor are removed and others added. -/
structure Executor.Exchanges (removed added : List ExecutorExecution)
    (executor after : Executor) : Prop where
  id : after.id = executor.id
  kept : ∃ rest, executor.executions.Perm (removed ++ rest) ∧ after.executions.Perm (added ++ rest)
  bounded : executor.Bounded → after.Bounded
  configured : executor.Configured → after.Configured

namespace Executor

variable {executor : Executor} {execution : ExecutorExecution} {id : ExecutionId}

theorem exchanges_modifyFirst {p : ExecutorJobQueue → Bool}
    {change : ExecutorJobQueue → ExecutorJobQueue} {queue : ExecutorJobQueue}
    {removed added : List ExecutorExecution} (rest : List ExecutorExecution)
    (found : executor.jobQueues.find? p = some queue)
    (before : queue.executions.Perm (removed ++ rest))
    (after : (change queue).executions.Perm (added ++ rest))
    (bounded : queue.executions.length ≤ queue.maxExecutions →
      (change queue).executions.length ≤ (change queue).maxExecutions) :
    Exchanges removed added executor
      { executor with jobQueues := modifyFirst p change executor.jobQueues } where
  id := rfl
  kept := by
    obtain ⟨others, unchanged, changed⟩ :=
      modifyFirst_flatMap change ExecutorJobQueue.executions found
    refine ⟨rest ++ others, ?_, ?_⟩
    · rw [← List.append_assoc]
      exact unchanged.trans (before.append_right others)
    · rw [← List.append_assoc]
      exact changed.trans (after.append_right others)
  bounded full := by
    refine modifyFirst_forall _ full ?_
    intro other member first
    cases first.symm.trans found
    exact bounded (full queue member)
  configured known initialized := by
    rw [known initialized] at found
    cases found

theorem exists_queue (found : executor.findExecution id = some execution) :
    ∃ queue, executor.jobQueues.find? (ExecutorJobQueue.holds id) = some queue ∧
      queue.executions.find? (fun execution => execution.executionId == id) = some execution :=
  Option.bind_eq_some_iff.mp found

theorem exists_execution (holds : executor.holds id = true) :
    ∃ execution, executor.findExecution id = some execution := by
  cases first : executor.jobQueues.find? (ExecutorJobQueue.holds id) with
  | none =>
      have every := List.find?_eq_none.mp first
      obtain ⟨queue, member, inside⟩ := List.any_eq_true.mp holds
      exact absurd inside (every queue member)
  | some queue =>
      have inside := List.find?_some first
      obtain ⟨execution, found⟩ := Option.isSome_iff_exists.mp (List.find?_isSome.mpr
        (List.any_eq_true.mp inside))
      exact ⟨execution, Option.bind_eq_some_iff.mpr ⟨queue, first, found⟩⟩

theorem findExecution_id (found : executor.findExecution id = some execution) :
    execution.executionId = id := by
  obtain ⟨_, _, inside⟩ := exists_queue found
  have same := List.find?_some inside
  exact beq_iff_eq.mp same

/-- Removing the execution that is found, whatever else happens to its queue. -/
theorem exchanges_remove (change : ExecutorJobQueue → ExecutorJobQueue)
    (found : executor.findExecution id = some execution)
    (executions : ∀ queue, (change queue).executions = (queue.remove id).executions)
    (capacity : ∀ queue, (change queue).maxExecutions = queue.maxExecutions) :
    Exchanges [execution] [] executor (executor.modifyQueue id change) := by
  obtain ⟨queue, first, inside⟩ := exists_queue found
  have removed := swapRemove_findIdx inside
  refine exchanges_modifyFirst (queue.remove id).executions first removed ?_ ?_
  · rw [executions]
    exact .refl _
  · intro full
    rw [executions, capacity]
    have length := removed.length_eq
    rw [List.length_cons] at length
    exact Nat.le_trans (Nat.le_of_lt (Nat.lt_of_lt_of_eq (Nat.lt_succ_self _) length.symm)) full

theorem exchanges_accept (found : executor.findExecution id = some execution) :
    Exchanges [execution] [{ execution with state := .accepted }] executor
      (executor.modifyQueue id (ExecutorJobQueue.acceptExecution id)) := by
  obtain ⟨queue, first, inside⟩ := exists_queue found
  obtain ⟨before, after, same, changed⟩ := modifyFirst_split
    (fun execution : ExecutorExecution => { execution with state := .accepted }) inside
  have executions : (queue.acceptExecution id).executions =
      before ++ { execution with state := .accepted } :: after := changed
  refine exchanges_modifyFirst (before ++ after) first ?_ ?_ ?_
  · rw [same]
    exact List.perm_middle
  · rw [executions]
    exact List.perm_middle
  · intro full
    have capacity : (queue.acceptExecution id).maxExecutions = queue.maxExecutions := rfl
    rw [executions, capacity]
    rw [same] at full
    simpa using full

theorem exchanges_add {now : Instant} {jobTypeId : JobTypeId}
    (suitable : executor.suitable now jobTypeId = true) :
    Exchanges [] [execution] executor { executor with
      jobQueues := modifyFirst (Executor.suitableQueue now jobTypeId)
        (fun queue => queue.addExecution execution) executor.jobQueues } := by
  have fitting := (Bool.and_eq_true_iff.mp suitable).2
  obtain ⟨queue, first⟩ := Option.isSome_iff_exists.mp
    (List.find?_isSome.mpr (List.any_eq_true.mp fitting))
  refine exchanges_modifyFirst queue.executions first (.refl _)
    List.perm_append_comm ?_
  intro _
  have fits := List.find?_some first
  simp only [suitableQueue, ExecutorJobQueue.hasCapacity, Bool.and_eq_true, decide_eq_true_eq]
    at fits
  simpa [ExecutorJobQueue.addExecution] using Nat.succ_le_of_lt fits.1.1

theorem withdrawOffers_executions (queue : ExecutorJobQueue) (expiredAt : Option Instant)
    (now : Instant) :
    (queue.withdrawOffers expiredAt now).executions =
        queue.executions.filter (fun execution => !ExecutorJobQueue.withdrawn expiredAt execution) ∧
      (queue.withdrawOffers expiredAt now).maxExecutions = queue.maxExecutions := by
  unfold ExecutorJobQueue.withdrawOffers
  dsimp only
  split <;> exact ⟨rfl, rfl⟩

theorem exchanges_withdraw (executor : Executor) (expiredAt : Option Instant) (now : Instant) :
    Exchanges (executor.executions.filter (ExecutorJobQueue.withdrawn expiredAt)) [] executor
      { executor with
        jobQueues := executor.jobQueues.map (ExecutorJobQueue.withdrawOffers expiredAt now) } where
  id := rfl
  kept := by
    refine ⟨executor.executions.filter fun execution =>
      !ExecutorJobQueue.withdrawn expiredAt execution, (List.filter_append_perm _ _).symm, ?_⟩
    simp only [executions, List.flatMap_map, withdrawOffers_executions, List.filter_flatMap,
      List.nil_append]
    exact .refl _
  bounded full := by
    intro queue member
    obtain ⟨before, present, rfl⟩ := List.mem_map.mp member
    rw [(withdrawOffers_executions before expiredAt now).1,
      (withdrawOffers_executions before expiredAt now).2]
    exact Nat.le_trans (List.length_filter_le _ _) (full before present)
  configured known initialized := by
    rw [known initialized, List.map_nil]

end Executor

namespace ExecutorPool

/-- Executions are removed from the queues and others added. -/
structure Exchanges (removed added : List (ExecutorId × ExecutorExecution))
    (pool after : ExecutorPool) : Prop where
  kept : ∃ rest, pool.held.Perm (removed ++ rest) ∧ after.held.Perm (added ++ rest)
  bounded : pool.Bounded → after.Bounded
  configured : pool.Configured → after.Configured
  executorIds : ∃ gone, pool.executorIds.Perm (gone ++ after.executorIds)

namespace Exchanges

variable {removed added : List (ExecutorId × ExecutorExecution)} {pool middle after : ExecutorPool}

theorem of_executors (same : after.executors = pool.executors) : Exchanges [] [] pool after where
  kept := ⟨pool.held, .refl _, by rw [held, same]; exact .refl _⟩
  bounded full := by
    rw [Bounded, same]
    exact full
  configured known := by
    rw [Configured, same]
    exact known
  executorIds := ⟨[], by rw [ExecutorPool.executorIds, ExecutorPool.executorIds, same]; exact .refl _⟩

/-- What a release leaves is what remains after the second one. -/
theorem trans {more : List (ExecutorId × ExecutorExecution)} (first : Exchanges removed [] pool middle)
    (second : Exchanges more [] middle after) : Exchanges (removed ++ more) [] pool after where
  kept := by
    obtain ⟨rest, before, left⟩ := first.kept
    obtain ⟨others, again, last⟩ := second.kept
    refine ⟨others, ?_, last⟩
    rw [List.append_assoc]
    exact before.trans ((left.symm.trans again).append_left removed)
  bounded full := second.bounded (first.bounded full)
  configured known := second.configured (first.configured known)
  executorIds := by
    obtain ⟨gone, before⟩ := first.executorIds
    obtain ⟨later, again⟩ := second.executorIds
    refine ⟨gone ++ later, ?_⟩
    rw [List.append_assoc]
    exact before.trans (again.append_left gone)

/-- The first executor that meets a condition is changed. -/
theorem modifyFirst {p : Executor → Bool} {change : Executor → Executor} {executor : Executor}
    {gone new : List ExecutorExecution} (found : pool.executors.find? p = some executor)
    (changes : Executor.Exchanges gone new executor (change executor)) :
    Exchanges (gone.map fun execution => (executor.id, execution))
      (new.map fun execution => (executor.id, execution)) pool
      { pool with executors := Library.modifyFirst p change pool.executors } where
  kept := by
    obtain ⟨rest, before, left⟩ := changes.kept
    obtain ⟨others, unchanged, changed⟩ :=
      modifyFirst_flatMap change Executor.held found
    refine ⟨(rest.map fun execution => (executor.id, execution)) ++ others, ?_, ?_⟩
    · rw [← List.append_assoc, ← List.map_append]
      exact unchanged.trans ((before.map _).append_right others)
    · rw [← List.append_assoc, ← List.map_append]
      refine changed.trans (List.Perm.append_right others ?_)
      rw [Executor.held, changes.id]
      exact left.map _
  bounded full := by
    refine modifyFirst_forall _ full ?_
    intro other member first
    cases first.symm.trans found
    exact changes.bounded (full executor member)
  configured known := by
    refine modifyFirst_forall _ known ?_
    intro other member first
    cases first.symm.trans found
    exact changes.configured (known executor member)
  executorIds := by
    obtain ⟨before, after, same, changed⟩ := modifyFirst_split change found
    have ids : (Library.modifyFirst p change pool.executors).map Executor.id =
        pool.executors.map Executor.id := by
      rw [changed, same, List.map_append, List.map_append, List.map_cons, List.map_cons, changes.id]
    exact ⟨[], .of_eq ids.symm⟩

/-- An executor is removed with all it holds. -/
theorem drop {id : ExecutorId} {executor : Executor}
    (found : pool.executors.find? (fun executor => executor.id == id) = some executor) :
    Exchanges executor.held [] pool { pool with
      executors := swapRemove pool.executors
        (pool.executors.findIdx fun executor => executor.id == id) } where
  kept := ⟨_, (swapRemove_findIdx found).flatMap_right Executor.held, .refl _⟩
  bounded full other member :=
    full other ((swapRemove_findIdx found).mem_iff.mpr (List.mem_cons_of_mem _ member))
  configured known other member :=
    known other ((swapRemove_findIdx found).mem_iff.mpr (List.mem_cons_of_mem _ member))
  executorIds := ⟨[executor.id], (swapRemove_findIdx found).map Executor.id⟩

theorem ids (changes : Exchanges removed added pool after) :
    ∃ rest, pool.heldIds.Perm ((removed.map fun entry => entry.2.executionId) ++ rest) ∧
      after.heldIds.Perm ((added.map fun entry => entry.2.executionId) ++ rest) := by
  obtain ⟨rest, before, left⟩ := changes.kept
  refine ⟨rest.map fun entry => entry.2.executionId, ?_, ?_⟩
  · rw [← List.map_append]
    exact before.map _
  · rw [← List.map_append]
    exact left.map _

end Exchanges

end ExecutorPool

/-- The executions an event reports. -/
def ExecutorEvent.executions : ExecutorEvent → List ExecutorExecution
  | .executionSucceeded execution _ _ => [execution]
  | .executionFailed execution _ _ => [execution]
  | .executorDisconnected executor => executor.assignedExecutions

/-- The execution a message offers. -/
def ServerMessage.offered? : ServerMessage → Option ExecutionId
  | .executionReady _ id _ _ _ _ => some id
  | _ => none

def PoolEvent.quiet : PoolEvent → Bool
  | .sent _ message => message.offered?.isNone
  | _ => false

namespace ExecutorPool

/-- Executions leave the queues, only accepted ones are reported. -/
structure Releases (removed : List (ExecutorId × ExecutorExecution))
    (pool after : ExecutorPool) : Prop where
  queues : Exchanges removed [] pool after
  accepted : after.accepted = pool.accepted
  acceptedExecutions : after.acceptedExecutions = pool.acceptedExecutions
  events : ∃ reported, after.events = pool.events ++ reported ∧
    ∀ event ∈ reported, ∀ execution ∈ event.executions,
      execution.isAccepted = true ∧ ∃ executorId, (executorId, execution) ∈ removed
  history : ∃ sent, after.history = pool.history ++ sent ∧ ∀ event ∈ sent, event.quiet = true

namespace Releases

variable {removed more : List (ExecutorId × ExecutorExecution)} {pool middle after : ExecutorPool}

/-- The queues are all that changes. -/
theorem of_queues {executors : List Executor}
    (queues : Exchanges removed [] pool { pool with executors := executors }) :
    Releases removed pool { pool with executors := executors } where
  queues := queues
  accepted := rfl
  acceptedExecutions := rfl
  events := ⟨[], (List.append_nil _).symm, by simp⟩
  history := ⟨[], (List.append_nil _).symm, by simp⟩

theorem refl (pool : ExecutorPool) : Releases [] pool pool := of_queues (.of_executors rfl)

theorem trans (first : Releases removed pool middle) (second : Releases more middle after) :
    Releases (removed ++ more) pool after where
  queues := first.queues.trans second.queues
  accepted := second.accepted.trans first.accepted
  acceptedExecutions := second.acceptedExecutions.trans first.acceptedExecutions
  events := by
    obtain ⟨reported, same, known⟩ := first.events
    obtain ⟨later, again, others⟩ := second.events
    refine ⟨reported ++ later, by rw [again, same, List.append_assoc], ?_⟩
    intro event member execution named
    rcases List.mem_append.mp member with old | new
    · obtain ⟨accepted, executor, gone⟩ := known event old execution named
      exact ⟨accepted, executor, List.mem_append_left _ gone⟩
    · obtain ⟨accepted, executor, gone⟩ := others event new execution named
      exact ⟨accepted, executor, List.mem_append_right _ gone⟩
  history := by
    obtain ⟨sent, same, quiet⟩ := first.history
    obtain ⟨later, again, others⟩ := second.history
    refine ⟨sent ++ later, by rw [again, same, List.append_assoc], ?_⟩
    intro event member
    exact (List.mem_append.mp member).elim (quiet event) (others event)

theorem send (pool : ExecutorPool) (executor : Executor) {message : ServerMessage}
    (quiet : message.offered? = none) : Releases [] pool (pool.send executor message) := by
  unfold ExecutorPool.send
  split
  · refine ⟨.of_executors rfl, rfl, rfl, ⟨[], (List.append_nil _).symm, by simp⟩, _, rfl, ?_⟩
    intro event member
    cases List.mem_singleton.mp member
    simp [PoolEvent.quiet, quiet]
  · exact .refl pool

theorem held (releases : Releases removed pool after) :
    ∀ entry ∈ after.held, entry ∈ pool.held := by
  obtain ⟨rest, before, left⟩ := releases.queues.kept
  exact fun entry member =>
    before.mem_iff.mpr (List.mem_append_right _ (left.mem_iff.mp member))

theorem heldIds (releases : Releases removed pool after) :
    ∀ id ∈ after.heldIds, id ∈ pool.heldIds := by
  intro id member
  obtain ⟨entry, present, rfl⟩ := List.mem_map.mp member
  exact List.mem_map_of_mem (releases.held entry present)

/-- What is released is not held anymore. -/
theorem unheld (releases : Releases removed pool after) (unique : pool.heldIds.Nodup)
    {entry : ExecutorId × ExecutorExecution} (gone : entry ∈ removed) :
    entry.2.executionId ∉ after.heldIds := by
  obtain ⟨rest, before, left⟩ := releases.queues.ids
  intro member
  obtain ⟨_, _, disjoint⟩ := List.nodup_append.mp (before.nodup_iff.mp unique)
  exact disjoint _ (List.mem_map_of_mem gone) _ (left.mem_iff.mp member) rfl

theorem unique (releases : Releases removed pool after) (unique : pool.heldIds.Nodup) :
    after.heldIds.Nodup := by
  obtain ⟨rest, before, left⟩ := releases.queues.ids
  have parts := List.nodup_append.mp (before.nodup_iff.mp unique)
  exact left.nodup_iff.mpr parts.2.1

/-- Some executions are released by each step of a fold. -/
theorem foldl {ι : Type} (step : ExecutorPool → ι → ExecutorPool)
    (releases : ∀ pool entry, ∃ removed, Releases removed pool (step pool entry))
    (entries : List ι) (pool : ExecutorPool) :
    ∃ removed, Releases removed pool (entries.foldl step pool) := by
  induction entries generalizing pool with
  | nil => exact ⟨[], .refl pool⟩
  | cons entry rest ih =>
      obtain ⟨removed, first⟩ := releases pool entry
      obtain ⟨more, second⟩ := ih (step pool entry)
      exact ⟨removed ++ more, first.trans second⟩

theorem modifyExecutor {id : ExecutorId} {change : Executor → Executor} {executor : Executor}
    {gone : List ExecutorExecution}
    (found : pool.executors.find? (fun executor => executor.id == id) = some executor)
    (changes : Executor.Exchanges gone [] executor (change executor)) :
    Releases (gone.map fun execution => (executor.id, execution)) pool
      (pool.modifyExecutor id change) :=
  of_queues (.modifyFirst found changes)

/-- What an event reports was released. -/
theorem report {event : ExecutorEvent} (releases : Releases removed pool after)
    (reported : ∀ execution ∈ event.executions,
      execution.isAccepted = true ∧ ∃ executorId, (executorId, execution) ∈ removed) :
    Releases removed pool { after with events := after.events ++ [event] } where
  queues := ⟨releases.queues.kept, releases.queues.bounded, releases.queues.configured,
    releases.queues.executorIds⟩
  accepted := releases.accepted
  acceptedExecutions := releases.acceptedExecutions
  events := by
    obtain ⟨earlier, same, known⟩ := releases.events
    refine ⟨earlier ++ [event], by rw [same, List.append_assoc], ?_⟩
    intro other member
    rcases List.mem_append.mp member with old | new
    · exact known other old
    · cases List.mem_singleton.mp new
      exact reported
  history := releases.history

end Releases

variable (pool : ExecutorPool)

theorem dropExecutor_releases (id : ExecutorId) :
    ∃ removed, Releases removed pool (pool.dropExecutor id) := by
  unfold dropExecutor
  split
  · exact ⟨[], .refl pool⟩
  · rename_i executor found
    refine ⟨executor.held, (Releases.of_queues (.drop found)).report ?_⟩
    intro execution assigned
    obtain ⟨member, accepted⟩ := List.mem_filter.mp assigned
    exact ⟨accepted, executor.id, List.mem_map_of_mem member⟩

theorem closeOutbound_releases (id : ExecutorId) : Releases [] pool (pool.closeOutbound id) := by
  unfold closeOutbound
  cases found : pool.executors.find? fun executor => executor.id == id with
  | none =>
      rw [modifyExecutor, modifyFirst_of_find?_none _ found]
      exact .refl pool
  | some executor =>
      let close (executor : Executor) : Executor := { executor with connected := false }
      have kept : Executor.Exchanges [] [] executor (close executor) :=
        ⟨rfl, ⟨executor.executions, .refl _, .refl _⟩, fun full => full, fun known => known⟩
      exact .of_queues (.modifyFirst found kept)

/-- A cancelled execution is removed from the queue that holds it. -/
theorem cancelExecutionId_cases (id : ExecutionId) :
    (id ∉ pool.heldIds ∧ pool.cancelExecutionId id = pool) ∨
      ∃ executorId execution, execution.executionId = id ∧
        Releases [(executorId, execution)] pool (pool.cancelExecutionId id) := by
  unfold cancelExecutionId
  split
  · rename_i absent
    refine .inl ⟨?_, rfl⟩
    intro member
    have every := List.find?_eq_none.mp absent
    simp only [heldIds, held, Executor.held, Executor.executions, List.mem_map, List.mem_flatMap]
      at member
    obtain ⟨_, ⟨executor, present, execution, ⟨queue, inside, listed⟩, rfl⟩, rfl⟩ := member
    refine every executor present (List.any_eq_true.mpr ⟨queue, inside, ?_⟩)
    exact List.any_eq_true.mpr ⟨execution, listed, beq_self_eq_true _⟩
  · rename_i executor found
    obtain ⟨execution, inside⟩ := Executor.exists_execution (List.find?_some found)
    refine .inr ⟨executor.id, execution, Executor.findExecution_id inside, ?_⟩
    have removes := Executor.exchanges_remove _ inside (fun _ => rfl) fun _ => rfl
    exact (Releases.of_queues (.modifyFirst found removes)).trans (.send _ executor rfl)

theorem cancelExecutionIds_releases (ids : List ExecutionId) :
    ∃ removed, Releases removed pool (pool.cancelExecutionIds ids) := by
  refine Releases.foldl _ ?_ ids pool
  intro pool id
  rcases pool.cancelExecutionId_cases id with ⟨_, same⟩ | ⟨executor, execution, _, releases⟩
  · exact ⟨[], by rw [same]; exact .refl pool⟩
  · exact ⟨_, releases⟩

theorem send_executors (executor : Executor) (message : ServerMessage) :
    (pool.send executor message).executors = pool.executors := by
  unfold send
  split <;> rfl

/-- The cancelled executions are not held anymore. -/
theorem cancelExecutionIds_removes {pool : ExecutorPool} (unique : pool.heldIds.Nodup)
    (ids : List ExecutionId) : ∀ id ∈ ids, id ∉ (pool.cancelExecutionIds ids).heldIds := by
  induction ids generalizing pool with
  | nil => simp
  | cons first rest ih =>
      have removed : first ∉ (pool.cancelExecutionId first).heldIds ∧
          (pool.cancelExecutionId first).heldIds.Nodup := by
        rcases pool.cancelExecutionId_cases first with
          ⟨absent, same⟩ | ⟨executor, execution, rfl, releases⟩
        · rw [same]
          exact ⟨absent, unique⟩
        · exact ⟨releases.unheld unique (List.mem_singleton.mpr rfl), releases.unique unique⟩
      obtain ⟨_, later⟩ := (pool.cancelExecutionId first).cancelExecutionIds_releases rest
      intro id member
      rcases List.mem_cons.mp member with rfl | other
      · exact fun held => removed.1 (later.heldIds _ held)
      · exact ih removed.2 id other

/-- Messages about some executions are sent to an executor. -/
theorem Releases.sends (executor : Executor) {message : ExecutorExecution → ServerMessage}
    (quiet : ∀ execution, (message execution).offered? = none) (executions : List ExecutorExecution)
    (pool : ExecutorPool) : Releases [] pool
      (executions.foldl (fun pool execution => pool.send executor (message execution)) pool) := by
  induction executions generalizing pool with
  | nil => exact .refl pool
  | cons execution rest ih => exact (Releases.send pool executor (quiet execution)).trans (ih _)

theorem sends_executors (executor : Executor) (message : ExecutorExecution → ServerMessage)
    (executions : List ExecutorExecution) (pool : ExecutorPool) :
    (executions.foldl (fun pool execution => pool.send executor (message execution))
      pool).executors = pool.executors := by
  induction executions generalizing pool with
  | nil => rfl
  | cons execution rest ih => exact (ih _).trans (pool.send_executors executor _)

theorem withdrawOffers_removes {pool : ExecutorPool} {id : ExecutorId} {executor : Executor}
    (found : pool.executors.find? (fun executor => executor.id == id) = some executor)
    (expiredAt : Option Instant) (now : Instant) :
    Releases ((executor.executions.filter (ExecutorJobQueue.withdrawn expiredAt)).map
      fun execution => (executor.id, execution)) pool (pool.withdrawOffers id expiredAt now) := by
  unfold withdrawOffers
  rw [found]
  have notified := Releases.sends executor
    (fun execution => (rfl : (ServerMessage.executionCancelled execution.executionId).offered? = none))
    (executor.executions.filter (ExecutorJobQueue.withdrawn expiredAt)) pool
  rw [← sends_executors executor (fun execution => .executionCancelled execution.executionId)
    (executor.executions.filter (ExecutorJobQueue.withdrawn expiredAt)) pool] at found
  exact notified.trans (.modifyExecutor found (executor.exchanges_withdraw expiredAt now))

/-- Only offers are withdrawn. -/
theorem withdrawOffers_releases (id : ExecutorId) (expiredAt : Option Instant) (now : Instant) :
    ∃ removed, (∀ entry ∈ removed, entry.2.isAccepted = false) ∧
      Releases removed pool (pool.withdrawOffers id expiredAt now) := by
  cases found : pool.executors.find? fun executor => executor.id == id with
  | none =>
      refine ⟨[], by simp, ?_⟩
      unfold withdrawOffers
      rw [found]
      exact .refl pool
  | some executor =>
      refine ⟨_, ?_, withdrawOffers_removes found expiredAt now⟩
      intro entry member
      obtain ⟨execution, expired, rfl⟩ := List.mem_map.mp member
      have offered := (List.mem_filter.mp expired).2
      unfold ExecutorJobQueue.withdrawn at offered
      unfold ExecutorExecution.isAccepted
      cases state : execution.state with
      | offered deadline offeredAt => rfl
      | accepted =>
          rw [state] at offered
          cases offered

section Messages

variable {pool} {executor : Executor}

theorem capabilities_releases
    (found : pool.executors.find? (fun other => other.id == executor.id) = some executor)
    (executionHandshake : Bool) (jobQueues : Option (List (JobTypeId × Nat))) :
    ∃ removed, Releases removed pool (pool.capabilities executor executionHandshake jobQueues) := by
  unfold capabilities
  split
  · exact pool.dropExecutor_releases executor.id
  split
  · exact pool.dropExecutor_releases executor.id
  · rename_i queues
    refine ⟨executor.executions.map _, .modifyExecutor found ⟨rfl, ⟨[], ?_, ?_⟩, ?_, by simp [Executor.Configured]⟩⟩
    · rw [List.append_nil]
    · refine .of_eq ?_
      simp [Executor.executions, ExecutorJobQueue.new, List.flatMap_map]
    · intro _ queue member
      obtain ⟨queue, _, rfl⟩ := List.mem_map.mp member
      exact Nat.zero_le _

theorem executionRejected_releases
    (found : pool.executors.find? (fun other => other.id == executor.id) = some executor)
    (now : Instant) (id : ExecutionId) :
    ∃ removed, Releases removed pool (pool.executionRejected now executor id) := by
  unfold executionRejected
  split
  · exact ⟨[], .refl pool⟩
  split
  · exact ⟨[], .refl pool⟩
  · rename_i execution inside _
    exact ⟨_, .modifyExecutor found
      (Executor.exchanges_remove _ inside (fun _ => rfl) fun _ => rfl)⟩

theorem executionResult_releases
    (found : pool.executors.find? (fun other => other.id == executor.id) = some executor)
    (systemNow : Time) (id : ExecutionId) (timestamp : ResultTime)
    {event : ExecutorExecution → Time → ExecutorEvent}
    (reports : ∀ execution time, (event execution time).executions = [execution]) :
    ∃ removed, Releases removed pool
      (pool.executionResult systemNow executor id timestamp event) := by
  unfold executionResult
  split
  · exact ⟨[], .refl pool⟩
  rename_i execution inside
  have releases : Releases _ pool _ := .modifyExecutor found
    (Executor.exchanges_remove (ExecutorJobQueue.remove id) inside (fun _ => rfl)
      fun _ => rfl)
  dsimp only
  split
  · rename_i accepted
    have reported : ∀ time, ∀ other ∈ (event execution time).executions,
        other.isAccepted = true ∧
          ∃ executorId, (executorId, other) ∈ [execution].map fun execution =>
            (executor.id, execution) := by
      intro time other member
      rw [reports] at member
      cases List.mem_singleton.mp member
      exact ⟨accepted, executor.id, List.mem_singleton.mpr rfl⟩
    rcases timestamp with _ | _ | time
    · exact ⟨_, releases.report (reported systemNow)⟩
    · obtain ⟨more, dropped⟩ := dropExecutor_releases _ executor.id
      exact ⟨_, releases.trans dropped⟩
    · exact ⟨_, releases.report (reported _)⟩
  · exact ⟨_, releases⟩

end Messages

/-- An offered execution is accepted, it is to be started in the backend. -/
structure Accepts (executorId : ExecutorId) (execution : ExecutorExecution)
    (pool after : ExecutorPool) : Prop where
  offered : execution.isAccepted = false
  queues : Exchanges [(executorId, execution)]
    [(executorId, { execution with state := .accepted })] pool after
  accepted : ∃ startedAt,
    after.accepted = pool.accepted ++ [⟨execution.executionId, executorId, startedAt⟩]
  acceptedExecutions :
    after.acceptedExecutions = pool.acceptedExecutions.insert execution.executionId
  events : after.events = pool.events
  history : after.history = pool.history ++ [.accepted executorId execution.executionId]

theorem Accepts.heldIds {executorId : ExecutorId} {execution : ExecutorExecution}
    {pool after : ExecutorPool} (effect : Accepts executorId execution pool after) :
    after.heldIds.Perm pool.heldIds := by
  obtain ⟨_, before, left⟩ := effect.queues.ids
  exact left.trans before.symm

/-- An acceptance is of an offer, unless the execution was accepted before. -/
theorem executionAccepted_found {executor : Executor} {id : ExecutionId}
    {execution : ExecutorExecution}
    (found : pool.executors.find? (fun other => other.id == executor.id) = some executor)
    (inside : executor.findExecution id = some execution) :
    execution.isAccepted = true ∧ pool.executionAccepted executor id = pool ∨
      Accepts executor.id execution pool (pool.executionAccepted executor id) := by
  unfold executionAccepted
  rw [inside]
  dsimp only
  split
  · rename_i state
    exact .inl ⟨by rw [ExecutorExecution.isAccepted, state], rfl⟩
  · rename_i deadline offeredAt state
    refine .inr ⟨?_, ?_, ?_, ?_, rfl, ?_⟩
    · rw [ExecutorExecution.isAccepted, state]
    · have queues := Exchanges.modifyFirst found (Executor.exchanges_accept inside)
      exact ⟨queues.kept, queues.bounded, queues.configured, queues.executorIds⟩
    · exact ⟨offeredAt, by rw [Executor.findExecution_id inside]; rfl⟩
    · rw [Executor.findExecution_id inside]
      rfl
    · rw [Executor.findExecution_id inside]
      rfl

theorem executionAccepted_cases {executor : Executor}
    (found : pool.executors.find? (fun other => other.id == executor.id) = some executor)
    (id : ExecutionId) :
    Releases [] pool (pool.executionAccepted executor id) ∨
      ∃ execution, Accepts executor.id execution pool (pool.executionAccepted executor id) := by
  cases inside : executor.findExecution id with
  | none =>
      unfold executionAccepted
      rw [inside]
      exact .inl (.send pool executor rfl)
  | some execution =>
      rcases executionAccepted_found pool found inside with ⟨_, same⟩ | accepts
      · rw [same]
        exact .inl (.refl pool)
      · exact .inr ⟨execution, accepts⟩

/-- What one message of an executor does. -/
theorem executorMessage_cases (now : Instant) (systemNow : Time) (id : ExecutorId)
    (message : ExecutorMessage) :
    (∃ removed, Releases removed pool (pool.executorMessage now systemNow id message)) ∨
      ∃ executorId execution,
        Accepts executorId execution pool (pool.executorMessage now systemNow id message) := by
  unfold executorMessage
  split
  · exact .inl ⟨[], .refl pool⟩
  rename_i executor found
  have same : executor.id = id := by simpa using List.find?_some found
  subst same
  split
  · cases message with
    | capabilities executionHandshake jobQueues =>
        exact .inl (capabilities_releases found executionHandshake jobQueues)
    | heartbeat => exact .inl ⟨[], .refl pool⟩
    | executionAccepted id =>
        rcases pool.executionAccepted_cases found id with releases | ⟨execution, accepts⟩
        · exact .inl ⟨_, releases⟩
        · exact .inr ⟨_, _, accepts⟩
    | executionRejected id => exact .inl (executionRejected_releases found now id)
    | executionSucceeded id timestamp outputPayloadJson =>
        exact .inl (executionResult_releases found systemNow id timestamp fun _ _ => rfl)
    | executionFailed id timestamp failureReason =>
        exact .inl (executionResult_releases found systemNow id timestamp fun _ _ => rfl)
    | malformed => exact .inl (pool.dropExecutor_releases executor.id)
  · exact .inl (pool.dropExecutor_releases executor.id)

/-- An execution is offered to an executor. -/
structure Offers (executorId : ExecutorId) (execution : ExecutorExecution)
    (pool after : ExecutorPool) : Prop where
  offered : execution.isAccepted = false
  queues : Exchanges [] [(executorId, execution)] pool after
  accepted : after.accepted = pool.accepted
  acceptedExecutions : after.acceptedExecutions = pool.acceptedExecutions
  events : after.events = pool.events
  history : ∃ inputPayloadJson targetExecutionTime, after.history = pool.history ++
    [.sent executorId (.executionReady execution.jobId execution.executionId execution.jobTypeId
      execution.attemptNumber inputPayloadJson targetExecutionTime)]

theorem Offers.heldIds {executorId : ExecutorId} {execution : ExecutorExecution}
    {pool after : ExecutorPool} (effect : Offers executorId execution pool after) :
    after.heldIds.Perm (execution.executionId :: pool.heldIds) := by
  obtain ⟨_, before, left⟩ := effect.queues.ids
  exact left.trans (List.Perm.cons _ before.symm)

theorem modifyExecutor_executorIds (pool : ExecutorPool) (id : ExecutorId)
    {change : Executor → Executor} (keeps : ∀ executor, (change executor).id = executor.id) :
    (pool.modifyExecutor id change).executorIds = pool.executorIds :=
  modifyFirst_map change Executor.id keeps

theorem configured_iff (pool : ExecutorPool) : pool.Configured ↔
    ∀ shape ∈ pool.executors.map fun executor => (executor.initialized, executor.jobQueues.isEmpty),
      shape.1 = false → shape.2 = true := by
  simp [Configured, Executor.Configured]

/-- An execution is offered, and accepted at once by an executor that does not
answer offers. -/
theorem offerTo_cases {pool : ExecutorPool} {executor : Executor} {now : Instant}
    {execution : ReadyExecution} (unique : pool.executorIds.Nodup) (full : pool.Bounded)
    (member : executor ∈ pool.executors)
    (suitable : executor.suitable now execution.jobTypeId = true) (systemNow : Time) :
    ∃ entry offered, Attempt.ofExecutor entry = Attempt.ofReady execution ∧
      Offers executor.id entry pool offered ∧
      (executor.executionHandshake = true ∧
          pool.offerTo now systemNow executor execution = offered ∨
        executor.executionHandshake = false ∧
          Accepts executor.id entry offered (pool.offerTo now systemNow executor execution)) := by
  have found := find?_key_of_mem Executor.id unique member
  have connected : executor.connected = true := (Bool.and_eq_true_iff.mp suitable).1
  let entry (state : ExecutionState) : ExecutorExecution := ⟨execution.jobId,
    execution.executionId, execution.jobTypeId, execution.retryPolicy, execution.attemptNumber,
    state, systemNow⟩
  let sent : ExecutorPool := { pool with history := pool.history ++ [.sent executor.id
    (.executionReady execution.jobId execution.executionId execution.jobTypeId
      execution.attemptNumber execution.inputPayloadJson execution.targetExecutionTime)] }
  let add (state : ExecutionState) (executor : Executor) : Executor := { executor with
    jobQueues := modifyFirst (Executor.suitableQueue now execution.jobTypeId)
      (fun queue => queue.addExecution (entry state)) executor.jobQueues }
  let queued (state : ExecutionState) : ExecutorPool := sent.modifyExecutor executor.id (add state)
  have added : ∀ state, Exchanges [] [(executor.id, entry state)] pool (queued state) := by
    intro state
    have adds : Executor.Exchanges [] [entry state] executor (add state executor) :=
      Executor.exchanges_add suitable
    have queues := Exchanges.modifyFirst found adds
    exact ⟨queues.kept, queues.bounded, queues.configured, queues.executorIds⟩
  let offer : ExecutionState := .offered (now + offerTimeout) systemNow
  refine ⟨entry offer, queued offer, rfl, ⟨rfl, added offer, rfl, rfl, rfl, _, _, rfl⟩, ?_⟩
  unfold offerTo
  dsimp only
  rw [send, if_pos connected]
  split
  · exact .inl ⟨by assumption, rfl⟩
  · rename_i unanswered
    refine .inr ⟨by simpa using unanswered, rfl, ?_, ⟨systemNow, rfl⟩, rfl, rfl, rfl⟩
    obtain ⟨rest, before, offered⟩ := (added offer).kept
    obtain ⟨others, again, accepted⟩ := (added .accepted).kept
    have shapes : ∀ state, (queued state).executors.map (fun executor =>
        (executor.initialized, executor.jobQueues.isEmpty)) =
          pool.executors.map fun executor => (executor.initialized, executor.jobQueues.isEmpty) :=
      fun state => modifyFirst_map _ _ fun executor => by simp [add, modifyFirst_isEmpty]
    refine ⟨⟨rest, offered, accepted.trans ?_⟩, fun _ => (added .accepted).bounded full,
      fun known => ?_, [], ?_⟩
    · exact (again.symm.trans before).append_left _
    · have offered := (configured_iff (queued offer)).mp known
      change (queued .accepted).Configured
      rw [configured_iff, shapes]
      rwa [shapes] at offered
    · have ids : ∀ state, (queued state).executorIds = pool.executorIds := fun state =>
        modifyExecutor_executorIds sent executor.id fun _ => rfl
      exact .of_eq ((ids offer).trans (ids .accepted).symm)

/-- What every offer keeps for the rest of the executions holds after all of them. -/
theorem offerAll_induction {pool : ExecutorPool}
    {P : ExecutorPool → List ReadyExecution → Prop} (now : Instant) (systemNow : Time)
    (pick : ExecutionId → Nat) (held : List ExecutionId)
    (skip : ∀ pool execution rest, P pool (execution :: rest) → P pool rest)
    (offer : ∀ (pool : ExecutorPool) execution rest, ∀ executor ∈ pool.executors,
      P pool (execution :: rest) → execution.executionId ∉ held →
      executor.suitable now execution.jobTypeId = true →
      P (pool.offerTo now systemNow executor execution) rest)
    (executions : List ReadyExecution) (start : P pool executions) :
    P (offerAll now systemNow pick held pool executions).1 [] := by
  induction executions generalizing pool with
  | nil => exact start
  | cons execution rest ih =>
      unfold offerAll
      dsimp only
      split
      · exact ih (skip pool execution rest start)
      · rename_i executor chosen
        split at chosen
        · cases chosen
        · rename_i unheld
          have member := List.mem_of_getElem? chosen
          obtain ⟨present, suitable⟩ := List.mem_filter.mp member
          refine ih (offer pool execution rest executor present start ?_ suitable)
          simpa using unheld

end ExecutorPool

end Ora.Server
