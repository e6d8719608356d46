import Ora.Server.Offers

/-!
# Priorities over a pass

A pass of the ready loop offers one batch after the other, the executions with
the highest priority first.  An execution that no executor can take is passed
over for the rest of the pass.
-/

namespace Ora.Server

open Ora.Backend
open Ora.Library
open Ora.Postgres.PostgresBackend (Precedes readyExecutions_precede readyExecutions_after)

inductive Fate where
  | offered
  | held
  | passedOver
  deriving DecidableEq, Repr

namespace ExecutorPool

/-- The executions that are held by an executor, or remembered as accepted. -/
def heldSince (pool : ExecutorPool) (fetchedAt : Instant) : List ExecutionId :=
  pool.executions.map ExecutorExecution.executionId ++
    (pool.acceptedExecutions.retain fetchedAt).rows.map Prod.fst

def fate (held notOffered : List ExecutionId) (execution : ReadyExecution) : Fate :=
  if held.contains execution.executionId then
    .held
  else if notOffered.contains execution.executionId then
    .passedOver
  else
    .offered

/-- A batch with what became of each execution. -/
def fates (pool : ExecutorPool) (now : Instant) (systemNow : Time) (pick : ExecutionId → Nat)
    (batch : List ReadyExecution) (fetchedAt : Instant) : List (ReadyExecution × Fate) :=
  batch.map fun execution => (execution, fate (pool.heldSince fetchedAt)
    (pool.tryOffer now systemNow pick batch fetchedAt).2.notOffered execution)

/-- Some executor can take an execution of the job type. -/
def available (pool : ExecutorPool) (now : Instant) (jobTypeId : JobTypeId) : Bool :=
  pool.executors.any (Executor.suitable now jobTypeId)

end ExecutorPool

/-- The server, with what the current pass fetched so far. -/
structure ReadyPass where
  server : ServerState
  fetched : List (ReadyExecution × Fate)

/-- No execution is offered after one of its job type that was passed over. -/
def HigherFirst (fetched : List (ReadyExecution × Fate)) : Prop :=
  fetched.Pairwise fun earlier later =>
    earlier.1.jobTypeId = later.1.jobTypeId → later.2 = .offered → earlier.2 ≠ .passedOver

instance (fetched : List (ReadyExecution × Fate)) : Decidable (HigherFirst fetched) :=
  inferInstanceAs (Decidable (List.Pairwise _ fetched))

namespace ReadyPass

def initial : ReadyPass := ⟨.initial, []⟩

def fetchedAfter (pass : ReadyPass) : Action → List (ReadyExecution × Fate)
  | .startPass => []
  | .offer systemNow pick =>
      match pass.server.ready with
      | .offering _ fetchedAt batch => pass.fetched ++
          pass.server.pool.fates pass.server.now systemNow pick batch fetchedAt
      | _ => pass.fetched
  | _ => pass.fetched

def step (pass : ReadyPass) (action : Action) : Option ReadyPass :=
  (pass.server.step action).map fun server => ⟨server, pass.fetchedAfter action⟩

def passedOver (pass : ReadyPass) (jobTypeId : JobTypeId) : Bool :=
  pass.fetched.any fun entry => entry.2 == .passedOver && entry.1.jobTypeId == jobTypeId

/-- When a batch is offered, no executor can take its executions of a job type
that the pass has passed over. -/
def withoutCapacity (pass : ReadyPass) : Action → Bool
  | .offer _ _ =>
      match pass.server.ready with
      | .offering _ fetchedAt batch => batch.all fun execution =>
          (pass.server.pool.heldSince fetchedAt).contains execution.executionId ||
            (!pass.passedOver execution.jobTypeId ||
              !pass.server.pool.available pass.server.now execution.jobTypeId)
      | _ => true
  | _ => true

end ReadyPass

namespace Executor

variable {now : Instant} {jobTypeId other : JobTypeId} {executor : Executor}
  {execution : ExecutorExecution}

/-- An execution takes the place in a queue of its own type. -/
theorem suitable_of_added
    (found : suitable now jobTypeId { executor with
      jobQueues := modifyFirst (suitableQueue now other)
        (fun queue => queue.addExecution execution) executor.jobQueues } = true) :
    suitable now jobTypeId executor = true := by
  rw [suitable, Bool.and_eq_true] at found ⊢
  refine ⟨found.1, any_of_modifyFirst _ _ ?_ found.2⟩
  intro queue room
  simp only [suitableQueue, ExecutorJobQueue.hasCapacity, ExecutorJobQueue.addExecution,
    List.length_append, List.length_singleton, Bool.and_eq_true, decide_eq_true_eq] at room ⊢
  exact ⟨⟨Nat.lt_of_succ_lt room.1.1, room.1.2⟩, room.2⟩

theorem suitable_added (different : other ≠ jobTypeId) :
    suitable now jobTypeId { executor with
      jobQueues := modifyFirst (suitableQueue now other)
        (fun queue => queue.addExecution execution) executor.jobQueues } =
      suitable now jobTypeId executor := by
  rw [suitable, suitable]
  congr 1
  refine modifyFirst_any _ _ ?_
  intro queue matched
  rw [suitableQueue, Bool.and_eq_true, beq_iff_eq] at matched
  have mismatch : (queue.jobTypeId == jobTypeId) = false := by simpa [matched.2] using different
  simp [suitableQueue, ExecutorJobQueue.addExecution, mismatch]

end Executor

namespace ExecutorPool

variable {pool : ExecutorPool} {now : Instant} {systemNow : Time} {pick : ExecutionId → Nat}
  {held : List ExecutionId} {jobTypeId : JobTypeId} {executor : Executor}
  {execution : ReadyExecution} {batch : List ReadyExecution}

theorem offerTo_executors (pool : ExecutorPool) (now : Instant) (systemNow : Time)
    (executor : Executor) (execution : ReadyExecution) :
    ∃ entry, (pool.offerTo now systemNow executor execution).executors =
      modifyFirst (fun other => other.id == executor.id)
        (fun executor => { executor with
          jobQueues := modifyFirst (Executor.suitableQueue now execution.jobTypeId)
            (fun queue => queue.addExecution entry) executor.jobQueues }) pool.executors := by
  refine ⟨⟨execution.jobId, execution.executionId, execution.jobTypeId, execution.retryPolicy,
    execution.attemptNumber, if executor.executionHandshake then .offered (now + offerTimeout)
      systemNow else .accepted, systemNow⟩, ?_⟩
  unfold offerTo modifyExecutor
  dsimp only
  split
  · rw [send_executors]
  · rw [accept, send_executors]

/-- Offering an execution frees no capacity. -/
theorem offerTo_available
    (free : (pool.offerTo now systemNow executor execution).available now jobTypeId = true) :
    pool.available now jobTypeId = true := by
  obtain ⟨entry, changed⟩ := pool.offerTo_executors now systemNow executor execution
  rw [available, changed] at free
  exact any_of_modifyFirst _ _ (fun _ found => Executor.suitable_of_added found) free

/-- It takes capacity for its own job type only. -/
theorem offerTo_available_other (different : execution.jobTypeId ≠ jobTypeId) :
    (pool.offerTo now systemNow executor execution).available now jobTypeId =
      pool.available now jobTypeId := by
  obtain ⟨entry, changed⟩ := pool.offerTo_executors now systemNow executor execution
  rw [available, changed]
  exact modifyFirst_any _ _ fun _ _ => Executor.suitable_added different

/-- The first execution of a batch is passed over, or some executor takes it. -/
theorem offerAll_cons (held : List ExecutionId) (pool : ExecutorPool) (execution : ReadyExecution)
    (rest : List ReadyExecution) :
    ((execution.executionId ∈ held ∨ pool.available now execution.jobTypeId = false) ∧
      (offerAll now systemNow pick held pool (execution :: rest)).2.notOffered =
        execution.executionId :: (offerAll now systemNow pick held pool rest).2.notOffered) ∨
    (execution.executionId ∉ held ∧ pool.available now execution.jobTypeId = true ∧
      ∃ executor, (offerAll now systemNow pick held pool (execution :: rest)).2.notOffered =
        (offerAll now systemNow pick held
          (pool.offerTo now systemNow executor execution) rest).2.notOffered) := by
  rw [offerAll]
  dsimp only
  split
  · rename_i chosen
    refine .inl ⟨?_, rfl⟩
    split at chosen
    · rename_i isHeld
      exact .inl (List.contains_iff_mem.mp isHeld)
    · refine .inr (Bool.eq_false_iff.mpr fun free => ?_)
      obtain ⟨executor, present, suitable⟩ := List.any_eq_true.mp free
      have candidate := List.mem_filter.mpr ⟨present, suitable⟩
      rw [List.getElem?_eq_none_iff] at chosen
      exact Nat.not_le_of_lt (Nat.mod_lt _ (List.length_pos_of_mem candidate)) chosen
  · rename_i executor chosen
    split at chosen
    · cases chosen
    · rename_i unheld
      obtain ⟨present, suitable⟩ := List.mem_filter.mp (List.mem_of_getElem? chosen)
      exact .inr ⟨fun isHeld => unheld (List.contains_iff_mem.mpr isHeld),
        List.any_eq_true.mpr ⟨executor, present, suitable⟩, executor, rfl⟩

theorem offerAll_notOffered_subset (pool : ExecutorPool) :
    (offerAll now systemNow pick held pool batch).2.notOffered ⊆
      batch.map ReadyExecution.executionId := by
  induction batch generalizing pool with
  | nil => simp [offerAll]
  | cons execution rest ih =>
      rw [List.map_cons]
      rcases offerAll_cons held pool execution rest with
        ⟨_, passed⟩ | ⟨_, _, executor, taken⟩
      · rw [passed]
        exact List.cons_subset_cons _ (ih pool)
      · rw [taken]
        exact List.subset_cons_of_subset _ (ih _)

/-- Capacity does not appear while a batch is offered. -/
theorem offerAll_unavailable (full : pool.available now jobTypeId = false)
    (member : execution ∈ batch) (same : execution.jobTypeId = jobTypeId) :
    execution.executionId ∈ (offerAll now systemNow pick held pool batch).2.notOffered := by
  induction batch generalizing pool with
  | nil => cases member
  | cons first rest ih =>
      rcases offerAll_cons held pool first rest with
        ⟨_, passed⟩ | ⟨_, free, executor, taken⟩
      · rw [passed]
        rcases List.mem_cons.mp member with rfl | later
        · exact List.mem_cons_self ..
        · exact List.mem_cons_of_mem _ (ih full later)
      · rw [taken]
        rcases List.mem_cons.mp member with rfl | later
        · rw [same, full] at free
          cases free
        · refine ih (Bool.eq_false_iff.mpr fun free => ?_) later
          rw [offerTo_available free] at full
          cases full

/-- Within a batch nothing is offered after an execution of its type that could
not be offered. -/
theorem offerAll_ordered (distinct : (batch.map ReadyExecution.executionId).Nodup) :
    batch.Pairwise fun earlier later => earlier.jobTypeId = later.jobTypeId →
      earlier.executionId ∉ held →
      earlier.executionId ∈ (offerAll now systemNow pick held pool batch).2.notOffered →
      later.executionId ∈ (offerAll now systemNow pick held pool batch).2.notOffered := by
  induction batch generalizing pool with
  | nil => exact .nil
  | cons first rest ih =>
      obtain ⟨fresh, others⟩ := List.nodup_cons.mp distinct
      rcases offerAll_cons held pool first rest with
        ⟨reason, passed⟩ | ⟨_, _, executor, taken⟩
      · rw [passed]
        have ordered := @ih pool others
        refine .cons ?_ (ordered.imp_of_mem ?_)
        · intro later member same unheld _
          refine List.mem_cons_of_mem _ (offerAll_unavailable ?_ member same.symm)
          exact reason.resolve_left unheld
        · intro earlier later here _ ordered same unheld notOffered
          refine List.mem_cons_of_mem _ (ordered same unheld ?_)
          refine (List.mem_cons.mp notOffered).resolve_left fun first => fresh ?_
          exact first ▸ List.mem_map_of_mem here
      · rw [taken]
        refine .cons (fun later _ _ _ notOffered => absurd ?_ fresh) (ih others)
        exact offerAll_notOffered_subset _ notOffered

/-- Some execution takes capacity that is there. -/
theorem offerAll_available (distinct : (batch.map ReadyExecution.executionId).Nodup)
    (free : pool.available now jobTypeId = true) (member : execution ∈ batch)
    (same : execution.jobTypeId = jobTypeId) (unheld : execution.executionId ∉ held) :
    ∃ offered ∈ batch, offered.jobTypeId = jobTypeId ∧ offered.executionId ∉ held ∧
      offered.executionId ∉ (offerAll now systemNow pick held pool batch).2.notOffered := by
  induction batch generalizing pool with
  | nil => cases member
  | cons first rest ih =>
      obtain ⟨fresh, others⟩ := List.nodup_cons.mp distinct
      rcases offerAll_cons held pool first rest with
        ⟨reason, passed⟩ | ⟨unheldFirst, _, executor, taken⟩
      · rw [passed]
        rcases List.mem_cons.mp member with rfl | later
        · rcases reason with isHeld | full
          · exact absurd isHeld unheld
          · rw [same, free] at full
            cases full
        · obtain ⟨offered, here, type, unheldOffered, notPassed⟩ := ih others free later
          refine ⟨offered, List.mem_cons_of_mem _ here, type, unheldOffered, ?_⟩
          refine List.not_mem_cons_of_ne_of_not_mem (fun first => fresh ?_) notPassed
          exact first ▸ List.mem_map_of_mem here
      · rw [taken]
        by_cases type : first.jobTypeId = jobTypeId
        · exact ⟨first, List.mem_cons_self .., type, unheldFirst, fun passed =>
            fresh (offerAll_notOffered_subset _ passed)⟩
        · have later : execution ∈ rest := by
            refine (List.mem_cons.mp member).resolve_left ?_
            rintro rfl
            exact type same
          have remains : (pool.offerTo now systemNow executor first).available now jobTypeId =
              true := (offerTo_available_other type).trans free
          obtain ⟨offered, here, others⟩ := ih others remains later
          exact ⟨offered, List.mem_cons_of_mem _ here, others⟩

/-- The message that offers an execution. -/
def ready (execution : ReadyExecution) : ServerMessage :=
  .executionReady execution.jobId execution.executionId execution.jobTypeId execution.attemptNumber
    execution.inputPayloadJson execution.targetExecutionTime

theorem offerTo_history (suitable : executor.suitable now execution.jobTypeId = true) :
    ∃ accepted, (pool.offerTo now systemNow executor execution).history =
        pool.history ++ .sent executor.id (ready execution) :: accepted ∧
      ∀ id message, PoolEvent.sent id message ∉ accepted := by
  have connected : executor.connected = true := (Bool.and_eq_true_iff.mp suitable).1
  unfold offerTo modifyExecutor
  dsimp only
  rw [send, if_pos connected]
  split
  · exact ⟨[], rfl, by simp⟩
  · exact ⟨[.accepted executor.id execution.executionId], by simp [accept, ready], by simp⟩

/-- The executions of a batch that are not passed over are those that are sent. -/
theorem offerAll_sent (distinct : (batch.map ReadyExecution.executionId).Nodup)
    (pool : ExecutorPool) :
    ∃ events, (offerAll now systemNow pick held pool batch).1.history = pool.history ++ events ∧
      (∀ id message, PoolEvent.sent id message ∈ events →
        ∃ execution ∈ batch, message = ready execution) ∧
      ∀ execution ∈ batch, (∃ id, PoolEvent.sent id (ready execution) ∈ events) ↔
        execution.executionId ∉ (offerAll now systemNow pick held pool batch).2.notOffered := by
  induction batch generalizing pool with
  | nil => exact ⟨[], by simp [offerAll], by simp, by simp⟩
  | cons first rest ih =>
      obtain ⟨fresh, others⟩ := List.nodup_cons.mp distinct
      have unnamed {message : ServerMessage} (named : ∃ execution ∈ rest, message = ready execution) :
          message ≠ ready first := by
        rintro rfl
        obtain ⟨execution, member, same⟩ := named
        exact fresh ((ServerMessage.executionReady.inj same).2.1 ▸ List.mem_map_of_mem member)
      rw [offerAll]
      dsimp only
      split
      · obtain ⟨events, history, named, sent⟩ := ih others pool
        refine ⟨events, history, fun id message listed => ?_, fun execution member => ?_⟩
        · obtain ⟨execution, member, same⟩ := named id message listed
          exact ⟨execution, List.mem_cons_of_mem _ member, same⟩
        · rcases List.mem_cons.mp member with rfl | later
          · refine iff_of_false ?_ fun kept => kept (List.mem_cons_self ..)
            rintro ⟨id, listed⟩
            exact unnamed (named id _ listed) rfl
          · rw [sent execution later, List.mem_cons, not_or]
            refine (and_iff_right fun same => fresh ?_).symm
            exact same ▸ List.mem_map_of_mem later
      · rename_i executor chosen
        have suitable : executor.suitable now first.jobTypeId = true := by
          split at chosen
          · cases chosen
          · exact (List.mem_filter.mp (List.mem_of_getElem? chosen)).2
        obtain ⟨accepted, offered, silent⟩ := @offerTo_history pool now systemNow executor first suitable
        obtain ⟨events, history, named, sent⟩ := ih others (pool.offerTo now systemNow executor first)
        refine ⟨.sent executor.id (ready first) :: (accepted ++ events), ?_, ?_, ?_⟩
        · rw [history, offered, List.append_assoc, List.cons_append]
        · intro id message listed
          rcases List.mem_cons.mp listed with own | further
          · exact ⟨first, List.mem_cons_self .., (PoolEvent.sent.inj own).2⟩
          · obtain ⟨execution, member, same⟩ := named id message
              ((List.mem_append.mp further).resolve_left (silent id message))
            exact ⟨execution, List.mem_cons_of_mem _ member, same⟩
        · intro execution member
          rcases List.mem_cons.mp member with rfl | later
          · refine iff_of_true ⟨executor.id, List.mem_cons_self ..⟩ fun passed => fresh ?_
            exact offerAll_notOffered_subset _ passed
          · rw [← sent execution later]
            constructor
            · rintro ⟨id, listed⟩
              rcases List.mem_cons.mp listed with own | further
              · exact absurd (PoolEvent.sent.inj own).2 fun same =>
                  unnamed ⟨execution, later, rfl⟩ same
              · exact ⟨id, (List.mem_append.mp further).resolve_left (silent id _)⟩
            · rintro ⟨id, listed⟩
              exact ⟨id, List.mem_cons_of_mem _ (List.mem_append_right _ listed)⟩

/-- Held executions are passed over. -/
theorem held_notOffered (member : execution ∈ batch) (isHeld : execution.executionId ∈ held)
    (pool : ExecutorPool) :
    execution.executionId ∈ (offerAll now systemNow pick held pool batch).2.notOffered := by
  induction batch generalizing pool with
  | nil => cases member
  | cons first rest ih =>
      rcases offerAll_cons held pool first rest with ⟨_, passed⟩ | ⟨unheld, _, executor, taken⟩
      · rw [passed]
        rcases List.mem_cons.mp member with rfl | later
        · exact List.mem_cons_self ..
        · exact List.mem_cons_of_mem _ (ih later pool)
      · rw [taken]
        refine ih ((List.mem_cons.mp member).resolve_left ?_) _
        rintro rfl
        exact unheld isHeld

variable {fetchedAt : Instant} {notOffered : List ExecutionId}

theorem fate_eq_passedOver : fate held notOffered execution = .passedOver ↔
    execution.executionId ∉ held ∧ execution.executionId ∈ notOffered := by
  unfold fate
  split <;> rename_i isHeld <;> rw [List.contains_iff_mem] at isHeld
  · simp [isHeld]
  · split <;> simp_all

theorem fate_eq_offered : fate held notOffered execution = .offered ↔
    execution.executionId ∉ held ∧ execution.executionId ∉ notOffered := by
  unfold fate
  split <;> rename_i isHeld <;> rw [List.contains_iff_mem] at isHeld
  · simp [isHeld]
  · split <;> simp_all

/-- A batch is offered, as it is not empty when it has some execution. -/
theorem tryOffer_eq (member : execution ∈ batch) :
    pool.tryOffer now systemNow pick batch fetchedAt =
      offerAll now systemNow pick (pool.heldSince fetchedAt)
        { pool with acceptedExecutions := pool.acceptedExecutions.retain fetchedAt } batch := by
  rw [tryOffer, if_neg]
  · rfl
  · simpa using List.ne_nil_of_mem member

theorem tryOffer_notOffered (member : execution ∈ batch) :
    (pool.tryOffer now systemNow pick batch fetchedAt).2.notOffered =
      (offerAll now systemNow pick (pool.heldSince fetchedAt)
        { pool with acceptedExecutions := pool.acceptedExecutions.retain fetchedAt }
        batch).2.notOffered := by
  rw [tryOffer_eq member]

/-- What is offered of a batch is what is sent to executors. -/
theorem fate_offered_iff_sent (distinct : (batch.map ReadyExecution.executionId).Nodup)
    (member : execution ∈ batch) :
    (execution, .offered) ∈ pool.fates now systemNow pick batch fetchedAt ↔
      ∃ id, PoolEvent.sent id (ready execution) ∈
        (pool.tryOffer now systemNow pick batch fetchedAt).1.history.drop pool.history.length := by
  have listed : (execution, .offered) ∈ pool.fates now systemNow pick batch fetchedAt ↔
      fate (pool.heldSince fetchedAt)
        (pool.tryOffer now systemNow pick batch fetchedAt).2.notOffered execution = .offered := by
    simp [fates, member]
  obtain ⟨events, history, _, sent⟩ := @offerAll_sent now systemNow pick
    (pool.heldSince fetchedAt) batch distinct
    { pool with acceptedExecutions := pool.acceptedExecutions.retain fetchedAt }
  rw [listed, fate_eq_offered, tryOffer_eq member, history, List.drop_left, sent execution member]
  exact and_iff_right_of_imp fun kept isHeld => kept (held_notOffered member isHeld _)

theorem fates_map : (pool.fates now systemNow pick batch fetchedAt).map Prod.fst = batch := by
  rw [fates, List.map_map]
  exact List.map_id batch

theorem fates_higherFirst (distinct : (batch.map ReadyExecution.executionId).Nodup) :
    HigherFirst (pool.fates now systemNow pick batch fetchedAt) := by
  have ordered := @offerAll_ordered
    { pool with acceptedExecutions := pool.acceptedExecutions.retain fetchedAt } now systemNow pick
    (pool.heldSince fetchedAt) batch distinct
  refine List.pairwise_map.mpr (ordered.imp_of_mem ?_)
  intro earlier later member _ ordered same offered passed
  rw [fate_eq_offered, tryOffer_notOffered member] at offered
  rw [fate_eq_passedOver, tryOffer_notOffered member] at passed
  exact offered.2 (ordered same passed.1 passed.2)

/-- Whether some execution of a job type is offered depends on the capacity only. -/
theorem offered_mem_fates (distinct : (batch.map ReadyExecution.executionId).Nodup) :
    (∃ entry ∈ pool.fates now systemNow pick batch fetchedAt,
        entry.1.jobTypeId = jobTypeId ∧ entry.2 = .offered) ↔
      pool.available now jobTypeId = true ∧
        ∃ execution ∈ batch, execution.jobTypeId = jobTypeId ∧
          execution.executionId ∉ pool.heldSince fetchedAt := by
  constructor
  · rintro ⟨_, listed, type, offered⟩
    obtain ⟨execution, member, rfl⟩ := List.mem_map.mp listed
    rw [fate_eq_offered, tryOffer_notOffered member] at offered
    refine ⟨?_, execution, member, type, offered.1⟩
    by_contra full
    exact offered.2 (offerAll_unavailable (Bool.eq_false_iff.mpr full) member type)
  · rintro ⟨free, execution, member, type, unheld⟩
    obtain ⟨offered, here, sameType, unheldOffered, notPassed⟩ := @offerAll_available
      { pool with acceptedExecutions := pool.acceptedExecutions.retain fetchedAt } now systemNow
      pick _ jobTypeId execution batch distinct free member type unheld
    refine ⟨_, List.mem_map_of_mem here, sameType, fate_eq_offered.mpr ⟨unheldOffered, ?_⟩⟩
    rw [tryOffer_notOffered member]
    exact notPassed

end ExecutorPool

/-- What follows the last row of the batch before follows all that was fetched. -/
def Follows (fetched : List (ReadyExecution × Fate)) (last : Option (Int × ExecutionId)) : Prop :=
  ∀ execution : ReadyExecution, (∀ priority id, last = some (priority, id) →
      execution.priority < priority ∨ execution.priority = priority ∧ id < execution.executionId) →
    ∀ entry ∈ fetched, Precedes entry.1 execution

/-- The next batch follows what the pass has fetched. -/
def ReadyLoop.Follows (fetched : List (ReadyExecution × Fate)) : ReadyLoop → Prop
  | .idle => True
  | .passing _ last => Server.Follows fetched last
  | .fetching _ last _ => Server.Follows fetched last
  | .offering _ _ batch => batch ≠ [] ∧ batch.Pairwise Precedes ∧
      ∀ entry ∈ fetched, ∀ execution ∈ batch, Precedes entry.1 execution
  | .offered _ last => Server.Follows fetched last

/-- The last execution of a batch is the last of all that was fetched. -/
theorem Follows.offered {fetched fates : List (ReadyExecution × Fate)}
    {batch : List ReadyExecution} (nonempty : batch ≠ []) (sorted : batch.Pairwise Precedes)
    (later : ∀ entry ∈ fetched, ∀ execution ∈ batch, Precedes entry.1 execution)
    (same : fates.map Prod.fst = batch) :
    Follows (fetched ++ fates) (batch.getLast?.map fun execution =>
      (execution.priority, execution.executionId)) := by
  intro execution beyond entry member
  obtain rfl | ⟨front, last, split⟩ := List.eq_nil_or_concat' batch
  · exact absurd rfl nonempty
  have next : Precedes last execution := by
    rcases beyond last.priority last.executionId (by rw [split]; simp) with lower | ⟨equal, above⟩
    · exact .inl lower
    · exact .inr ⟨equal.symm, above⟩
  have final : last ∈ batch := by rw [split]; simp
  rcases List.mem_append.mp member with earlier | now
  · exact (later entry earlier last final).trans next
  · have listed : entry.1 ∈ batch := same ▸ List.mem_map_of_mem now
    rw [split] at listed sorted
    rcases List.mem_append.mp listed with before | same
    · exact ((List.pairwise_append.mp sorted).2.2 entry.1 before last
        (List.mem_singleton_self last)).trans next
    · rwa [List.mem_singleton.mp same]

structure PassInvariant (pass : ReadyPass) : Prop where
  offers : pass.server.offerInvariant
  sorted : pass.fetched.Pairwise fun earlier later => Precedes earlier.1 later.1
  follows : pass.server.ready.Follows pass.fetched

namespace ReadyPass

variable {pass after : ReadyPass} {action : Action}

theorem passInvariant_initial : PassInvariant initial :=
  ⟨ServerState.offerInvariant_initial, .nil, trivial⟩

theorem step_server (done : pass.step action = some after) :
    ∃ server, pass.server.step action = some server ∧
      after = ⟨server, pass.fetchedAfter action⟩ := by
  obtain ⟨server, taken, rfl⟩ := Option.map_eq_some_iff.mp done
  exact ⟨server, taken, rfl⟩

theorem passedOver_iff {jobTypeId : JobTypeId} : pass.passedOver jobTypeId = true ↔
    ∃ entry ∈ pass.fetched, entry.2 = .passedOver ∧ entry.1.jobTypeId = jobTypeId := by
  simp [passedOver]

theorem fetchedAfter_of_other (other : action.ofReady = false) :
    pass.fetchedAfter action = pass.fetched := by
  cases action <;> first | rfl | cases other

theorem passInvariant_step (inv : PassInvariant pass) (done : pass.step action = some after) :
    PassInvariant after := by
  obtain ⟨server, taken, rfl⟩ := step_server done
  have offers : server.offerInvariant := ServerState.offerInvariant_step inv.offers taken
  have follows := inv.follows
  cases other : action.ofReady with
  | false =>
      rw [fetchedAfter_of_other other]
      refine ⟨offers, inv.sorted, ?_⟩
      rw [(ServerState.step_loops taken).2.2.2.1 other]
      exact follows
  | true =>
      cases action with
      | startPass =>
          obtain ⟨_, rfl⟩ := ServerState.step_startPass taken
          exact ⟨offers, .nil, fun _ _ _ member => absurd member List.not_mem_nil⟩
      | readClock =>
          obtain ⟨ignored, last, current, rfl⟩ := ServerState.step_readClock taken
          rw [current] at follows
          exact ⟨offers, inv.sorted, follows⟩
      | fetchReady now =>
          obtain ⟨ignored, last, fetchedAt, current, rfl⟩ := ServerState.step_fetchReady taken
          rw [current] at follows
          refine ⟨offers, inv.sorted, ?_⟩
          dsimp only [fetchedAfter]
          unfold ServerState.fetched
          split
          · exact trivial
          · rename_i empty
            refine ⟨empty, readyExecutions_precede, ?_⟩
            intro entry member execution fetched
            exact follows execution (fun _ _ previous => readyExecutions_after fetched previous)
              entry member
      | fetchFails =>
          obtain ⟨_, _, _, _, rfl⟩ := ServerState.step_fetchFails taken
          exact ⟨offers, inv.sorted, trivial⟩
      | offer systemNow pick =>
          obtain ⟨ignored, fetchedAt, batch, current, rfl⟩ := ServerState.step_offer taken
          rw [current] at follows
          obtain ⟨nonempty, sorted, later⟩ := follows
          simp only [fetchedAfter, current]
          refine ⟨offers, List.pairwise_append.mpr ⟨inv.sorted, List.pairwise_map.mpr sorted, ?_⟩, ?_⟩
          · intro entry earlier _ listed
            obtain ⟨execution, member, rfl⟩ := List.mem_map.mp listed
            exact later entry earlier execution member
          · exact .offered nonempty sorted later ExecutorPool.fates_map
      | checkCapacity =>
          obtain ⟨ignored, last, current, rfl⟩ := ServerState.step_checkCapacity taken
          rw [current] at follows
          refine ⟨offers, inv.sorted, ?_⟩
          dsimp only [fetchedAfter]
          unfold ServerState.checkCapacity
          split
          · exact follows
          · exact trivial
      | _ => cases other

/-- An offer keeps the order exactly when it takes no capacity of a job type
that the pass has passed over. -/
theorem higherFirst_step (inv : PassInvariant pass) (ordered : HigherFirst pass.fetched)
    (done : pass.step action = some after) :
    HigherFirst after.fetched ↔ pass.withoutCapacity action = true := by
  obtain ⟨server, taken, rfl⟩ := step_server done
  cases action with
  | offer systemNow pick =>
      obtain ⟨ignored, fetchedAt, batch, current, rfl⟩ := ServerState.step_offer taken
      have distinct : (batch.map ReadyExecution.executionId).Nodup := by
        have distinct := inv.offers.batch
        rwa [current] at distinct
      simp only [fetchedAfter, withoutCapacity, current]
      constructor
      · intro ordered
        obtain ⟨_, _, across⟩ := List.pairwise_append.mp ordered
        rw [List.all_eq_true]
        intro execution member
        by_contra takes
        simp only [Bool.or_eq_true, Bool.not_eq_true', not_or, Bool.not_eq_false,
          List.contains_iff_mem] at takes
        obtain ⟨unheld, passed, free⟩ := takes
        obtain ⟨offered, listed, sameType, isOffered⟩ := (ExecutorPool.offered_mem_fates
          distinct).mpr ⟨free, execution, member, rfl, unheld⟩
        obtain ⟨earlier, fetched, isPassed, type⟩ := passedOver_iff.mp passed
        exact across earlier fetched offered listed (type.trans sameType.symm) isOffered isPassed
      · intro full
        refine List.pairwise_append.mpr ⟨ordered, ExecutorPool.fates_higherFirst distinct, ?_⟩
        intro earlier fetched offered listed sameType isOffered isPassed
        obtain ⟨free, execution, member, type, unheld⟩ := (ExecutorPool.offered_mem_fates
          distinct).mp ⟨offered, listed, rfl, isOffered⟩
        have passed : pass.passedOver execution.jobTypeId = true :=
          passedOver_iff.mpr ⟨earlier, fetched, isPassed, sameType.trans type.symm⟩
        have takes := List.all_eq_true.mp full execution member
        rw [passed, type, free, Bool.or_eq_true, List.contains_iff_mem] at takes
        exact unheld (takes.resolve_right (by simp))
  | startPass => exact ⟨fun _ => rfl, fun _ => .nil⟩
  | _ => exact ⟨fun _ => rfl, fun _ => ordered⟩

end ReadyPass

/-- Nothing is offered in a pass after an execution of its job type that was
passed over, as long as no executor can take a passed over job type again. -/
theorem higher_priority_first {pass : ReadyPass}
    (run : Reaches ReadyPass.step (fun pass action => pass.withoutCapacity action = true)
      .initial pass) :
    (pass.fetched.Pairwise fun earlier later => Precedes earlier.1 later.1) ∧
      HigherFirst pass.fetched ∧
      ∀ action after, pass.step action = some after →
        (HigherFirst after.fetched ↔ pass.withoutCapacity action = true) := by
  have preserved : ∀ pass action after, PassInvariant pass ∧ HigherFirst pass.fetched →
      pass.withoutCapacity action = true → pass.step action = some after →
      PassInvariant after ∧ HigherFirst after.fetched :=
    fun pass action after inv permitted done => ⟨ReadyPass.passInvariant_step inv.1 done,
      (ReadyPass.higherFirst_step inv.1 inv.2 done).mpr permitted⟩
  have inv := run.invariant preserved ⟨ReadyPass.passInvariant_initial, .nil⟩
  exact ⟨inv.1.sorted, inv.2, fun _ _ done => ReadyPass.higherFirst_step inv.1 inv.2 done⟩

/-- Two jobs are ready, of which an executor takes the first.  It has room for
another job type as well. -/
def passedOnce : List Action :=
  let ready (priority : Int) : NewJob :=
    ⟨{ (Postgres.plainJob 0).job with priority := priority }, none⟩
  [.addJobs 0 (fun _ => 0) [ready 5, ready 5] none, .connect,
    .message 0 0 (.capabilities false (some [("type", 1), ("other", 1)])),
    .startPass, .readClock, .fetchReady 0, .offer 0 fun _ => 0]

/-- The executor is done while the pass goes on, and takes a job with a lower
priority that was added meanwhile. -/
def overtaken : List Action :=
  passedOnce ++ [.message 0 0 (.executionSucceeded 2 .absent "{}"),
    .addJobs 0 (fun _ => 0) [Postgres.plainJob 0] none,
    .checkCapacity, .readClock, .fetchReady 0, .offer 0 fun _ => 0]

theorem higher_priority_first_passedOnce :
    ∃ pass : ReadyPass, Reaches ReadyPass.step
        (fun pass action => pass.withoutCapacity action = true) .initial pass ∧
      pass.fetched.map Prod.snd = [.offered, .passedOver] ∧ HigherFirst pass.fetched := by
  obtain ⟨pass, run, checked⟩ := exists_reaches_of_execute ReadyPass.step
    (fun pass action => pass.withoutCapacity action = true) .initial passedOnce
    (fun pass => pass.fetched.map Prod.snd == [.offered, .passedOver]) (by decide)
  exact ⟨pass, run, by simpa using checked, (higher_priority_first run).2.1⟩

theorem overtaken_not_higherFirst :
    ∃ pass : ReadyPass, Reaches ReadyPass.step (fun _ _ => True) .initial pass ∧
      ¬HigherFirst pass.fetched := by
  obtain ⟨pass, run, checked⟩ := exists_reaches_of_execute ReadyPass.step (fun _ _ => True)
    .initial overtaken
    (fun pass => !decide (HigherFirst pass.fetched)) (by decide)
  exact ⟨pass, run, by simpa using checked⟩

end Ora.Server
