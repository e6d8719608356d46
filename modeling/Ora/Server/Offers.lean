import Ora.Postgres.ActiveExecution
import Ora.Postgres.Evolution
import Ora.Server.Steps

/-!
# Offers

An execution that was accepted is not offered again.  It is remembered by the
pool until no batch can contain it: a batch fetched after its start was
recorded was fetched when it was not pending anymore.
-/

namespace Ora.Server

open Ora.Backend
open Ora.Library
open Ora.Postgres (Store Pick Operation Evolves Issued NotPending)

def PoolEvent.take (id : ExecutionId) (taken : Bool) : PoolEvent → Bool
  | .sent _ _ => taken
  | .accepted _ other => taken || other == id
  | .forgotten other => taken && other != id

/-- Whether the execution was accepted, and not forgotten since. -/
def taken (history : List PoolEvent) (id : ExecutionId) : Bool :=
  history.foldl (PoolEvent.take id) false

/-- Nothing is offered while it is taken. -/
def NoReoffer (history : List PoolEvent) : Prop :=
  ∀ before executorId message after id, history = before ++ .sent executorId message :: after →
    message.offered? = some id → taken before id = false

section Histories

variable {history new : List PoolEvent} {id : ExecutionId}

theorem taken_append_sent (executorId : ExecutorId) (message : ServerMessage) :
    taken (history ++ [.sent executorId message]) id = taken history id := by
  simp [taken, PoolEvent.take]

theorem taken_append_accepted (executorId : ExecutorId) (other : ExecutionId) :
    taken (history ++ [.accepted executorId other]) id = (taken history id || other == id) := by
  simp [taken, PoolEvent.take]

theorem taken_append_quiet (quiet : ∀ event ∈ new, event.quiet = true) :
    taken (history ++ new) id = taken history id := by
  rw [taken, taken, List.foldl_append]
  generalize history.foldl (PoolEvent.take id) false = before
  induction new with
  | nil => rfl
  | cons event rest ih =>
      obtain ⟨first, later⟩ := List.forall_mem_cons.mp quiet
      cases event with
      | sent executorId message => exact ih later
      | accepted executorId other => cases first
      | forgotten other => cases first

theorem taken_append_forgotten (ids : List ExecutionId) :
    taken (history ++ ids.map .forgotten) id = (taken history id && !ids.contains id) := by
  rw [taken, taken, List.foldl_append]
  generalize history.foldl (PoolEvent.take id) false = before
  induction ids generalizing before with
  | nil => simp
  | cons other rest ih =>
      rw [List.map_cons, List.foldl_cons, ih, PoolEvent.take, List.contains_cons, Bool.not_or,
        ← Bool.and_assoc]
      congr 2
      rw [bne, Bool.beq_comm]

theorem NoReoffer.empty : NoReoffer [] := by
  intro before executorId message after id same
  simp at same

/-- What is not taken may be offered. -/
theorem NoReoffer.snoc (before : NoReoffer history) {event : PoolEvent}
    (free : ∀ executorId message id, event = .sent executorId message →
      message.offered? = some id → taken history id = false) :
    NoReoffer (history ++ [event]) := by
  intro start executorId message after id same offers
  obtain rfl | ⟨rest, last, rfl⟩ := List.eq_nil_or_concat' after
  · obtain ⟨rfl, single⟩ := List.append_inj' same rfl
    exact free executorId message id (List.singleton_inj.mp single) offers
  · rw [← List.cons_append, ← List.append_assoc] at same
    obtain ⟨earlier, _⟩ := List.append_inj' same rfl
    exact before start executorId message rest id earlier offers

theorem NoReoffer.append (before : NoReoffer history)
    (free : ∀ executorId message, .sent executorId message ∈ new → message.offered? = none) :
    NoReoffer (history ++ new) := by
  induction new generalizing history with
  | nil =>
      rw [List.append_nil]
      exact before
  | cons event rest ih =>
      rw [List.append_cons]
      refine ih (before.snoc ?_) fun executorId message member =>
        free executorId message (List.mem_cons_of_mem _ member)
      rintro executorId message id rfl offers
      rw [free executorId message (List.mem_cons_self ..)] at offers
      cases offers

theorem NoReoffer.quiet (before : NoReoffer history) (quiet : ∀ event ∈ new, event.quiet = true) :
    NoReoffer (history ++ new) :=
  before.append fun executorId message member => by
    simpa [PoolEvent.quiet] using quiet (.sent executorId message) member

end Histories

namespace AcceptedExecutions

variable {table : AcceptedExecutions} {entry : ExecutionId × Option Instant}

theorem mem_insert {id : ExecutionId} :
    entry ∈ (table.insert id).rows ↔ entry = (id, none) ∨ entry ∈ table.rows ∧ entry.1 ≠ id := by
  simp [insert]

theorem mem_retain {fetchedAt : Instant} :
    entry ∈ (table.retain fetchedAt).rows ↔
      entry ∈ table.rows ∧ ∀ startedAt, entry.2 = some startedAt → fetchedAt ≤ startedAt := by
  simp only [retain, Table.delete_rows, List.mem_filter, Bool.not_not, and_congr_right_iff]
  intro _
  cases entry.2 <;> simp

theorem mem_notStarted {ids : List ExecutionId} :
    entry ∈ (table.notStarted ids).rows ↔ entry ∈ table.rows ∧ entry.1 ∉ ids := by
  simp [notStarted]

/-- The start of an execution is recorded if it is named, else its entry is kept. -/
theorem mem_started_of_mem (ids : List ExecutionId) (now : Instant) (member : entry ∈ table.rows) :
    (if entry.1 ∈ ids then (entry.1, some now) else entry) ∈ (table.started ids now).rows := by
  simpa [started] using List.mem_map_of_mem (f := fun entry : ExecutionId × Option Instant =>
    if ids.contains entry.1 then (entry.1, some now) else entry) member

end AcceptedExecutions

namespace ReadyLoop

def batch : ReadyLoop → List ReadyExecution
  | .offering _ _ batch => batch
  | _ => []

def batchIds (ready : ReadyLoop) : List ExecutionId :=
  ready.batch.map ReadyExecution.executionId

/-- When the clock was read for the batch. -/
def fetchedAt? : ReadyLoop → Option Instant
  | .fetching _ _ fetchedAt => some fetchedAt
  | .offering _ fetchedAt _ => some fetchedAt
  | _ => none

end ReadyLoop

/-- The starts that are being committed or were. -/
def StartsLoop.executions : StartsLoop → List StartedExecution
  | .starting executions => executions
  | .started executions _ => executions
  | _ => []

/-- Why an accepted execution is not offered: it is remembered, or it is not
pending and was not fetched before. -/
inductive Kept (store : Store) (table : AcceptedExecutions) (ready : ReadyLoop)
    (id : ExecutionId) : Prop where
  | waiting (remembered : (id, none) ∈ table.rows)
  | started (startedAt : Instant) (remembered : (id, some startedAt) ∈ table.rows)
      (status : NotPending store id)
      (recorded : ∀ fetchedAt, ready.fetchedAt? = some fetchedAt → id ∈ ready.batchIds →
        fetchedAt ≤ startedAt)
  | gone (status : NotPending store id) (unfetched : id ∉ ready.batchIds)

structure PoolInvariant (nextExecutor : ExecutorId) (pool : ExecutorPool) : Prop where
  executorIds : pool.executorIds.Nodup
  connected : ∀ id ∈ pool.executorIds, id < nextExecutor
  unique : pool.heldIds.Nodup
  bounded : pool.Bounded
  history : NoReoffer pool.history

structure OfferInvariant (store : Store) (now : Instant) (nextExecutor : ExecutorId)
    (pool : ExecutorPool) (ready : ReadyLoop) (starts : StartsLoop) : Prop where
  issued : Issued store
  queues : PoolInvariant nextExecutor pool
  held : ∀ id ∈ pool.heldIds, id < store.nextUuid
  fetched : ∀ id ∈ ready.batchIds, id < store.nextUuid
  accepted : ∀ execution ∈ pool.accepted ++ starts.executions,
    execution.executionId < store.nextUuid
  batch : ready.batchIds.Nodup
  fetchedAt : ∀ fetchedAt, ready.fetchedAt? = some fetchedAt → fetchedAt ≤ now
  started : ∀ executions returned, starts = .started executions returned →
    ∀ execution ∈ executions, NotPending store execution.executionId
  kept : ∀ id, taken pool.history id = true → Kept store pool.acceptedExecutions ready id

namespace PoolInvariant

variable {nextExecutor : ExecutorId} {pool after : ExecutorPool}

theorem of_exchanges {removed added : List (ExecutorId × ExecutorExecution)}
    (inv : PoolInvariant nextExecutor pool) (queues : pool.Exchanges removed added after)
    (unique : after.heldIds.Nodup) (history : NoReoffer after.history) :
    PoolInvariant nextExecutor after := by
  obtain ⟨gone, same⟩ := queues.executorIds
  refine ⟨?_, ?_, unique, queues.bounded inv.bounded, history⟩
  · exact (List.nodup_append.mp (same.nodup_iff.mp inv.executorIds)).2.1
  · exact fun id member => inv.connected id (same.mem_iff.mpr (List.mem_append_right _ member))

end PoolInvariant

namespace OfferInvariant

variable {store : Store} {now : Instant} {nextExecutor : ExecutorId} {pool after : ExecutorPool}
  {ready : ReadyLoop} {starts : StartsLoop}

theorem releases {removed : List (ExecutorId × ExecutorExecution)}
    (inv : OfferInvariant store now nextExecutor pool ready starts)
    (effect : pool.Releases removed after) :
    OfferInvariant store now nextExecutor after ready starts := by
  obtain ⟨sent, history, quiet⟩ := effect.history
  refine { inv with
    queues := inv.queues.of_exchanges effect.queues (effect.unique inv.queues.unique) ?_
    held := fun id member => inv.held id (effect.heldIds id member)
    accepted := ?_
    kept := ?_ }
  · rw [history]
    exact inv.queues.history.quiet quiet
  · rw [effect.accepted]
    exact inv.accepted
  · intro id accepted
    rw [history, taken_append_quiet quiet] at accepted
    rw [effect.acceptedExecutions]
    exact inv.kept id accepted

theorem accepts {executorId : ExecutorId} {execution : ExecutorExecution}
    (inv : OfferInvariant store now nextExecutor pool ready starts)
    (effect : pool.Accepts executorId execution after) :
    OfferInvariant store now nextExecutor after ready starts := by
  have same := effect.heldIds
  obtain ⟨rest, before, _⟩ := effect.queues.ids
  obtain ⟨startedAt, accepted⟩ := effect.accepted
  have known : execution.executionId < store.nextUuid :=
    inv.held _ (before.mem_iff.mpr (List.mem_cons_self ..))
  refine { inv with
    queues := inv.queues.of_exchanges effect.queues (same.nodup_iff.mpr inv.queues.unique) ?_
    held := fun id member => inv.held id (same.mem_iff.mp member)
    accepted := ?_
    kept := ?_ }
  · rw [effect.history]
    exact inv.queues.history.snoc fun _ _ _ same => by cases same
  · intro other member
    rw [accepted, List.append_assoc, List.mem_append, List.mem_append, List.mem_singleton] at member
    rcases member with old | rfl | later
    · exact inv.accepted other (List.mem_append_left _ old)
    · exact known
    · exact inv.accepted other (List.mem_append_right _ later)
  · intro id isTaken
    rw [effect.history, taken_append_accepted, Bool.or_eq_true, beq_iff_eq] at isTaken
    rw [effect.acceptedExecutions]
    by_cases same : execution.executionId = id
    · exact .waiting (AcceptedExecutions.mem_insert.mpr (.inl (by rw [same])))
    · have others : ∀ started, (id, started) ∈ pool.acceptedExecutions.rows →
          (id, started) ∈ (pool.acceptedExecutions.insert execution.executionId).rows :=
        fun started member => AcceptedExecutions.mem_insert.mpr (.inr ⟨member, Ne.symm same⟩)
      cases inv.kept id (isTaken.resolve_right same) with
      | waiting remembered => exact .waiting (others _ remembered)
      | started startedAt remembered status recorded =>
          exact .started startedAt (others _ remembered) status recorded
      | gone status unfetched => exact .gone status unfetched

theorem offers {executorId : ExecutorId} {execution : ExecutorExecution}
    (inv : OfferInvariant store now nextExecutor pool ready starts)
    (effect : pool.Offers executorId execution after)
    (unheld : execution.executionId ∉ pool.heldIds)
    (free : taken pool.history execution.executionId = false)
    (known : execution.executionId < store.nextUuid) :
    OfferInvariant store now nextExecutor after ready starts := by
  have ids := effect.heldIds
  obtain ⟨inputPayloadJson, targetExecutionTime, history⟩ := effect.history
  refine { inv with
    queues := inv.queues.of_exchanges effect.queues
      (ids.nodup_iff.mpr (List.nodup_cons.mpr ⟨unheld, inv.queues.unique⟩)) ?_
    held := ?_
    accepted := ?_
    kept := ?_ }
  · rw [history]
    refine inv.queues.history.snoc ?_
    rintro _ _ id ⟨rfl, rfl⟩ ⟨rfl⟩
    exact free
  · intro id member
    rcases List.mem_cons.mp (ids.mem_iff.mp member) with rfl | old
    · exact known
    · exact inv.held id old
  · rw [effect.accepted]
    exact inv.accepted
  · intro id isTaken
    rw [history, taken_append_sent] at isTaken
    rw [effect.acceptedExecutions]
    exact inv.kept id isTaken

/-- The next batch is not fetched yet. -/
theorem unfetched (inv : OfferInvariant store now nextExecutor pool ready starts) (later : ReadyLoop)
    (empty : later.batch = [])
    (read : ∀ fetchedAt, later.fetchedAt? = some fetchedAt → fetchedAt ≤ now) :
    OfferInvariant store now nextExecutor pool later starts := by
  have ids : later.batchIds = [] := by rw [ReadyLoop.batchIds, empty, List.map_nil]
  refine { inv with
    fetched := by simp [ids]
    batch := by simp [ids]
    fetchedAt := read
    kept := ?_ }
  intro id isTaken
  cases inv.kept id isTaken with
  | waiting remembered => exact .waiting remembered
  | started startedAt remembered status _ =>
      exact .started startedAt remembered status (by simp [ids])
  | gone status _ => exact .gone status (by simp [ids])

/-- A batch holds pending executions only. -/
theorem fetches {ignored : List ExecutionId} {last : Option (Int × ExecutionId)}
    {fetchedAt : Instant}
    (inv : OfferInvariant store now nextExecutor pool (.fetching ignored last fetchedAt) starts)
    (systemNow : Time) : OfferInvariant store now nextExecutor pool
      (.offering ignored fetchedAt
        (Postgres.PostgresBackend.readyExecutions store systemNow ignored last)) starts := by
  have pending : ∀ id ∈ (Postgres.PostgresBackend.readyExecutions store systemNow ignored last).map
      ReadyExecution.executionId, id < store.nextUuid ∧ ¬NotPending store id := by
    intro id member
    obtain ⟨execution, fetched, rfl⟩ := List.mem_map.mp member
    obtain ⟨row, present, job, _, _, status, rfl⟩ :=
      Postgres.PostgresBackend.mem_readyExecutions fetched
    exact ⟨inv.issued.executions row present, fun other => other.status row present rfl status⟩
  refine { inv with
    fetched := fun id member => (pending id member).1
    batch := Postgres.PostgresBackend.readyExecutions_nodup
    fetchedAt := inv.fetchedAt
    kept := ?_ }
  intro id isTaken
  cases inv.kept id isTaken with
  | waiting remembered => exact .waiting remembered
  | started startedAt remembered status _ =>
      refine .started startedAt remembered status ?_
      exact fun _ _ member => absurd status (pending id member).2
  | gone status _ => exact .gone status fun member => (pending id member).2 status

/-- While a batch is offered, with the executions that were held before. -/
structure Offering (store : Store) (now : Instant) (nextExecutor : ExecutorId)
    (starts : StartsLoop) (held : List ExecutionId) (pool : ExecutorPool)
    (rest : List ReadyExecution) : Prop where
  inv : OfferInvariant store now nextExecutor pool .idle starts
  distinct : (rest.map ReadyExecution.executionId).Nodup
  known : ∀ execution ∈ rest, execution.executionId < store.nextUuid
  free : ∀ execution ∈ rest, execution.executionId ∉ held →
    execution.executionId ∉ pool.heldIds ∧ taken pool.history execution.executionId = false

/-- The executions of a batch that are not held were not accepted: those that
were are remembered since the batch was fetched. -/
theorem startOffering {ignored : List ExecutionId} {fetchedAt : Instant}
    {batch : List ReadyExecution}
    (inv : OfferInvariant store now nextExecutor pool (.offering ignored fetchedAt batch) starts) :
    Offering store now nextExecutor starts
      (pool.executions.map ExecutorExecution.executionId ++
        (pool.acceptedExecutions.retain fetchedAt).rows.map Prod.fst)
      { pool with acceptedExecutions := pool.acceptedExecutions.retain fetchedAt } batch where
  inv := by
    refine { inv.unfetched .idle rfl (by simp [ReadyLoop.fetchedAt?]) with
      queues := ⟨inv.queues.executorIds, inv.queues.connected, inv.queues.unique,
        inv.queues.bounded, inv.queues.history⟩
      kept := ?_ }
    intro id isTaken
    cases inv.kept id isTaken with
    | waiting remembered =>
        exact .waiting (AcceptedExecutions.mem_retain.mpr ⟨remembered, by simp⟩)
    | started _ _ status _ => exact .gone status List.not_mem_nil
    | gone status _ => exact .gone status List.not_mem_nil
  distinct := inv.batch
  known execution member := inv.fetched _ (List.mem_map_of_mem member)
  free execution member unheld := by
    rw [List.mem_append, not_or, ← ExecutorPool.heldIds_eq] at unheld
    obtain ⟨notQueued, notRemembered⟩ := unheld
    refine ⟨notQueued, ?_⟩
    rw [← Bool.not_eq_true]
    intro isTaken
    have fetched : execution.executionId ∈ (ReadyLoop.offering ignored fetchedAt batch).batchIds :=
      List.mem_map_of_mem member
    cases inv.kept execution.executionId isTaken with
    | waiting remembered =>
        have retained : (execution.executionId, none) ∈
            (pool.acceptedExecutions.retain fetchedAt).rows :=
          AcceptedExecutions.mem_retain.mpr ⟨remembered, by simp⟩
        exact notRemembered (List.mem_map_of_mem (f := Prod.fst) retained)
    | started startedAt remembered _ recorded =>
        have retained : (execution.executionId, some startedAt) ∈
            (pool.acceptedExecutions.retain fetchedAt).rows := by
          refine AcceptedExecutions.mem_retain.mpr ⟨remembered, ?_⟩
          rintro _ ⟨rfl⟩
          exact recorded fetchedAt rfl fetched
        exact notRemembered (List.mem_map_of_mem (f := Prod.fst) retained)
    | gone _ unfetched => exact unfetched fetched

theorem Offering.skip {held : List ExecutionId} {pool : ExecutorPool} {execution : ReadyExecution}
    {rest : List ReadyExecution}
    (offering : Offering store now nextExecutor starts held pool (execution :: rest)) :
    Offering store now nextExecutor starts held pool rest where
  inv := offering.inv
  distinct := (List.nodup_cons.mp offering.distinct).2
  known other member := offering.known other (List.mem_cons_of_mem _ member)
  free other member := offering.free other (List.mem_cons_of_mem _ member)

/-- An offer is of an execution that is neither held nor taken, so the rest of
the batch stays as it is. -/
theorem Offering.offers {held : List ExecutionId} {pool : ExecutorPool}
    {execution : ReadyExecution} {rest : List ReadyExecution} {executor : Executor}
    (offering : Offering store now nextExecutor starts held pool (execution :: rest))
    (member : executor ∈ pool.executors) (unheld : execution.executionId ∉ held)
    (suitable : executor.suitable now execution.jobTypeId = true) (systemNow : Time) :
    Offering store now nextExecutor starts held
        (pool.offerTo now systemNow executor execution) rest ∧
      ∃ entry offered, Attempt.ofExecutor entry = Attempt.ofReady execution ∧
        entry.executionId ∉ pool.heldIds ∧ taken pool.history entry.executionId = false ∧
        pool.Offers executor.id entry offered ∧
        OfferInvariant store now nextExecutor offered .idle starts ∧
        (executor.executionHandshake = true ∧
            pool.offerTo now systemNow executor execution = offered ∨
          executor.executionHandshake = false ∧
            offered.Accepts executor.id entry (pool.offerTo now systemNow executor execution)) := by
  obtain ⟨unqueued, free⟩ := offering.free execution (List.mem_cons_self ..) unheld
  obtain ⟨distinct, others⟩ := List.nodup_cons.mp offering.distinct
  obtain ⟨entry, offered, same, offers, result⟩ := ExecutorPool.offerTo_cases
    offering.inv.queues.executorIds offering.inv.queues.bounded member suitable systemNow
  have id : entry.executionId = execution.executionId := congrArg Attempt.executionId same
  have inv := offering.inv.offers offers (id ▸ unqueued) (id ▸ free)
    (id ▸ offering.known execution (List.mem_cons_self ..))
  refine ⟨?_, entry, offered, same, id ▸ unqueued, id ▸ free, offers, inv, result⟩
  have offeredFree : ∀ other ∈ rest, other.executionId ∉ held →
      other.executionId ∉ offered.heldIds ∧ taken offered.history other.executionId = false := by
    intro other later unheldOther
    obtain ⟨unqueuedOther, freeOther⟩ :=
      offering.free other (List.mem_cons_of_mem _ later) unheldOther
    obtain ⟨_, _, history⟩ := offers.history
    refine ⟨?_, by rw [history, taken_append_sent]; exact freeOther⟩
    intro queued
    rcases List.mem_cons.mp (offers.heldIds.mem_iff.mp queued) with here | elsewhere
    · exact distinct (List.mem_map.mpr ⟨other, later, here.trans id⟩)
    · exact unqueuedOther elsewhere
  have known := fun other later => offering.known other (List.mem_cons_of_mem _ later)
  rcases result with ⟨_, same⟩ | ⟨_, accepts⟩
  · rw [same]
    exact ⟨inv, others, known, offeredFree⟩
  · refine ⟨inv.accepts accepts, others, known, ?_⟩
    intro other later unheldOther
    obtain ⟨unqueuedOther, freeOther⟩ := offeredFree other later unheldOther
    refine ⟨fun queued => unqueuedOther (accepts.heldIds.mem_iff.mp queued), ?_⟩
    rw [accepts.history, taken_append_accepted, freeOther, Bool.false_or, beq_eq_false_iff_ne, id]
    intro same
    exact distinct (List.mem_map.mpr ⟨other, later, same.symm⟩)

/-- What holds while a batch is offered: a property that offering and accepting
an execution keep holds after the batch. -/
theorem tryOffer_induction {P : ExecutorPool → Prop} {ignored : List ExecutionId}
    {fetchedAt : Instant} {batch : List ReadyExecution} (systemNow : Time)
    (pick : ExecutionId → Nat)
    (inv : OfferInvariant store now nextExecutor pool (.offering ignored fetchedAt batch) starts)
    (start : P pool)
    (retain : P { pool with acceptedExecutions := pool.acceptedExecutions.retain fetchedAt })
    (offers : ∀ pool after executorId entry, P pool →
      OfferInvariant store now nextExecutor pool .idle starts →
      (∃ execution ∈ batch, Attempt.ofExecutor entry = Attempt.ofReady execution) →
      entry.executionId ∉ pool.heldIds → taken pool.history entry.executionId = false →
      pool.Offers executorId entry after → P after)
    (accepts : ∀ pool after executorId entry, P pool →
      OfferInvariant store now nextExecutor pool .idle starts →
      pool.Accepts executorId entry after → P after) :
    P (pool.tryOffer now systemNow pick batch fetchedAt).1 ∧
      OfferInvariant store now nextExecutor
        (pool.tryOffer now systemNow pick batch fetchedAt).1 .idle starts := by
  unfold ExecutorPool.tryOffer
  split
  · exact ⟨start, inv.unfetched .idle rfl (by simp [ReadyLoop.fetchedAt?])⟩
  let held := pool.executions.map ExecutorExecution.executionId ++
    (pool.acceptedExecutions.retain fetchedAt).rows.map Prod.fst
  have kept := ExecutorPool.offerAll_induction
    (P := fun pool rest => (∀ execution ∈ rest, execution ∈ batch) ∧ P pool ∧
      Offering store now nextExecutor starts held pool rest)
    now systemNow pick held ?_ ?_ batch ⟨fun _ member => member, retain, inv.startOffering⟩
  · exact ⟨kept.2.1, kept.2.2.inv⟩
  · rintro pool execution rest ⟨known, holds, offering⟩
    exact ⟨fun other member => known other (List.mem_cons_of_mem _ member), holds, offering.skip⟩
  · rintro pool execution rest executor member ⟨known, holds, offering⟩ unheld suitable
    obtain ⟨later, entry, offered, same, unqueued, free, effect, invOffered, result⟩ :=
      offering.offers member unheld suitable systemNow
    have holdsOffered := offers pool offered executor.id entry holds offering.inv
      ⟨execution, known execution (List.mem_cons_self ..), same⟩ unqueued free effect
    refine ⟨fun other member => known other (List.mem_cons_of_mem _ member), ?_, later⟩
    rcases result with ⟨_, same⟩ | ⟨_, effect⟩
    · rw [same]
      exact holdsOffered
    · exact accepts offered _ executor.id entry holdsOffered invOffered effect

theorem withEvents (inv : OfferInvariant store now nextExecutor pool ready starts)
    (events : List ExecutorEvent) :
    OfferInvariant store now nextExecutor { pool with events := events } ready starts :=
  { inv with
    queues := ⟨inv.queues.executorIds, inv.queues.connected, inv.queues.unique,
      inv.queues.bounded, inv.queues.history⟩ }

/-- The starts that are waited for or being committed change. -/
theorem withStarts (inv : OfferInvariant store now nextExecutor pool ready starts)
    (accepted : List StartedExecution) (later : StartsLoop)
    (known : ∀ execution ∈ accepted ++ later.executions,
      execution ∈ pool.accepted ++ starts.executions)
    (started : ∀ executions returned, later = .started executions returned →
      ∀ execution ∈ executions, NotPending store execution.executionId) :
    OfferInvariant store now nextExecutor { pool with accepted := accepted } ready later :=
  { inv with
    queues := ⟨inv.queues.executorIds, inv.queues.connected, inv.queues.unique,
      inv.queues.bounded, inv.queues.history⟩
    accepted := fun execution member => inv.accepted execution (known execution member)
    started := started }

/-- No start is being committed anymore. -/
theorem dropStarts (inv : OfferInvariant store now nextExecutor pool ready starts)
    {later : StartsLoop} (none : later.executions = []) :
    OfferInvariant store now nextExecutor pool ready later := by
  refine inv.withStarts pool.accepted later ?_ ?_
  · rw [none, List.append_nil]
    exact fun execution member => List.mem_append_left _ member
  · rintro executions returned rfl execution member
    rw [show executions = [] from none] at member
    cases member

/-- The recorded starts were committed, and no batch was fetched since. -/
theorem records {executions : List StartedExecution} {returned : List ExecutionId}
    (inv : OfferInvariant store now nextExecutor pool ready (.started executions returned)) :
    OfferInvariant store now nextExecutor
      (pool.acceptedExecutionsStarted (executions.map StartedExecution.executionId) now) ready
      (.started executions returned) := by
  refine { inv with
    queues := ⟨inv.queues.executorIds, inv.queues.connected, inv.queues.unique,
      inv.queues.bounded, inv.queues.history⟩
    kept := ?_ }
  intro id isTaken
  have recorded : ∀ startedAt, (id, startedAt) ∈ pool.acceptedExecutions.rows →
      id ∈ executions.map StartedExecution.executionId →
      Kept store (pool.acceptedExecutions.started
        (executions.map StartedExecution.executionId) now) ready id := by
    intro startedAt remembered named
    obtain ⟨execution, member, rfl⟩ := List.mem_map.mp named
    have entry := AcceptedExecutions.mem_started_of_mem
      (executions.map StartedExecution.executionId) now remembered
    rw [if_pos named] at entry
    exact .started now entry (inv.started executions returned rfl execution member)
      fun fetchedAt read _ => inv.fetchedAt fetchedAt read
  have unrecorded : ∀ startedAt, (id, startedAt) ∈ pool.acceptedExecutions.rows →
      id ∉ executions.map StartedExecution.executionId →
      (id, startedAt) ∈ (pool.acceptedExecutions.started
        (executions.map StartedExecution.executionId) now).rows := by
    intro startedAt remembered unnamed
    have entry := AcceptedExecutions.mem_started_of_mem
      (executions.map StartedExecution.executionId) now remembered
    rwa [if_neg unnamed] at entry
  by_cases named : id ∈ executions.map StartedExecution.executionId
  · cases inv.kept id isTaken with
    | waiting remembered => exact recorded none remembered named
    | started startedAt remembered _ _ => exact recorded (some startedAt) remembered named
    | gone status unfetched => exact .gone status unfetched
  · cases inv.kept id isTaken with
    | waiting remembered => exact .waiting (unrecorded none remembered named)
    | started startedAt remembered status fresh =>
        exact .started startedAt (unrecorded (some startedAt) remembered named) status fresh
    | gone status unfetched => exact .gone status unfetched

theorem forgets (inv : OfferInvariant store now nextExecutor pool ready starts)
    (ids : List ExecutionId) :
    OfferInvariant store now nextExecutor (pool.acceptedExecutionsNotStarted ids) ready starts := by
  refine { inv with
    queues := ⟨inv.queues.executorIds, inv.queues.connected, inv.queues.unique,
      inv.queues.bounded, inv.queues.history.append (by simp)⟩
    kept := ?_ }
  intro id isTaken
  rw [ExecutorPool.acceptedExecutionsNotStarted, taken_append_forgotten, Bool.and_eq_true,
    Bool.not_eq_true', List.contains_eq_mem, decide_eq_false_iff_not] at isTaken
  have remains : ∀ startedAt, (id, startedAt) ∈ pool.acceptedExecutions.rows →
      (id, startedAt) ∈ (pool.acceptedExecutions.notStarted ids).rows := fun _ member =>
    AcceptedExecutions.mem_notStarted.mpr ⟨member, isTaken.2⟩
  cases inv.kept id isTaken.1 with
  | waiting remembered => exact .waiting (remains none remembered)
  | started startedAt remembered status fresh =>
      exact .started startedAt (remains (some startedAt) remembered) status fresh
  | gone status unfetched => exact .gone status unfetched

theorem evolves {later : Store} (inv : OfferInvariant store now nextExecutor pool ready starts)
    (effect : Evolves store later) :
    OfferInvariant later now nextExecutor pool ready starts := by
  refine { inv with
    issued := effect.issued inv.issued
    held := fun id member => Nat.lt_of_lt_of_le (inv.held id member) effect.next
    fetched := fun id member => Nat.lt_of_lt_of_le (inv.fetched id member) effect.next
    accepted := fun execution member =>
      Nat.lt_of_lt_of_le (inv.accepted execution member) effect.next
    started := fun executions returned same execution member =>
      effect.notPending (inv.started executions returned same execution member)
    kept := ?_ }
  intro id isTaken
  cases inv.kept id isTaken with
  | waiting remembered => exact .waiting remembered
  | started startedAt remembered status fresh =>
      exact .started startedAt remembered (effect.notPending status) fresh
  | gone status unfetched => exact .gone (effect.notPending status) unfetched

theorem commits {executions : List StartedExecution}
    (inv : OfferInvariant store now nextExecutor pool ready (.starting executions)) (pick : Pick)
    {later : StartsLoop} (same : later.executions = executions) :
    OfferInvariant (Postgres.PostgresBackend.executionsStarted store pick executions).1 now
      nextExecutor pool ready later := by
  have committed : Evolves store _ :=
    .starts (Postgres.executionsStarted_starts store pick executions)
  refine (inv.evolves committed).withStarts pool.accepted later ?_ ?_
  · rw [same]
    exact fun execution member => member
  · rintro others returned rfl execution member
    cases same
    exact Postgres.executionsStarted_notPending pick member
      (inv.accepted execution (List.mem_append_right _ member))

theorem connects (inv : OfferInvariant store now nextExecutor pool ready starts) :
    OfferInvariant store now (nextExecutor + 1) (pool.addExecutor nextExecutor) ready starts := by
  have held : (pool.addExecutor nextExecutor).heldIds = pool.heldIds := by
    simp [ExecutorPool.heldIds, ExecutorPool.held, ExecutorPool.addExecutor,
      ExecutorPool.send_executors, Executor.held, Executor.executions]
  have history : (pool.addExecutor nextExecutor).history =
      pool.history ++ [.sent nextExecutor (.properties nextExecutor)] := rfl
  have executors : (pool.addExecutor nextExecutor).executors =
      pool.executors ++ [⟨nextExecutor, [], true, false, false⟩] := rfl
  refine { inv with
    queues := ⟨?_, ?_, by rw [held]; exact inv.queues.unique, ?_, ?_⟩
    held := by rw [held]; exact inv.held
    kept := ?_ }
  · rw [ExecutorPool.executorIds, executors, List.map_append, List.map_singleton]
    refine List.nodup_append.mpr ⟨inv.queues.executorIds, List.nodup_singleton _, ?_⟩
    intro id member other fresh same
    rw [List.mem_singleton.mp fresh] at same
    exact Nat.lt_irrefl _ (same ▸ inv.queues.connected id member)
  · intro id member
    rw [ExecutorPool.executorIds, executors, List.map_append, List.mem_append,
      List.map_singleton, List.mem_singleton] at member
    rcases member with old | rfl
    · exact Nat.lt_succ_of_lt (inv.queues.connected id old)
    · exact Nat.lt_succ_self _
  · intro executor member
    rw [executors, List.mem_append, List.mem_singleton] at member
    rcases member with old | rfl
    · exact inv.queues.bounded executor old
    · exact fun queue absent => absurd absent List.not_mem_nil
  · rw [history]
    refine inv.queues.history.snoc ?_
    rintro _ _ id ⟨rfl, rfl⟩ offers
    cases offers
  · intro id isTaken
    rw [history, taken_append_sent] at isTaken
    exact inv.kept id isTaken

end OfferInvariant

namespace ServerState

def offerInvariant (server : ServerState) : Prop :=
  OfferInvariant server.store server.now server.nextExecutor server.pool server.ready server.starts

theorem offerInvariant_initial : offerInvariant initial where
  issued := .empty
  queues := ⟨List.nodup_nil, by simp [ExecutorPool.executorIds, initial, ExecutorPool.empty],
    List.nodup_nil, by simp [ExecutorPool.Bounded, initial, ExecutorPool.empty], .empty⟩
  held := by simp [ExecutorPool.heldIds, ExecutorPool.held, initial, ExecutorPool.empty]
  fetched := by simp [ReadyLoop.batchIds, ReadyLoop.batch, initial]
  accepted := by simp [StartsLoop.executions, initial, ExecutorPool.empty]
  batch := List.nodup_nil
  fetchedAt := by simp [ReadyLoop.fetchedAt?, initial]
  started := by simp [initial]
  kept := by simp [taken, initial, ExecutorPool.empty]

theorem offerInvariant_step {server after : ServerState} {action : Action}
    (inv : server.offerInvariant) (done : server.step action = some after) :
    after.offerInvariant := by
  have inv : OfferInvariant server.store server.now server.nextExecutor server.pool server.ready
    server.starts := inv
  cases action with
  | tick elapsed =>
      cases done
      exact { inv with
        fetchedAt := fun fetchedAt read => Nat.le_add_right_of_le (inv.fetchedAt fetchedAt read) }
  | connect =>
      cases done
      exact inv.connects
  | message executor systemNow message =>
      cases done
      rcases server.pool.executorMessage_cases server.now systemNow executor message with
        ⟨_, effect⟩ | ⟨_, _, effect⟩
      · exact inv.releases effect
      · exact inv.accepts effect
  | checkOffers executor =>
      cases done
      obtain ⟨_, _, effect⟩ := server.pool.withdrawOffers_releases executor (some server.now) server.now
      exact inv.releases effect
  | disconnect executor =>
      cases done
      obtain ⟨_, effect⟩ := server.pool.dropExecutor_releases executor
      exact inv.releases effect
  | closeOutbound executor =>
      cases done
      have effect := server.pool.closeOutbound_releases executor
      exact inv.releases effect
  | addJobs now pick jobs ifNotExists =>
      obtain ⟨store, applied, rfl⟩ := step_addJobs done
      exact inv.evolves (.of_apply applied)
  | addSchedules now schedules ifNotExists =>
      obtain ⟨store, applied, rfl⟩ := step_addSchedules done
      exact inv.evolves (.of_apply applied)
  | deleteHistory deleteBatchSize before =>
      cases done
      have applied : (Operation.deleteHistory deleteBatchSize before).apply server.store = some _ :=
        rfl
      exact inv.evolves (.of_apply applied)
  | cancelJobs now systemNow pick filters =>
      cases done
      exact inv.evolves (.cancels ..)
  | stopSchedules now filters cancelActiveJobs =>
      cases done
      exact inv.evolves (.congr rfl rfl (Nat.le_refl _))
  | cancelStopped index now systemNow pick =>
      obtain ⟨schedules, _, rfl⟩ := step_cancelStopped done
      exact inv.evolves (.cancels ..)
  | cancelRequested index =>
      obtain ⟨ids, _, rfl⟩ := step_cancelRequested done
      obtain ⟨_, effect⟩ := server.pool.cancelExecutionIds_releases ids
      exact inv.releases effect
  | startPass =>
      obtain ⟨_, rfl⟩ := step_startPass done
      exact inv.unfetched _ rfl (by simp [ReadyLoop.fetchedAt?])
  | readClock =>
      obtain ⟨ignored, last, _, rfl⟩ := step_readClock done
      exact inv.unfetched _ rfl (by simp [ReadyLoop.fetchedAt?])
  | fetchReady now =>
      obtain ⟨ignored, last, fetchedAt, current, rfl⟩ := step_fetchReady done
      rw [current] at inv
      have batch := inv.fetches now
      unfold offerInvariant fetched
      dsimp only
      split
      · exact inv.unfetched .idle rfl (by simp [ReadyLoop.fetchedAt?])
      · exact batch
  | fetchFails =>
      obtain ⟨_, _, _, _, rfl⟩ := step_fetchFails done
      exact inv.unfetched .idle rfl (by simp [ReadyLoop.fetchedAt?])
  | offer systemNow pick =>
      obtain ⟨ignored, fetchedAt, batch, current, rfl⟩ := step_offer done
      rw [current] at inv
      have offered := (inv.tryOffer_induction (P := fun _ => True) systemNow pick trivial trivial
        (fun _ _ _ _ _ _ _ _ _ _ => trivial) fun _ _ _ _ _ _ _ => trivial).2
      exact offered.unfetched (.offered ..) rfl (by simp [ReadyLoop.fetchedAt?])
  | checkCapacity =>
      obtain ⟨ignored, last, _, rfl⟩ := step_checkCapacity done
      unfold offerInvariant checkCapacity
      dsimp only
      split
      · exact inv.unfetched _ rfl (by simp [ReadyLoop.fetchedAt?])
      · exact inv.unfetched _ rfl (by simp [ReadyLoop.fetchedAt?])
  | takeStarts count =>
      obtain ⟨current, rfl⟩ := step_takeStarts done
      refine inv.withStarts _ _ ?_ (by simp)
      intro execution member
      rw [StartsLoop.executions, List.mem_append] at member
      exact List.mem_append_left _ (member.elim List.mem_of_mem_drop List.mem_of_mem_take)
  | commitStarts pick acknowledged =>
      obtain ⟨executions, current, rfl⟩ := step_commitStarts done
      rw [current] at inv
      refine inv.commits pick ?_
      cases acknowledged <;> rfl
  | recordStarts =>
      obtain ⟨executions, returned, current, rfl⟩ := step_recordStarts done
      rw [current] at inv
      refine inv.records.dropStarts ?_
      unfold recordStarts
      dsimp only
      split <;> rfl
  | cancelNotStarted =>
      obtain ⟨ids, _, rfl⟩ := step_cancelNotStarted done
      obtain ⟨_, effect⟩ := server.pool.cancelExecutionIds_releases ids
      exact (inv.releases effect).dropStarts rfl
  | giveUp =>
      obtain ⟨executions, _, rfl⟩ := step_giveUp done
      exact inv.dropStarts rfl
  | cancelGivenUp =>
      obtain ⟨ids, _, rfl⟩ := step_cancelGivenUp done
      obtain ⟨_, effect⟩ := server.pool.cancelExecutionIds_releases ids
      exact (inv.releases effect).dropStarts rfl
  | forget =>
      obtain ⟨ids, _, rfl⟩ := step_forget done
      exact (inv.forgets ids).dropStarts rfl
  | takeEvents count systemNow invalidJson =>
      obtain ⟨_, rfl⟩ := step_takeEvents done
      exact inv.withEvents _
  | stopWaiting =>
      obtain ⟨_, _, _, _, rfl⟩ := step_stopWaiting done
      exact inv
  | commitSucceeded systemNow pick acknowledged =>
      obtain ⟨succeededExecutions, _, _, rfl⟩ := step_commitSucceeded done
      obtain ⟨_, _, effect⟩ :=
        Postgres.executionsSucceeded_finishes server.store pick succeededExecutions
      exact inv.evolves (.finishes effect)
  | commitResults now pick acknowledged =>
      obtain ⟨_, store, _, applied, rfl⟩ := step_commitResults done
      exact inv.evolves (.of_apply applied)
  | fetchInProgress systemNow =>
      obtain ⟨_, _, rfl | rfl⟩ := step_fetchInProgress done
      · exact inv
      · exact inv
  | checkInProgress =>
      obtain ⟨_, _, _, _, _, _, _, rfl⟩ := step_checkInProgress done
      exact inv
  | startTimingOut systemNow =>
      obtain ⟨_, _, _, _, _, rfl⟩ := step_startTimingOut done
      exact inv
  | commitTimedOut now pick acknowledged =>
      obtain ⟨_, _, _, _, store, _, applied, rfl⟩ := step_commitTimedOut done
      exact inv.evolves (.of_apply applied)
  | cancelTimedOut systemNow =>
      obtain ⟨_, ids, _, _, rfl⟩ := step_cancelTimedOut done
      obtain ⟨_, effect⟩ := server.pool.cancelExecutionIds_releases ids
      exact inv.releases effect
  | commitOrphaned now pick acknowledged =>
      obtain ⟨_, _, store, _, applied, rfl⟩ := step_commitOrphaned done
      exact inv.evolves (.of_apply applied)
  | fetchInProgressFails =>
      obtain ⟨_, _, rfl⟩ := step_fetchInProgressFails done
      exact inv
  | giveUpTimeouts =>
      obtain ⟨_, _, rfl⟩ := step_giveUpTimeouts done
      exact inv

end ServerState

/-- An execution that was accepted is not offered again unless its acceptance
was forgotten, it is in one queue at most, and no queue is overfull. -/
theorem accepted_not_offered_again {server : ServerState}
    (run : Reaches ServerState.step (fun _ _ => True) .initial server) :
    NoReoffer server.pool.history ∧
      (server.pool.executions.map ExecutorExecution.executionId).Nodup ∧
      ∀ executor ∈ server.pool.executors, ∀ queue ∈ executor.jobQueues,
        queue.executions.length ≤ queue.maxExecutions := by
  have inv := run.invariant (fun _ _ _ inv _ done => ServerState.offerInvariant_step inv done)
    ServerState.offerInvariant_initial
  refine ⟨inv.queues.history, ?_, inv.queues.bounded⟩
  rw [← ExecutorPool.heldIds_eq]
  exact inv.queues.unique

/-- A job is offered to an executor without the handshake, which accepts it as `1`. -/
def assigned : List Action :=
  [.addJobs 0 (fun _ => 0) [Postgres.plainJob 2] none, .connect,
    .message 0 0 (.capabilities false (some [("type", 1)])),
    .startPass, .readClock, .fetchReady 0, .offer 0 fun _ => 0, .checkCapacity]

/-- The result is reported before the start is committed, another job is offered. -/
def assignedTwice : List Action :=
  assigned ++ [.message 0 0 (.executionSucceeded 1 .absent "{}"),
    .addJobs 0 (fun _ => 0) [Postgres.plainJob 2] none,
    .startPass, .readClock, .fetchReady 0, .offer 0 fun _ => 0]

theorem accepted_not_offered_again_assignedTwice :
    ∃ server, Reaches ServerState.step (fun _ _ => True) .initial server ∧
      server.pool.acceptedExecutions.rows = [(3, none), (1, none)] ∧
      NoReoffer server.pool.history := by
  obtain ⟨server, run, checked⟩ := exists_reaches_of_execute ServerState.step (fun _ _ => True)
    .initial assignedTwice
    (fun server => server.pool.acceptedExecutions.rows == [(3, none), (1, none)]) (by decide)
  exact ⟨server, run, by simpa using checked, (accepted_not_offered_again run).1⟩

end Ora.Server
