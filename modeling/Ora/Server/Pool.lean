import Ora.Backend.Types
import Ora.Library.FirstMatch
import Ora.Library.Table

/-!
# The executor pool

The executors of a server, their job queues and the handlers of `executor_loop`.
The channels to the executors are not drained: `history` lists what was sent to
any of them, in order, among the acceptances.  An `Instant` is a time of the
monotone clock.
-/

namespace Ora.Server

open Ora.Backend
open Ora.Library

abbrev Instant := Nat

/-- The state of an execution in the executor pool. -/
inductive ExecutionState where
  | offered (deadline : Instant) (offeredAt : Time)
  | accepted
  deriving DecidableEq, Repr

structure ExecutorExecution where
  jobId : JobId
  executionId : ExecutionId
  jobTypeId : JobTypeId
  retryPolicy : RetryPolicy
  attemptNumber : Nat
  state : ExecutionState
  startedAt : Time
  deriving DecidableEq, Repr

def ExecutorExecution.isAccepted (execution : ExecutorExecution) : Bool :=
  match execution.state with
  | .offered _ _ => false
  | .accepted => true

structure ExecutorJobQueue where
  jobTypeId : JobTypeId
  executions : List ExecutorExecution
  maxExecutions : Nat
  backoffUntil : Option Instant
  consecutiveRejections : Nat
  deriving DecidableEq, Repr

/-- `messages` of an executor can be sent while it is connected. -/
structure Executor where
  id : ExecutorId
  jobQueues : List ExecutorJobQueue
  connected : Bool
  initialized : Bool
  executionHandshake : Bool
  deriving DecidableEq, Repr

inductive ServerMessage where
  | properties (executorId : ExecutorId)
  | executionReady (jobId : JobId) (executionId : ExecutionId) (jobTypeId : JobTypeId)
      (attemptNumber : Nat) (inputPayloadJson : String) (targetExecutionTime : Time)
  | executionCancelled (executionId : ExecutionId)
  deriving DecidableEq, Repr

/-- The timestamp of a result. -/
inductive ResultTime where
  | absent
  | invalid
  | at (time : Time)
  deriving DecidableEq, Repr

/-- Messages of executors, `malformed` has an identifier that is no UUID. -/
inductive ExecutorMessage where
  | capabilities (executionHandshake : Bool) (jobQueues : Option (List (JobTypeId × Nat)))
  | heartbeat
  | executionAccepted (executionId : ExecutionId)
  | executionRejected (executionId : ExecutionId)
  | executionSucceeded (executionId : ExecutionId) (timestamp : ResultTime)
      (outputPayloadJson : String)
  | executionFailed (executionId : ExecutionId) (timestamp : ResultTime) (failureReason : String)
  | malformed
  deriving DecidableEq, Repr

inductive ExecutorEvent where
  | executionSucceeded (execution : ExecutorExecution) (timestamp : Time)
      (outputPayloadJson : String)
  | executionFailed (execution : ExecutorExecution) (timestamp : Time) (failureReason : String)
  | executorDisconnected (executor : Executor)
  deriving DecidableEq, Repr

/-- What was sent to executors, what they accepted, and the acceptances that
were forgotten because they could not be started. -/
inductive PoolEvent where
  | sent (executorId : ExecutorId) (message : ServerMessage)
  | accepted (executorId : ExecutorId) (executionId : ExecutionId)
  | forgotten (executionId : ExecutionId)
  deriving DecidableEq, Repr

/-- The accepted executions and the time when they were started in the backend
(if they were). -/
abbrev AcceptedExecutions :=
  Table (Prod.fst : ExecutionId × Option Instant → ExecutionId)

structure ExecutorPool where
  executors : List Executor
  events : List ExecutorEvent
  accepted : List StartedExecution
  acceptedExecutions : AcceptedExecutions
  history : List PoolEvent

structure OfferedExecutions where
  offeredCount : Nat
  notOffered : List ExecutionId
  deriving DecidableEq, Repr

/-- Nanoseconds in a second. -/
def second : Nat := 1000000000

/-- `u32::MAX` -/
def maxU32 : Nat := 4294967295

def offerTimeout : Duration := 30 * second
def minRejectionBackoff : Duration := second
def maxRejectionBackoff : Duration := 30 * second

namespace AcceptedExecutions

def insert (table : AcceptedExecutions) (id : ExecutionId) : AcceptedExecutions where
  rows := (id, none) :: table.rows.filter fun entry => entry.1 != id
  unique := by
    rw [List.map_cons, List.nodup_cons]
    refine ⟨by simp, table.unique.sublist (List.filter_sublist.map _)⟩

/-- Executions started before the ready executions were fetched are not
returned by the backend anymore. -/
def retain (table : AcceptedExecutions) (fetchedAt : Instant) : AcceptedExecutions :=
  table.delete fun entry => !entry.2.all fun startedAt => decide (fetchedAt ≤ startedAt)

def started (table : AcceptedExecutions) (ids : List ExecutionId) (now : Instant) :
    AcceptedExecutions :=
  table.modify (fun entry => if ids.contains entry.1 then (entry.1, some now) else entry)
    fun entry => by split <;> rfl

def notStarted (table : AcceptedExecutions) (ids : List ExecutionId) : AcceptedExecutions :=
  table.delete fun entry => ids.contains entry.1

end AcceptedExecutions

namespace ExecutorJobQueue

def new (jobTypeId : JobTypeId) (maxExecutions : Nat) : ExecutorJobQueue :=
  ⟨jobTypeId, [], maxExecutions, none, 0⟩

def hasCapacity (queue : ExecutorJobQueue) (now : Instant) : Bool :=
  decide (queue.executions.length < queue.maxExecutions) &&
    queue.backoffUntil.all fun time => decide (time ≤ now)

def addExecution (queue : ExecutorJobQueue) (execution : ExecutorExecution) : ExecutorJobQueue :=
  { queue with executions := queue.executions ++ [execution] }

def holds (id : ExecutionId) (queue : ExecutorJobQueue) : Bool :=
  queue.executions.any fun execution => execution.executionId == id

/-- `executions.swap_remove(idx)` at the position of the execution. -/
def remove (id : ExecutionId) (queue : ExecutorJobQueue) : ExecutorJobQueue :=
  { queue with
    executions := swapRemove queue.executions
      (queue.executions.findIdx fun execution => execution.executionId == id) }

/-- The executor accepted an execution of this queue. -/
def accepted (queue : ExecutorJobQueue) : ExecutorJobQueue :=
  { queue with
    consecutiveRejections := 0
    backoffUntil := none }

/-- The executor rejected an execution of this queue, so no executions are
offered for a while. -/
def rejected (now : Instant) (queue : ExecutorJobQueue) : ExecutorJobQueue :=
  { queue with
    consecutiveRejections := min (queue.consecutiveRejections + 1) maxU32
    backoffUntil := some (now +
      min (minRejectionBackoff * min (Nat.pow 2 queue.consecutiveRejections) maxU32)
        maxRejectionBackoff) }

def acceptExecution (id : ExecutionId) (queue : ExecutorJobQueue) : ExecutorJobQueue :=
  { queue with
    executions := modifyFirst (fun execution => execution.executionId == id)
      (fun execution => { execution with state := .accepted }) queue.executions }.accepted

/-- Offers that are withdrawn: all of them, or those that expired by then. -/
def withdrawn (expiredAt : Option Instant) (execution : ExecutorExecution) : Bool :=
  match execution.state with
  | .accepted => false
  | .offered deadline _ => expiredAt.all fun expiredAt => decide (deadline ≤ expiredAt)

/-- Expired offers count as a rejection. -/
def withdrawOffers (expiredAt : Option Instant) (now : Instant) (queue : ExecutorJobQueue) :
    ExecutorJobQueue :=
  let kept := { queue with
    executions := queue.executions.filter fun execution => !withdrawn expiredAt execution }
  if queue.executions.any (withdrawn expiredAt) && expiredAt.isSome then kept.rejected now else kept

end ExecutorJobQueue

namespace Executor

def executions (executor : Executor) : List ExecutorExecution :=
  executor.jobQueues.flatMap ExecutorJobQueue.executions

/-- The executions accepted by this executor. -/
def assignedExecutions (executor : Executor) : List ExecutorExecution :=
  executor.executions.filter ExecutorExecution.isAccepted

def holds (id : ExecutionId) (executor : Executor) : Bool :=
  executor.jobQueues.any (ExecutorJobQueue.holds id)

/-- Find an execution offered to or accepted by this executor. -/
def findExecution (executor : Executor) (id : ExecutionId) : Option ExecutorExecution :=
  (executor.jobQueues.find? (ExecutorJobQueue.holds id)).bind fun queue =>
    queue.executions.find? fun execution => execution.executionId == id

/-- Change the queue that holds an execution. -/
def modifyQueue (id : ExecutionId) (change : ExecutorJobQueue → ExecutorJobQueue)
    (executor : Executor) : Executor :=
  { executor with jobQueues := modifyFirst (ExecutorJobQueue.holds id) change executor.jobQueues }

def suitableQueue (now : Instant) (jobTypeId : JobTypeId) (queue : ExecutorJobQueue) : Bool :=
  queue.hasCapacity now && queue.jobTypeId == jobTypeId

/-- An executor with a suitable queue to which a message can be sent. -/
def suitable (now : Instant) (jobTypeId : JobTypeId) (executor : Executor) : Bool :=
  executor.connected && executor.jobQueues.any (suitableQueue now jobTypeId)

end Executor

namespace ExecutorPool

def empty : ExecutorPool := ⟨[], [], [], .empty, []⟩

def hasCapacity (pool : ExecutorPool) (now : Instant) : Bool :=
  pool.executors.any fun executor => executor.jobQueues.any fun queue => queue.hasCapacity now

def executorExists (pool : ExecutorPool) (id : ExecutorId) : Bool :=
  pool.executors.any fun executor => executor.id == id

def executions (pool : ExecutorPool) : List ExecutorExecution :=
  pool.executors.flatMap Executor.executions

/-- The executions that are offered to executors or were accepted but not yet
started in the backend. -/
def inFlightExecutionIds (pool : ExecutorPool) : List ExecutionId :=
  ((pool.executions.filter fun execution => !execution.isAccepted).map
      ExecutorExecution.executionId) ++
    (pool.acceptedExecutions.rows.filter fun entry => entry.2.isNone).map Prod.fst

/-- Whether one of the executions still waits to be started in the backend. -/
def startPending (pool : ExecutorPool) (ids : List ExecutionId) : Bool :=
  pool.acceptedExecutions.rows.any fun entry => ids.contains entry.1 && entry.2.isNone

def modifyExecutor (pool : ExecutorPool) (id : ExecutorId) (change : Executor → Executor) :
    ExecutorPool :=
  { pool with executors := modifyFirst (fun executor => executor.id == id) change pool.executors }

def send (pool : ExecutorPool) (executor : Executor) (message : ServerMessage) : ExecutorPool :=
  if executor.connected then
    { pool with history := pool.history ++ [.sent executor.id message] }
  else
    pool

/-- The accepted execution is remembered and sent to the starts loop. -/
def accept (pool : ExecutorPool) (execution : StartedExecution) : ExecutorPool :=
  { pool with
    accepted := pool.accepted ++ [execution]
    acceptedExecutions := pool.acceptedExecutions.insert execution.executionId
    history := pool.history ++ [.accepted execution.executorId execution.executionId] }

/-- `add_executor` -/
def addExecutor (pool : ExecutorPool) (id : ExecutorId) : ExecutorPool :=
  let executor : Executor := ⟨id, [], true, false, false⟩
  { pool with executors := pool.executors ++ [executor] }.send executor (.properties id)

/-- `drop_executor` -/
def dropExecutor (pool : ExecutorPool) (id : ExecutorId) : ExecutorPool :=
  match pool.executors.find? fun executor => executor.id == id with
  | none => pool
  | some executor =>
      { pool with
        executors := swapRemove pool.executors
          (pool.executors.findIdx fun executor => executor.id == id)
        events := pool.events ++ [.executorDisconnected executor] }

/-- The receiver of the messages of an executor is gone. -/
def closeOutbound (pool : ExecutorPool) (id : ExecutorId) : ExecutorPool :=
  pool.modifyExecutor id fun executor => { executor with connected := false }

/-- Executors without the execution handshake accept every execution sent to them. -/
def offerTo (pool : ExecutorPool) (now : Instant) (systemNow : Time) (executor : Executor)
    (execution : ReadyExecution) : ExecutorPool :=
  let pool := pool.send executor (.executionReady execution.jobId execution.executionId
    execution.jobTypeId execution.attemptNumber execution.inputPayloadJson
    execution.targetExecutionTime)
  let state := if executor.executionHandshake then .offered (now + offerTimeout) systemNow
    else .accepted
  let pool := if executor.executionHandshake then pool
    else pool.accept ⟨execution.executionId, executor.id, systemNow⟩
  pool.modifyExecutor executor.id fun executor =>
    { executor with
      jobQueues := modifyFirst (Executor.suitableQueue now execution.jobTypeId)
        (fun queue => queue.addExecution ⟨execution.jobId, execution.executionId,
          execution.jobTypeId, execution.retryPolicy, execution.attemptNumber, state, systemNow⟩)
        executor.jobQueues }

/-- Offers executions that are not held, each to one of the suitable executors. -/
def offerAll (now : Instant) (systemNow : Time) (pick : ExecutionId → Nat)
    (held : List ExecutionId) : ExecutorPool → List ReadyExecution → ExecutorPool × OfferedExecutions
  | pool, [] => (pool, ⟨0, []⟩)
  | pool, execution :: rest =>
      let candidates := pool.executors.filter (Executor.suitable now execution.jobTypeId)
      let chosen :=
        if held.contains execution.executionId then
          none
        else
          candidates[pick execution.executionId % candidates.length]?
      match chosen with
      | none =>
          let (pool, offered) := offerAll now systemNow pick held pool rest
          (pool, ⟨offered.offeredCount, execution.executionId :: offered.notOffered⟩)
      | some executor =>
          let (pool, offered) := offerAll now systemNow pick held
            (pool.offerTo now systemNow executor execution) rest
          (pool, ⟨offered.offeredCount + 1, offered.notOffered⟩)

def tryOffer (pool : ExecutorPool) (now : Instant) (systemNow : Time) (pick : ExecutionId → Nat)
    (executions : List ReadyExecution) (fetchedAt : Instant) : ExecutorPool × OfferedExecutions :=
  if executions.isEmpty then
    (pool, ⟨0, []⟩)
  else
    let pool := { pool with acceptedExecutions := pool.acceptedExecutions.retain fetchedAt }
    let held := pool.executions.map ExecutorExecution.executionId ++
      pool.acceptedExecutions.rows.map Prod.fst
    offerAll now systemNow pick held pool executions

def acceptedExecutionsStarted (pool : ExecutorPool) (ids : List ExecutionId) (now : Instant) :
    ExecutorPool :=
  { pool with acceptedExecutions := pool.acceptedExecutions.started ids now }

def acceptedExecutionsNotStarted (pool : ExecutorPool) (ids : List ExecutionId) : ExecutorPool :=
  { pool with
    acceptedExecutions := pool.acceptedExecutions.notStarted ids
    history := pool.history ++ ids.map .forgotten }

def cancelExecutionId (pool : ExecutorPool) (id : ExecutionId) : ExecutorPool :=
  match pool.executors.find? (Executor.holds id) with
  | none => pool
  | some executor =>
      { pool with
        executors := modifyFirst (Executor.holds id)
          (Executor.modifyQueue id (ExecutorJobQueue.remove id)) pool.executors }.send
        executor (.executionCancelled id)

def cancelExecutionIds (pool : ExecutorPool) (ids : List ExecutionId) : ExecutorPool :=
  ids.foldl cancelExecutionId pool

/-- `withdraw_offers` of an executor. -/
def withdrawOffers (pool : ExecutorPool) (id : ExecutorId) (expiredAt : Option Instant)
    (now : Instant) : ExecutorPool :=
  match pool.executors.find? fun executor => executor.id == id with
  | none => pool
  | some executor =>
      let withdrawn := executor.executions.filter (ExecutorJobQueue.withdrawn expiredAt)
      let pool := withdrawn.foldl (fun pool execution =>
        pool.send executor (.executionCancelled execution.executionId)) pool
      pool.modifyExecutor id fun executor =>
        { executor with
          jobQueues := executor.jobQueues.map (ExecutorJobQueue.withdrawOffers expiredAt now) }

def capabilities (pool : ExecutorPool) (executor : Executor) (executionHandshake : Bool)
    (jobQueues : Option (List (JobTypeId × Nat))) : ExecutorPool :=
  if executor.initialized then
    pool.dropExecutor executor.id
  else
    match jobQueues with
    | none => pool.dropExecutor executor.id
    | some jobQueues =>
        pool.modifyExecutor executor.id fun executor =>
          { executor with
            jobQueues := jobQueues.map fun queue => .new queue.1 queue.2
            initialized := true
            executionHandshake := executionHandshake }

def executionAccepted (pool : ExecutorPool) (executor : Executor) (id : ExecutionId) :
    ExecutorPool :=
  match executor.findExecution id with
  | none => pool.send executor (.executionCancelled id)
  | some execution =>
      match execution.state with
      | .accepted => pool
      | .offered _ offeredAt =>
          (pool.modifyExecutor executor.id
            (Executor.modifyQueue id (ExecutorJobQueue.acceptExecution id))).accept
              ⟨id, executor.id, offeredAt⟩

def executionRejected (pool : ExecutorPool) (now : Instant) (executor : Executor)
    (id : ExecutionId) : ExecutorPool :=
  match executor.findExecution id with
  | none => pool
  | some execution =>
      if execution.isAccepted then
        pool
      else
        pool.modifyExecutor executor.id (Executor.modifyQueue id fun queue =>
          (queue.remove id).rejected now)

/-- A result removes the execution, only that of an accepted execution is an
event.  The executor is dropped if the timestamp is invalid. -/
def executionResult (pool : ExecutorPool) (systemNow : Time) (executor : Executor)
    (id : ExecutionId) (timestamp : ResultTime) (event : ExecutorExecution → Time → ExecutorEvent) :
    ExecutorPool :=
  match executor.findExecution id with
  | none => pool
  | some execution =>
      let pool := pool.modifyExecutor executor.id
        (Executor.modifyQueue id (ExecutorJobQueue.remove id))
      if execution.isAccepted then
        match timestamp with
        | .absent => { pool with events := pool.events ++ [event execution systemNow] }
        | .at time => { pool with events := pool.events ++ [event execution (min time systemNow)] }
        | .invalid => pool.dropExecutor executor.id
      else
        pool

/-- One message of the executor with the given identifier. -/
def executorMessage (pool : ExecutorPool) (now : Instant) (systemNow : Time) (id : ExecutorId)
    (message : ExecutorMessage) : ExecutorPool :=
  match pool.executors.find? fun executor => executor.id == id with
  | none => pool
  | some executor =>
      if executor.connected then
        match message with
        | .capabilities executionHandshake jobQueues =>
            pool.capabilities executor executionHandshake jobQueues
        | .heartbeat => pool
        | .executionAccepted execution => pool.executionAccepted executor execution
        | .executionRejected execution => pool.executionRejected now executor execution
        | .executionSucceeded execution timestamp outputPayloadJson =>
            pool.executionResult systemNow executor execution timestamp
              fun execution time => .executionSucceeded execution time outputPayloadJson
        | .executionFailed execution timestamp failureReason =>
            pool.executionResult systemNow executor execution timestamp
              fun execution time => .executionFailed execution time failureReason
        | .malformed => pool.dropExecutor executor.id
      else
        pool.dropExecutor executor.id

end ExecutorPool

end Ora.Server
