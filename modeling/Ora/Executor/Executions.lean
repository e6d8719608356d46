import Mathlib.Data.List.Find
import Ora.Library.Table
import Ora.Server.PoolEffects

/-!
# Executions of an executor

`executor_loop` of an executor beside the tasks that run executions.  What the
guards and handlers return is part of a move, and so are the jobs of earlier
connections that are still running.  The number of the offer that started a run
is only there to speak about it, the messages do not carry it.
-/

namespace Ora.Executor

open Ora.Backend
open Ora.Library
open Ora.Server (ServerMessage ExecutorMessage)

structure ExecutorJobQueue where
  jobTypeId : JobTypeId
  maxConcurrentJobs : Nat
  deriving DecidableEq, Repr

/-- Where `run_execution` is. -/
inductive RunStage where
  | starting
  | admitting
  | running
  | returning
  deriving DecidableEq, Repr

/-- An execution that is tracked, with its cancellation token and whether it
holds a slot of its queue. -/
structure ActiveExecution where
  executionId : ExecutionId
  jobTypeId : JobTypeId
  offer : Nat
  stage : RunStage
  slot : Bool
  cancelled : Bool
  deriving DecidableEq, Repr

abbrev ActiveExecutions := Table ActiveExecution.executionId

namespace ActiveExecutions

/-- There is none if the execution is already active. -/
def add (active : ActiveExecutions) (execution : ActiveExecution) : Option ActiveExecutions :=
  active.insert? [execution]

/-- Change the execution with the identifier. -/
def update (active : ActiveExecutions) (id : ExecutionId)
    (change : ActiveExecution → ActiveExecution)
    (keeps : ∀ execution, (change execution).executionId = execution.executionId) :
    ActiveExecutions :=
  active.modify (fun execution => if execution.executionId = id then change execution else execution)
    fun execution => by split <;> simp [keeps]

/-- Only the stage and the slot of an execution change while it runs. -/
def progress (active : ActiveExecutions) (id : ExecutionId) (stage : RunStage × Bool) :
    ActiveExecutions :=
  active.update id (fun execution => { execution with stage := stage.1, slot := stage.2 })
    fun _ => rfl

def cancel (active : ActiveExecutions) (id : ExecutionId) : ActiveExecutions :=
  active.update id (fun execution => { execution with cancelled := true }) fun _ => rfl

def remove (active : ActiveExecutions) (id : ExecutionId) : ActiveExecutions :=
  active.delete fun execution => decide (execution.executionId = id)

/-- The jobs of a queue that hold a slot. -/
def activeJobs (active : ActiveExecutions) (queue : ExecutorJobQueue) : Nat :=
  active.rows.countP fun execution => execution.slot && execution.jobTypeId == queue.jobTypeId

variable {active after : ActiveExecutions}

theorem add_eq_some {execution : ActiveExecution} (added : active.add execution = some after) :
    active.find? execution.executionId = none ∧
      ∀ id, after.find? id = if execution.executionId = id then some execution
        else active.find? id := by
  have absent : active.find? execution.executionId = none := by
    by_contra present
    have refused := Table.insert?_eq_none_iff.mpr (Option.ne_none_iff_exists'.mp present)
    cases added.symm.trans refused
  refine ⟨absent, fun id => ?_⟩
  rw [Table.insert?_find? added]
  split
  · rename_i same
    rw [← same, absent]
    rfl
  · exact Option.or_none

theorem add_eq_none_iff {execution : ActiveExecution} :
    active.add execution = none ↔ ∃ other, active.find? execution.executionId = some other :=
  Table.insert?_eq_none_iff

theorem update_find? (active : ActiveExecutions) (id : ExecutionId)
    (change : ActiveExecution → ActiveExecution)
    (keeps : ∀ execution, (change execution).executionId = execution.executionId)
    (other : ExecutionId) : (active.update id change keeps).find? other =
      if other = id then (active.find? id).map change else active.find? other := by
  rw [update, Table.modify_find?]
  cases found : active.find? other with
  | none =>
      split
      · rename_i same
        rw [← same, found]
        rfl
      · rfl
  | some execution =>
      have key := ((active.find?_eq_some_iff _ _).mp found).2
      split
      · rename_i same
        rw [Option.map_some, if_pos (key.trans same), ← same, found, Option.map_some]
      · rename_i different
        rw [Option.map_some, if_neg fun same => different (key.symm.trans same)]

theorem remove_find? (active : ActiveExecutions) (id other : ExecutionId) :
    (active.remove id).find? other = if other = id then none else active.find? other := by
  rw [remove, Table.find?, Table.delete_rows, List.find?_filter]
  split
  · rename_i same
    rw [List.find?_eq_none]
    intro execution _
    simp [same]
  · rename_i different
    refine List.find?_congr fun execution _ => ?_
    by_cases key : execution.executionId = other <;> simp [key, different]

end ActiveExecutions

/-- `QueueSlot::reserve` -/
def reserve (queue : ExecutorJobQueue) (activeJobs : Nat) : Bool :=
  decide (activeJobs < max queue.maxConcurrentJobs 1)

/-- `send_capabilities` -/
def capabilities (queues : List ExecutorJobQueue) : ExecutorMessage :=
  .capabilities true (some (queues.map fun queue =>
    (queue.jobTypeId, max queue.maxConcurrentJobs 1)))

structure SentMessage where
  message : ExecutorMessage
  offer : Nat
  deriving DecidableEq, Repr

/-- The messages of the server that were received, and those for the server that
are on their way. -/
structure ExecutorLoop where
  received : Nat
  initialized : Bool
  activeExecutions : ActiveExecutions
  outgoing : List SentMessage

/-- What an execution does next. -/
inductive RunMove where
  | start (earlierJobs : Nat)
  | admission (accepted : Bool)
  | withdraw
  | finish (timestamp : Time) (result : Except String String)
  | abandon
  | release

inductive ExecutorMove where
  | receive
  | heartbeat
  | run (id : ExecutionId) (move : RunMove)
  | remove (id : ExecutionId)

/-- The offers of an execution. -/
def offersOf (messages : List ServerMessage) (id : ExecutionId) : Nat :=
  messages.countP fun message => message.offered? == some id

/-- The message with the result of a handler. -/
def resultMessage (id : ExecutionId) (timestamp : Time) : Except String String → ExecutorMessage
  | .ok outputPayloadJson => .executionSucceeded id (.at timestamp) outputPayloadJson
  | .error failureReason => .executionFailed id (.at timestamp) failureReason

namespace ExecutorLoop

def initial : ExecutorLoop := ⟨0, false, .empty, []⟩

def send (state : ExecutorLoop) (message : ExecutorMessage) (offer : Nat) : ExecutorLoop :=
  { state with outgoing := state.outgoing ++ [⟨message, offer⟩] }

variable (queues : List ExecutorJobQueue)

/-- One message of the server.  An execution that is still active is rejected. -/
def handle (state : ExecutorLoop) (offer : ExecutionId → Nat) : ServerMessage → ExecutorLoop
  | .properties _ => { state.send (capabilities queues) 0 with initialized := true }
  | .executionReady _ id jobTypeId _ _ _ =>
      match state.activeExecutions.add ⟨id, jobTypeId, offer id, .starting, false, false⟩ with
      | some active => { state with activeExecutions := active }
      | none => state.send (.executionRejected id) (offer id)
  | .executionCancelled id =>
      { state with activeExecutions := state.activeExecutions.cancel id }

/-- `run_execution`: the next stage, whether the slot is held, and the message
that is sent. -/
def runMove (state : ExecutorLoop) (run : ActiveExecution) (move : RunMove) :
    Option ((RunStage × Bool) × Option ExecutorMessage) :=
  match move, run.stage with
  | .start earlierJobs, .starting =>
      match queues.find? fun queue => queue.jobTypeId == run.jobTypeId with
      | none => some ((.returning, false), some (.executionRejected run.executionId))
      | some queue =>
          if reserve queue (state.activeExecutions.activeJobs queue + earlierJobs) then
            some ((.admitting, true), none)
          else
            some ((.returning, false), some (.executionRejected run.executionId))
  | .admission true, .admitting =>
      some ((.running, run.slot), some (.executionAccepted run.executionId))
  | .admission false, .admitting =>
      some ((.returning, run.slot), some (.executionRejected run.executionId))
  | .withdraw, .admitting =>
      if run.cancelled then some ((.returning, run.slot), none) else none
  | .finish timestamp result, .running =>
      some ((.returning, run.slot), some (resultMessage run.executionId timestamp result))
  | .abandon, .running =>
      if run.cancelled then some ((.returning, run.slot), none) else none
  | .release, .returning => some ((.returning, false), none)
  | _, _ => none

/-- A step, when the server has sent the given messages. -/
def step (incoming : List ServerMessage) (state : ExecutorLoop) : ExecutorMove → Option ExecutorLoop
  | .receive =>
      incoming[state.received]?.map fun message =>
        { state with received := state.received + 1 }.handle queues
          (offersOf (incoming.take (state.received + 1))) message
  | .heartbeat => if state.initialized then some (state.send .heartbeat 0) else none
  | .run id move =>
      match state.activeExecutions.find? id with
      | none => none
      | some run =>
          (state.runMove queues run move).map fun next =>
            { state with
              activeExecutions := state.activeExecutions.progress id next.1
              outgoing := state.outgoing ++ next.2.toList.map fun message => ⟨message, run.offer⟩ }
  | .remove id =>
      match state.activeExecutions.find? id with
      | none => none
      | some run =>
          if run.stage = .returning ∧ run.slot = false then
            some { state with activeExecutions := state.activeExecutions.remove id }
          else
            none

end ExecutorLoop

end Ora.Executor
