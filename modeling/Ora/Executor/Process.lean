import Mathlib
import Ora.Executor.Executions
import Ora.Library.Run
import Ora.Library.Tally

/-!
# The process of an executor

`spawn_impl` of `ora/src/executor/implementation/main_loop.rs`: connection after
connection, each with an executor loop of its own.  The executions of a lost
connection go on beside those of the next one, and all of them share the slots
of the queues.  The numbers of active jobs are atomic counters.
-/

namespace Ora.Executor

open Ora.Backend
open Ora.Library
open Ora.Server (ServerMessage)

/-- The executor loop of one connection, and the messages that
`connection_loop` passed on to it. -/
structure Session where
  executor : ExecutorLoop
  messages : List ServerMessage
  connected : Bool
  listening : Bool

/-- Where the task of the process is: in the connection, in the wait before the
next one, in `all_done` or at its end. -/
inductive ProcessStage where
  | connected
  | reconnecting
  | draining
  | returned
  deriving DecidableEq, Repr

/-- `activeJobs` are the counters of the queues. -/
structure Process where
  sessions : List Session
  stage : ProcessStage
  activeJobs : JobTypeId → Nat

inductive ProcessAction where
  | message (message : ServerMessage)
  | disconnect
  | reconnect
  | shutdown
  | receive (session : Nat)
  | heartbeat (session : Nat)
  | giveUp (session : Nat)
  | stop (session : Nat)
  | run (session : Nat) (id : ExecutionId) (move : RunMove)
  | refuse (session : Nat) (id : ExecutionId)
  | remove (session : Nat) (id : ExecutionId)
  | finish

/-- The executions of a job type that hold a slot. -/
def ActiveExecutions.slots (active : ActiveExecutions) (jobTypeId : JobTypeId) : Nat :=
  active.rows.countP fun execution => execution.slot && execution.jobTypeId == jobTypeId

def ActiveExecution.cancel (execution : ActiveExecution) : ActiveExecution :=
  { execution with cancelled := true }

theorem ActiveExecution.cancel_id (execution : ActiveExecution) :
    execution.cancel.executionId = execution.executionId := rfl

def ActiveExecutions.cancelAll (active : ActiveExecutions) : ActiveExecutions :=
  active.modify ActiveExecution.cancel ActiveExecution.cancel_id

namespace Session

def new : Session := ⟨.initial, [], true, true⟩

def running (session : Session) (jobTypeId : JobTypeId) : Nat :=
  session.executor.activeExecutions.rows.countP fun execution =>
    (execution.stage == .admitting || execution.stage == .running) &&
      execution.jobTypeId == jobTypeId

def slots (session : Session) (jobTypeId : JobTypeId) : Nat :=
  session.executor.activeExecutions.slots jobTypeId

/-- The channel is closed and empty, or the group of the executions waits. -/
def ends (session : Session) (stage : ProcessStage) : Bool :=
  !session.connected && session.executor.received == session.messages.length || stage == .draining

/-- `cancel_all` on the way out of the loop. -/
def stop (session : Session) : Session :=
  { session with
    listening := false
    executor :=
      { session.executor with
        activeExecutions := session.executor.activeExecutions.cancelAll } }

/-- The server introduces the executor to itself before anything else. -/
def IntroducedOnce (session : Session) : Prop :=
  ∀ executorId, .properties executorId ∉ session.messages.tail

/-- Nothing of the session holds back the end of the process. -/
def quiet (session : Session) : Bool :=
  !session.listening && session.executor.activeExecutions.rows.all fun execution =>
    execution.stage == .returning && !execution.slot

end Session

/-- What happens to a counter when a slot is reserved or released.
`fetch_sub` wraps around. -/
def countSlot (held holds : Bool) (active : Nat) : Nat :=
  match held, holds with
  | false, true => active + 1
  | true, false => (active + (2 ^ 64 - 1)) % 2 ^ 64
  | _, _ => active

namespace Process

def start : Process := ⟨[.new], .connected, fun _ => 0⟩

/-- The session of the connection that is open, or was the last to be. -/
def current (process : Process) : Nat :=
  process.sessions.length - 1

/-- Change one session. -/
def change (process : Process) (index : Nat) (next : Session → Option Session) : Option Process :=
  match process.sessions[index]? with
  | none => none
  | some session =>
      (next session).map fun session =>
        { process with sessions := process.sessions.set index session }

variable (queues : List ExecutorJobQueue)

/-- A slot is reserved among those of all connections, the others hold what the
counter has beyond the slots of this one. -/
def moveOf (process : Process) (session : Session) (run : ActiveExecution) : RunMove → RunMove
  | .start _ => .start (process.activeJobs run.jobTypeId - session.slots run.jobTypeId)
  | move => move

/-- The execution gets somewhere, and the counter of its queue follows its slot. -/
def progress (process : Process) (index : Nat) (session : Session) (run : ActiveExecution)
    (next : (RunStage × Bool) × Option Server.ExecutorMessage) : Process where
  sessions := process.sessions.set index
    { session with
      executor :=
        { session.executor with
          activeExecutions := session.executor.activeExecutions.progress run.executionId next.1
          outgoing := session.executor.outgoing ++ next.2.toList.map fun message =>
            ⟨message, run.offer⟩ } }
  stage := process.stage
  activeJobs := Function.update process.activeJobs run.jobTypeId
    (countSlot run.slot next.1.2 (process.activeJobs run.jobTypeId))

/-- A step of an execution of a session. -/
def advance (process : Process) (index : Nat) (id : ExecutionId)
    (next : Session → ActiveExecution →
      Option ((RunStage × Bool) × Option Server.ExecutorMessage)) : Option Process :=
  match process.sessions[index]? with
  | none => none
  | some session =>
      match session.executor.activeExecutions.find? id with
      | none => none
      | some run => (next session run).map (process.progress index session run)

def step (process : Process) : ProcessAction → Option Process
  | .message message =>
      if process.stage = .connected then
        process.change process.current fun session =>
          some { session with messages := session.messages ++ [message] }
      else
        none
  | .disconnect =>
      if process.stage = .connected then
        ({ process with stage := .reconnecting }).change process.current fun session =>
          some { session with connected := false }
      else
        none
  | .reconnect =>
      if process.stage = .reconnecting then
        some { process with sessions := process.sessions ++ [.new], stage := .connected }
      else
        none
  | .shutdown =>
      if process.stage = .connected then some { process with stage := .draining } else none
  | .receive index =>
      process.change index fun session =>
        if session.listening then
          (session.executor.step queues session.messages .receive).map fun executor =>
            { session with executor := executor }
        else
          none
  | .heartbeat index =>
      process.change index fun session =>
        (session.executor.step queues session.messages .heartbeat).map fun executor =>
          { session with executor := executor }
  | .giveUp index =>
      -- The capabilities cannot be sent, nothing is cancelled then.
      process.change index fun session =>
        match session.messages[session.executor.received]? with
        | some (.properties _) =>
            if session.listening then
              some { session with
                listening := false
                executor.received := session.executor.received + 1 }
            else
              none
        | _ => none
  | .stop index =>
      process.change index fun session =>
        if session.listening && session.ends process.stage then some session.stop else none
  | .run index id move =>
      process.advance index id fun session run =>
        session.executor.runMove queues run (process.moveOf session run move)
  | .refuse index id =>
      -- Admitted, but the server cannot be told.
      process.advance index id fun _ run =>
        if run.stage = .admitting then some ((.returning, run.slot), none) else none
  | .remove index id =>
      process.change index fun session =>
        (session.executor.step queues session.messages (.remove id)).map fun executor =>
          { session with executor := executor }
  | .finish =>
      if process.stage = .draining ∧ process.sessions.all Session.quiet = true then
        some { process with stage := .returned }
      else
        none

end Process

namespace ActiveExecutions

variable {active after : ActiveExecutions} {run : ActiveExecution} {jobTypeId : JobTypeId}

theorem progress_slots (found : active.find? run.executionId = some run) (next : RunStage × Bool)
    (jobTypeId : JobTypeId) :
    (active.progress run.executionId next).slots jobTypeId +
        (run.slot && run.jobTypeId == jobTypeId).toNat =
      active.slots jobTypeId + (next.2 && run.jobTypeId == jobTypeId).toNat :=
  countP_map_update active.unique ((active.find?_eq_some_iff _ _).mp found).1
    (fun execution => { execution with stage := next.1, slot := next.2 })
    fun execution => execution.slot && execution.jobTypeId == jobTypeId

theorem add_slots {execution : ActiveExecution} (added : active.add execution = some after)
    (free : execution.slot = false) (jobTypeId : JobTypeId) :
    after.slots jobTypeId = active.slots jobTypeId := by
  unfold slots
  rw [Table.insert?_eq_some_iff.mp added, List.countP_append]
  simp [free]

theorem remove_slots (found : active.find? run.executionId = some run) (free : run.slot = false)
    (jobTypeId : JobTypeId) :
    (active.remove run.executionId).slots jobTypeId = active.slots jobTypeId := by
  unfold slots remove
  rw [Table.delete_rows, List.countP_filter]
  refine List.countP_congr fun execution member => ?_
  obtain ⟨known, _⟩ := (active.find?_eq_some_iff _ _).mp found
  by_cases same : execution.executionId = run.executionId
  · rw [active.eq_of_key member known same]
    simp [free]
  · simp [same]

theorem mem_progress (found : active.find? run.executionId = some run) {next : RunStage × Bool}
    {execution : ActiveExecution}
    (member : execution ∈ (active.progress run.executionId next).rows) :
    execution ∈ active.rows ∨ execution = { run with stage := next.1, slot := next.2 } := by
  obtain ⟨before, known, rfl⟩ := List.mem_map.mp member
  split
  · rename_i same
    obtain ⟨present, _⟩ := (active.find?_eq_some_iff _ _).mp found
    rw [active.eq_of_key known present same]
    exact .inr rfl
  · exact .inl known

theorem mem_add {execution other : ActiveExecution} (added : active.add execution = some after)
    (member : other ∈ after.rows) : other ∈ active.rows ∨ other = execution := by
  rw [Table.insert?_eq_some_iff.mp added, List.mem_append, List.mem_singleton] at member
  exact member

end ActiveExecutions

/-- The largest number of jobs of a type that run at a time. -/
def capacity (queues : List ExecutorJobQueue) (jobTypeId : JobTypeId) : Nat :=
  match queues.find? fun queue => queue.jobTypeId == jobTypeId with
  | none => 0
  | some queue => max queue.maxConcurrentJobs 1

/-- Executions hold a slot from their start to their end, and once nobody
listens for the server all of them are cancelled.  A second introduction could
end the loop without that. -/
structure Session.Sound (session : Session) : Prop where
  holding : ∀ execution ∈ session.executor.activeExecutions.rows,
    execution.stage = .admitting ∨ execution.stage = .running → execution.slot = true
  starting : ∀ execution ∈ session.executor.activeExecutions.rows,
    execution.stage = .starting → execution.slot = false
  unoffered : session.executor.received = 0 → session.executor.activeExecutions.rows = []
  cancelled : session.listening = false → session.IntroducedOnce →
    ∀ execution ∈ session.executor.activeExecutions.rows, execution.cancelled = true

namespace Process

/-- The slots that are held in all sessions. -/
def slots (process : Process) (jobTypeId : JobTypeId) : Nat :=
  (process.sessions.map fun session => session.slots jobTypeId).sum

def running (process : Process) (jobTypeId : JobTypeId) : Nat :=
  (process.sessions.map fun session => session.running jobTypeId).sum

structure Invariant (queues : List ExecutorJobQueue) (process : Process) : Prop where
  counted : ∀ jobTypeId, process.activeJobs jobTypeId = process.slots jobTypeId
  within : ∀ jobTypeId, process.slots jobTypeId ≤ capacity queues jobTypeId
  sound : ∀ session ∈ process.sessions, session.Sound
  returned : process.stage = .returned → ∀ session ∈ process.sessions, session.quiet = true

end Process

/-- A slot is reserved by a start below the capacity, and given back at the end. -/
theorem runMove_slot {queues : List ExecutorJobQueue} {state : ExecutorLoop}
    {run : ActiveExecution} {move : RunMove}
    {next : (RunStage × Bool) × Option Server.ExecutorMessage}
    (taken : state.runMove queues run move = some next) :
    (∃ queue earlierJobs, move = .start earlierJobs ∧ run.stage = .starting ∧
      queues.find? (fun queue => queue.jobTypeId == run.jobTypeId) = some queue ∧
      reserve queue (state.activeExecutions.activeJobs queue + earlierJobs) = true ∧
      next.1 = (.admitting, true)) ∨
    ((run.stage = .admitting ∨ run.stage = .running) ∧
      (next.1 = (.running, run.slot) ∨ next.1 = (.returning, run.slot))) ∨
    next.1 = (.returning, false) := by
  unfold ExecutorLoop.runMove at taken
  split at taken
  · rename_i earlierJobs starting
    split at taken
    · cases taken
      exact .inr (.inr rfl)
    · rename_i queue found
      split at taken
      · rename_i reserved
        cases taken
        exact .inl ⟨queue, earlierJobs, rfl, starting, found, reserved, rfl⟩
      · cases taken
        exact .inr (.inr rfl)
  · rename_i admitting
    cases taken
    exact .inr (.inl ⟨.inl admitting, .inl rfl⟩)
  · rename_i admitting
    cases taken
    exact .inr (.inl ⟨.inl admitting, .inr rfl⟩)
  · rename_i admitting
    split at taken
    · cases taken
      exact .inr (.inl ⟨.inl admitting, .inr rfl⟩)
    · cases taken
  · rename_i running
    cases taken
    exact .inr (.inl ⟨.inr running, .inr rfl⟩)
  · rename_i running
    split at taken
    · cases taken
      exact .inr (.inl ⟨.inr running, .inr rfl⟩)
    · cases taken
  · cases taken
    exact .inr (.inr rfl)
  · cases taken

/-- What has to be known of where an execution gets. -/
structure Advances (queues : List ExecutorJobQueue) (process : Process) (run : ActiveExecution)
    (next : RunStage × Bool) : Prop where
  started : next.1 ≠ .starting
  holding : next.1 = .admitting ∨ next.1 = .running → next.2 = true
  reserved : next.2 = true → run.slot = false →
    process.activeJobs run.jobTypeId < capacity queues run.jobTypeId
  quiet : run.stage = .returning → run.slot = false → next = (.returning, false)

namespace Process

variable {queues : List ExecutorJobQueue} {process after : Process} {session next : Session}
  {index : Nat} {run : ActiveExecution} {id : ExecutionId}

theorem slots_set (found : process.sessions[index]? = some session) (jobTypeId : JobTypeId) :
    slots { process with sessions := process.sessions.set index next } jobTypeId +
        session.slots jobTypeId = process.slots jobTypeId + next.slots jobTypeId :=
  sum_map_set (fun session => session.slots jobTypeId) found next

/-- A session whose slots stay as they are. -/
theorem Invariant.set (inv : process.Invariant queues)
    (found : process.sessions[index]? = some session) (sound : next.Sound)
    (same : ∀ jobTypeId, next.slots jobTypeId = session.slots jobTypeId)
    (quiet : session.quiet = true → next.quiet = true) :
    Invariant queues { process with sessions := process.sessions.set index next } := by
  have slots (jobTypeId : JobTypeId) :
      slots { process with sessions := process.sessions.set index next } jobTypeId =
        process.slots jobTypeId := by
    have sums : slots { process with sessions := process.sessions.set index next } jobTypeId +
        session.slots jobTypeId = process.slots jobTypeId + next.slots jobTypeId :=
      slots_set found jobTypeId
    rw [same] at sums
    exact Nat.add_right_cancel sums
  refine ⟨fun jobTypeId => (inv.counted jobTypeId).trans (slots jobTypeId).symm,
    fun jobTypeId => slots jobTypeId ▸ inv.within jobTypeId, fun other member => ?_,
    fun returned other member => ?_⟩
  · obtain known | rfl := List.mem_or_eq_of_mem_set member
    · exact inv.sound other known
    · exact sound
  · obtain known | rfl := List.mem_or_eq_of_mem_set member
    · exact inv.returned returned other known
    · exact quiet (inv.returned returned session (List.mem_of_getElem? found))

/-- The counter follows the slots without wrapping around. -/
theorem countSlot_eq {held holds : Bool} {active before now : Nat} (counted : active = before)
    (few : before < 2 ^ 64) (slots : now + held.toNat = before + holds.toNat) :
    countSlot held holds active = now := by
  subst counted
  cases held <;> cases holds <;> simp only [countSlot, Bool.toNat_false, Bool.toNat_true] at slots ⊢
  all_goals omega

theorem Invariant.progress (inv : process.Invariant queues)
    (bounded : ∀ jobTypeId, capacity queues jobTypeId < 2 ^ 64)
    (found : process.sessions[index]? = some session)
    (tracked : session.executor.activeExecutions.find? run.executionId = some run)
    {move : (RunStage × Bool) × Option Server.ExecutorMessage}
    (advances : Advances queues process run move.1) :
    (process.progress index session run move).Invariant queues := by
  have sound := inv.sound session (List.mem_of_getElem? found)
  obtain ⟨present, _⟩ := (session.executor.activeExecutions.find?_eq_some_iff _ _).mp tracked
  have slots (jobTypeId : JobTypeId) :
      (process.progress index session run move).slots jobTypeId +
          (run.slot && run.jobTypeId == jobTypeId).toNat =
        process.slots jobTypeId + (move.1.2 && run.jobTypeId == jobTypeId).toNat := by
    have sums := sum_map_set (fun session => session.slots jobTypeId) found
      { session with
        executor :=
          { session.executor with
            activeExecutions :=
              session.executor.activeExecutions.progress run.executionId move.1
            outgoing := session.executor.outgoing ++ move.2.toList.map fun message =>
              ⟨message, run.offer⟩ } }
    have own := ActiveExecutions.progress_slots tracked move.1 jobTypeId
    simp only [Process.slots, Process.progress, Session.slots] at sums ⊢
    omega
  refine ⟨fun jobTypeId => ?_, fun jobTypeId => ?_, fun other member => ?_,
    fun returned other member => ?_⟩
  · have counted := inv.counted jobTypeId
    have few := Nat.lt_of_le_of_lt (inv.within jobTypeId) (bounded jobTypeId)
    have sums := slots jobTypeId
    by_cases same : jobTypeId = run.jobTypeId
    · subst same
      rw [show (process.progress index session run move).activeJobs run.jobTypeId = _ from
        Function.update_self ..]
      exact countSlot_eq counted few (by simpa using sums)
    · rw [show (process.progress index session run move).activeJobs jobTypeId = _ from
        Function.update_of_ne same ..]
      have other : (run.jobTypeId == jobTypeId) = false := beq_false_of_ne (Ne.symm same)
      simp only [other, Bool.and_false, Bool.toNat_false, Nat.add_zero] at sums
      exact counted.trans sums.symm
  · have within := inv.within jobTypeId
    have sums := slots jobTypeId
    by_cases reserves : move.1.2 = true ∧ run.slot = false ∧ run.jobTypeId = jobTypeId
    · obtain ⟨holds, free, rfl⟩ := reserves
      have below := advances.reserved holds free
      rw [inv.counted] at below
      simp only [holds, free, beq_self_eq_true, Bool.and_self, Bool.false_and, Bool.toNat_false,
        Bool.toNat_true, Nat.add_zero] at sums
      omega
    · have fewer : (move.1.2 && run.jobTypeId == jobTypeId).toNat ≤
          (run.slot && run.jobTypeId == jobTypeId).toNat := by
        cases held : run.slot <;> cases holds : move.1.2 <;> simp_all
      omega
  · obtain known | rfl := List.mem_or_eq_of_mem_set member
    · exact inv.sound other known
    · refine ⟨fun execution member stage => ?_, fun execution member stage => ?_,
        fun none => ?_, fun deaf once execution member => ?_⟩
      · obtain known | rfl := ActiveExecutions.mem_progress tracked member
        · exact sound.holding execution known stage
        · exact advances.holding stage
      · obtain known | rfl := ActiveExecutions.mem_progress tracked member
        · exact sound.starting execution known stage
        · exact absurd stage advances.started
      · rw [sound.unoffered none] at present
        exact absurd present List.not_mem_nil
      · obtain known | rfl := ActiveExecutions.mem_progress tracked member
        · exact sound.cancelled deaf once execution known
        · exact sound.cancelled deaf once run present
  · obtain known | rfl := List.mem_or_eq_of_mem_set member
    · exact inv.returned returned other known
    · have quiet := inv.returned returned session (List.mem_of_getElem? found)
      simp only [Session.quiet, Bool.and_eq_true, List.all_eq_true, beq_iff_eq,
        Bool.not_eq_true'] at quiet ⊢
      refine ⟨quiet.1, fun execution member => ?_⟩
      obtain known | rfl := ActiveExecutions.mem_progress tracked member
      · exact quiet.2 execution known
      · rw [advances.quiet (quiet.2 run present).1 (quiet.2 run present).2]
        exact ⟨rfl, rfl⟩

theorem change_cases {change : Session → Option Session}
    (taken : process.change index change = some after) :
    ∃ session next, process.sessions[index]? = some session ∧ change session = some next ∧
      after = { process with sessions := process.sessions.set index next } := by
  unfold Process.change at taken
  cases found : process.sessions[index]? with
  | none =>
      rw [found] at taken
      cases taken
  | some session =>
      rw [found] at taken
      obtain ⟨next, changed, rfl⟩ := Option.map_eq_some_iff.mp taken
      exact ⟨session, next, rfl, changed, rfl⟩

theorem advance_cases {next : Session → ActiveExecution →
      Option ((RunStage × Bool) × Option Server.ExecutorMessage)}
    (taken : process.advance index id next = some after) :
    ∃ session run move, process.sessions[index]? = some session ∧
      session.executor.activeExecutions.find? run.executionId = some run ∧
      next session run = some move ∧ after = process.progress index session run move := by
  unfold Process.advance at taken
  cases found : process.sessions[index]? with
  | none =>
      rw [found] at taken
      cases taken
  | some session =>
      rw [found] at taken
      dsimp only at taken
      cases tracked : session.executor.activeExecutions.find? id with
      | none =>
          rw [tracked] at taken
          cases taken
      | some run =>
          rw [tracked] at taken
          obtain ⟨move, moved, rfl⟩ := Option.map_eq_some_iff.mp taken
          have same := ((session.executor.activeExecutions.find?_eq_some_iff _ _).mp tracked).2
          exact ⟨session, run, move, rfl, by rw [same]; exact tracked, moved, rfl⟩

end Process

namespace Session

variable {queues : List ExecutorJobQueue} {session : Session} {executor : ExecutorLoop}
  {jobTypeId : JobTypeId}

theorem cancelled_slots (active : ActiveExecutions) (change : ActiveExecution → ActiveExecution)
    (keeps : ∀ execution, (change execution).executionId = execution.executionId)
    (slot : ∀ execution, (change execution).slot = execution.slot ∧
      (change execution).jobTypeId = execution.jobTypeId) :
    ActiveExecutions.slots (active.modify change keeps) jobTypeId = active.slots jobTypeId := by
  unfold ActiveExecutions.slots
  rw [Table.modify_rows, List.countP_map]
  refine List.countP_congr fun execution _ => ?_
  simp only [Function.comp_apply, (slot execution).1, (slot execution).2]

/-- Stages and slots do not change with the cancellation token. -/
theorem Sound.cancel (sound : session.Sound) (change : ActiveExecution → ActiveExecution)
    (keeps : ∀ execution, (change execution).executionId = execution.executionId)
    (same : ∀ execution, (change execution).slot = execution.slot ∧
      (change execution).stage = execution.stage)
    (cancelled : session.listening = false →
      ∀ execution, execution.cancelled = true → (change execution).cancelled = true) :
    Sound { session with
      executor.activeExecutions := session.executor.activeExecutions.modify change keeps } := by
  refine ⟨fun other member stage => ?_, fun other member stage => ?_, fun none => ?_,
    fun deaf once other member => ?_⟩
  · obtain ⟨execution, known, rfl⟩ := List.mem_map.mp member
    rw [(same execution).1]
    exact sound.holding execution known ((same execution).2 ▸ stage)
  · obtain ⟨execution, known, rfl⟩ := List.mem_map.mp member
    rw [(same execution).1]
    exact sound.starting execution known ((same execution).2 ▸ stage)
  · rw [Table.modify_rows, sound.unoffered none]
    rfl
  · obtain ⟨execution, known, rfl⟩ := List.mem_map.mp member
    exact cancelled deaf execution (sound.cancelled deaf once execution known)

theorem Sound.receive (sound : session.Sound) (listening : session.listening = true)
    (received : session.executor.step queues session.messages .receive = some executor) :
    Sound { session with executor := executor } ∧ ∀ jobTypeId,
      executor.activeExecutions.slots jobTypeId = session.slots jobTypeId := by
  have hears (deaf : session.listening = false) : False := by
    rw [listening] at deaf
    cases deaf
  obtain ⟨message, -, rfl⟩ := Option.map_eq_some_iff.mp received
  cases message with
  | properties executorId =>
      exact ⟨⟨sound.holding, sound.starting, nofun, fun deaf => (hears deaf).elim⟩, fun _ => rfl⟩
  | executionCancelled id =>
      have kept := sound.cancel
        (fun execution => if execution.executionId = id then { execution with cancelled := true }
          else execution)
        (fun execution => by split <;> rfl)
        (fun execution => by split <;> exact ⟨rfl, rfl⟩)
        fun deaf => (hears deaf).elim
      refine ⟨⟨kept.holding, kept.starting, nofun, kept.cancelled⟩, fun jobTypeId =>
        cancelled_slots _ _ (fun execution => ?_) fun execution => ?_⟩
      · split <;> rfl
      · split <;> exact ⟨rfl, rfl⟩
  | executionReady jobId id jobTypeId =>
      unfold ExecutorLoop.handle
      dsimp only
      split
      · rename_i active added
        refine ⟨⟨fun other member stage => ?_, fun other member stage => ?_, nofun,
          fun deaf => (hears deaf).elim⟩,
          fun jobTypeId => ActiveExecutions.add_slots added rfl jobTypeId⟩
        · obtain known | rfl := ActiveExecutions.mem_add added member
          · exact sound.holding other known stage
          · exact stage.elim nofun nofun
        · obtain known | rfl := ActiveExecutions.mem_add added member
          · exact sound.starting other known stage
          · rfl
      · exact ⟨⟨sound.holding, sound.starting, nofun, fun deaf => (hears deaf).elim⟩, fun _ => rfl⟩

theorem Sound.remove (sound : session.Sound) {id : ExecutionId}
    (removed : session.executor.step queues session.messages (.remove id) = some executor) :
    Sound { session with executor := executor } ∧
      (∀ jobTypeId, executor.activeExecutions.slots jobTypeId = session.slots jobTypeId) ∧
      (session.quiet = true → Session.quiet { session with executor := executor } = true) := by
  unfold ExecutorLoop.step at removed
  dsimp only at removed
  cases tracked : session.executor.activeExecutions.find? id with
  | none =>
      rw [tracked] at removed
      cases removed
  | some run =>
      rw [tracked] at removed
      dsimp only at removed
      split at removed
      · rename_i ended
        cases removed
        obtain ⟨-, rfl⟩ := (session.executor.activeExecutions.find?_eq_some_iff _ _).mp tracked
        have fewer {other : ActiveExecution}
            (member : other ∈ (session.executor.activeExecutions.remove run.executionId).rows) :
            other ∈ session.executor.activeExecutions.rows := (List.mem_filter.mp member).1
        refine ⟨⟨fun other member => sound.holding other (fewer member),
          fun other member => sound.starting other (fewer member),
          fun none => ?_,
          fun deaf once other member => sound.cancelled deaf once other (fewer member)⟩,
          fun jobTypeId => ActiveExecutions.remove_slots tracked ended.2 jobTypeId,
          fun quiet => ?_⟩
        · rw [List.eq_nil_iff_forall_not_mem]
          intro other member
          have known := fewer member
          rw [sound.unoffered none] at known
          exact absurd known List.not_mem_nil
        · simp only [Session.quiet, Bool.and_eq_true, List.all_eq_true] at quiet ⊢
          exact ⟨quiet.1, fun other member => quiet.2 other (fewer member)⟩
      · cases removed

theorem Sound.stop (sound : session.Sound) : session.stop.Sound := by
  have cancelled := sound.cancel ActiveExecution.cancel ActiveExecution.cancel_id
    (fun _ => ⟨rfl, rfl⟩) fun _ _ _ => rfl
  refine ⟨cancelled.holding, cancelled.starting, cancelled.unoffered, fun _ _ other member => ?_⟩
  obtain ⟨execution, -, rfl⟩ := List.mem_map.mp member
  rfl

/-- Whoever gives up at the introduction has nothing to cancel yet. -/
theorem Sound.giveUp (sound : session.Sound) {executorId : ExecutorId}
    (next : session.messages[session.executor.received]? = some (.properties executorId)) :
    Sound { session with
      listening := false
      executor.received := session.executor.received + 1 } := by
  refine ⟨sound.holding, sound.starting, nofun, fun _ once execution member => ?_⟩
  have first : session.executor.received = 0 := by
    by_contra later
    obtain ⟨earlier, same⟩ := Nat.exists_eq_succ_of_ne_zero later
    rw [same, Nat.succ_eq_add_one, ← List.getElem?_tail] at next
    exact once executorId (List.mem_of_getElem? next)
  rw [show session.executor.activeExecutions.rows = [] from sound.unoffered first] at member
  exact absurd member List.not_mem_nil

theorem Sound.message (sound : session.Sound) (message : ServerMessage) :
    Sound { session with messages := session.messages ++ [message] } := by
  refine ⟨sound.holding, sound.starting, sound.unoffered, fun deaf once =>
    sound.cancelled deaf fun executorId member => once executorId ?_⟩
  cases sent : session.messages with
  | nil =>
      rw [sent] at member
      exact absurd member List.not_mem_nil
  | cons first rest =>
      rw [sent] at member
      exact List.mem_append_left _ member

theorem stop_slots (jobTypeId : JobTypeId) : session.stop.slots jobTypeId = session.slots jobTypeId :=
  cancelled_slots session.executor.activeExecutions ActiveExecution.cancel
    ActiveExecution.cancel_id fun _ => ⟨rfl, rfl⟩

theorem new_sound : Session.new.Sound :=
  ⟨nofun, nofun, fun _ => rfl, nofun⟩

end Session

theorem capacity_of_find {queues : List ExecutorJobQueue} {jobTypeId : JobTypeId}
    {queue : ExecutorJobQueue}
    (found : queues.find? (fun queue => queue.jobTypeId == jobTypeId) = some queue) :
    capacity queues jobTypeId = max queue.maxConcurrentJobs 1 := by
  unfold capacity
  rw [found]

theorem capacity_bounded {queues : List ExecutorJobQueue}
    (fits : ∀ queue ∈ queues, queue.maxConcurrentJobs < 2 ^ 64) (jobTypeId : JobTypeId) :
    capacity queues jobTypeId < 2 ^ 64 := by
  unfold capacity
  split
  · decide
  · rename_i queue found
    have bound := fits queue (List.mem_of_find?_eq_some found)
    omega

namespace Process

variable {queues : List ExecutorJobQueue} {process after : Process} {session : Session}
  {index : Nat} {run : ActiveExecution}

theorem session_slots_le (found : process.sessions[index]? = some session)
    (jobTypeId : JobTypeId) : session.slots jobTypeId ≤ process.slots jobTypeId :=
  List.single_le_sum (fun _ _ => Nat.zero_le _) _
    (List.mem_map_of_mem (List.mem_of_getElem? found))

/-- `run_execution` reserves among all slots, not only those of its connection. -/
theorem run_advances (inv : process.Invariant queues)
    (found : process.sessions[index]? = some session)
    (tracked : session.executor.activeExecutions.find? run.executionId = some run)
    {move : RunMove} {next : (RunStage × Bool) × Option Server.ExecutorMessage}
    (taken : session.executor.runMove queues run (process.moveOf session run move) = some next) :
    Advances queues process run next.1 := by
  have sound := inv.sound session (List.mem_of_getElem? found)
  obtain ⟨present, _⟩ := (session.executor.activeExecutions.find?_eq_some_iff _ _).mp tracked
  obtain ⟨queue, earlierJobs, started, starting, listed, reserved, stage⟩ | ⟨active, stage⟩ |
    stage := runMove_slot taken
  · rw [stage]
    refine ⟨nofun, fun _ => rfl, fun _ _ => ?_, fun ended => ?_⟩
    · cases move with
      | start given =>
          cases started
          have own := session_slots_le found run.jobTypeId
          rw [← inv.counted] at own
          have same : queue.jobTypeId = run.jobTypeId := by
            simpa using List.find?_some listed
          have jobs : session.executor.activeExecutions.activeJobs queue =
              session.slots run.jobTypeId := by
            rw [← same]
            rfl
          rw [jobs, Nat.add_sub_cancel' own] at reserved
          rw [capacity_of_find listed]
          exact of_decide_eq_true reserved
      | admission | withdraw | finish | abandon | release => cases started
    · rw [starting] at ended
      cases ended
  · have held := sound.holding run present active
    have active : run.stage ≠ .returning := by
      obtain admitting | running := active
      · simp [admitting]
      · simp [running]
    obtain stage | stage := stage
    · rw [stage]
      exact ⟨nofun, fun _ => held, fun _ free => absurd held (by simp [free]),
        fun ended => absurd ended active⟩
    · rw [stage]
      exact ⟨nofun, fun _ => held, fun _ free => absurd held (by simp [free]),
        fun ended => absurd ended active⟩
  · rw [stage]
    exact ⟨nofun, fun active => active.elim nofun nofun, nofun, fun _ _ => rfl⟩

theorem step_invariant (fits : ∀ queue ∈ queues, queue.maxConcurrentJobs < 2 ^ 64)
    (inv : process.Invariant queues) {action : ProcessAction}
    (taken : process.step queues action = some after) : after.Invariant queues := by
  have known {index : Nat} {session : Session} (found : process.sessions[index]? = some session) :=
    inv.sound session (List.mem_of_getElem? found)
  cases action with
  | message message =>
      obtain ⟨connected, taken⟩ := Option.ite_none_right_eq_some.mp taken
      obtain ⟨session, next, found, changed, rfl⟩ := change_cases taken
      cases changed
      exact inv.set found ((known found).message message) (fun _ => rfl) id
  | disconnect =>
      obtain ⟨connected, taken⟩ := Option.ite_none_right_eq_some.mp taken
      obtain ⟨session, next, found, changed, rfl⟩ := change_cases taken
      cases changed
      have later : Invariant queues { process with stage := .reconnecting } :=
        ⟨inv.counted, inv.within, inv.sound, by simp⟩
      have sound := known found
      exact later.set found
        ⟨sound.holding, sound.starting, sound.unoffered, sound.cancelled⟩ (fun _ => rfl) id
  | reconnect =>
      obtain ⟨-, taken⟩ := Option.ite_none_right_eq_some.mp taken
      cases taken
      have slots (jobTypeId : JobTypeId) :
          slots { process with sessions := process.sessions ++ [.new], stage := .connected }
            jobTypeId = process.slots jobTypeId := by
        simp [Process.slots, Session.new, Session.slots, ActiveExecutions.slots,
          ExecutorLoop.initial, Table.empty]
      refine ⟨fun jobTypeId => (inv.counted jobTypeId).trans (slots jobTypeId).symm,
        fun jobTypeId => slots jobTypeId ▸ inv.within jobTypeId, fun session member => ?_, by simp⟩
      obtain earlier | new := List.mem_append.mp member
      · exact inv.sound session earlier
      · rw [List.mem_singleton.mp new]
        exact Session.new_sound
  | shutdown =>
      obtain ⟨-, taken⟩ := Option.ite_none_right_eq_some.mp taken
      cases taken
      exact ⟨inv.counted, inv.within, inv.sound, by simp⟩
  | receive index =>
      obtain ⟨session, next, found, changed, rfl⟩ := change_cases taken
      obtain ⟨listening, changed⟩ := Option.ite_none_right_eq_some.mp changed
      obtain ⟨executor, received, rfl⟩ := Option.map_eq_some_iff.mp changed
      obtain ⟨sound, slots⟩ := (known found).receive listening received
      refine inv.set found sound slots fun quiet => ?_
      simp [Session.quiet, listening] at quiet
  | heartbeat index =>
      obtain ⟨session, next, found, changed, rfl⟩ := change_cases taken
      obtain ⟨executor, sent, rfl⟩ := Option.map_eq_some_iff.mp changed
      obtain ⟨-, sent⟩ := Option.ite_none_right_eq_some.mp sent
      cases sent
      have sound := known found
      exact inv.set found ⟨sound.holding, sound.starting, sound.unoffered, sound.cancelled⟩
        (fun _ => rfl) id
  | giveUp index =>
      obtain ⟨session, next, found, changed, rfl⟩ := change_cases taken
      dsimp only at changed
      split at changed
      · rename_i executorId introduced
        obtain ⟨listening, changed⟩ := Option.ite_none_right_eq_some.mp changed
        cases changed
        refine inv.set found ((known found).giveUp introduced) (fun _ => rfl) fun quiet => ?_
        simp [Session.quiet, listening] at quiet
      · cases changed
  | stop index =>
      obtain ⟨session, next, found, changed, rfl⟩ := change_cases taken
      obtain ⟨ends, changed⟩ := Option.ite_none_right_eq_some.mp changed
      cases changed
      refine inv.set found (known found).stop Session.stop_slots fun quiet => ?_
      simp only [Bool.and_eq_true] at ends
      simp [Session.quiet, ends.1] at quiet
  | run index id move =>
      obtain ⟨session, run, next, found, tracked, moved, rfl⟩ := advance_cases taken
      exact inv.progress (capacity_bounded fits) found tracked (run_advances inv found tracked moved)
  | refuse index id =>
      obtain ⟨session, run, next, found, tracked, moved, rfl⟩ := advance_cases taken
      obtain ⟨admitting, moved⟩ := Option.ite_none_right_eq_some.mp moved
      cases moved
      obtain ⟨present, _⟩ := (session.executor.activeExecutions.find?_eq_some_iff _ _).mp tracked
      have held := (known found).holding run present (.inl admitting)
      refine inv.progress (capacity_bounded fits) found tracked
        ⟨by simp, fun _ => held, fun _ free => ?_, fun ended => ?_⟩
      · exact absurd held (by simp [free])
      · exact absurd ended (by simp [admitting])
  | remove index id =>
      obtain ⟨session, next, found, changed, rfl⟩ := change_cases taken
      obtain ⟨executor, removed, rfl⟩ := Option.map_eq_some_iff.mp changed
      obtain ⟨sound, slots, quiet⟩ := (known found).remove removed
      exact inv.set found sound slots quiet
  | finish =>
      obtain ⟨⟨-, quiet⟩, taken⟩ := Option.ite_none_right_eq_some.mp taken
      cases taken
      exact ⟨inv.counted, inv.within, inv.sound, fun _ => List.all_eq_true.mp quiet⟩

theorem start_invariant : start.Invariant queues :=
  ⟨fun _ => rfl, fun _ => Nat.zero_le _, by simp [start, Session.new_sound], nofun⟩

theorem running_le_slots (inv : process.Invariant queues) (jobTypeId : JobTypeId) :
    process.running jobTypeId ≤ process.slots jobTypeId := by
  refine List.sum_le_sum fun session member => List.countP_mono_left fun execution known runs => ?_
  simp only [Bool.and_eq_true, Bool.or_eq_true, beq_iff_eq] at runs ⊢
  exact ⟨(inv.sound session member).holding execution known runs.1, runs.2⟩

theorem quiet_running {session : Session} (quiet : session.quiet = true) (jobTypeId : JobTypeId) :
    session.running jobTypeId = 0 := by
  simp only [Session.quiet, Bool.and_eq_true, List.all_eq_true, beq_iff_eq] at quiet
  refine List.countP_eq_zero.mpr fun execution member => ?_
  simp [(quiet.2 execution member).1]

/-- The executions of all connections together never exceed the capacity of a
queue, and its counter is the number of slots they hold.  Those of a connection
that is lost are cancelled, and none is left when the process returns. -/
theorem running_within_capacity (queues : List ExecutorJobQueue)
    (fits : ∀ queue ∈ queues, queue.maxConcurrentJobs < 2 ^ 64) {process : Process}
    (run : Reaches (Process.step queues) (fun _ _ => True) Process.start process) :
    (∀ jobTypeId, process.running jobTypeId ≤ capacity queues jobTypeId ∧
      process.activeJobs jobTypeId = process.slots jobTypeId) ∧
    (∀ session ∈ process.sessions, session.listening = false → session.IntroducedOnce →
      ∀ execution ∈ session.executor.activeExecutions.rows, execution.cancelled = true) ∧
    (process.stage = .returned → ∀ jobTypeId, process.running jobTypeId = 0) := by
  have inv : process.Invariant queues :=
    run.invariant (fun _ _ _ inv _ taken => step_invariant fits inv taken) start_invariant
  refine ⟨fun jobTypeId => ⟨(running_le_slots inv jobTypeId).trans (inv.within jobTypeId),
    inv.counted jobTypeId⟩, fun session member => (inv.sound session member).cancelled,
    fun returned jobTypeId => ?_⟩
  refine List.sum_eq_zero fun number member => ?_
  obtain ⟨session, known, rfl⟩ := List.mem_map.mp member
  exact quiet_running (inv.returned returned session known) jobTypeId

/-- The connection is lost while an execution runs, and the next connection
offers another one. -/
def overlapping : List ProcessAction :=
  [.message (.properties 0), .message (.executionReady 0 1 "type" 1 "" 0), .receive 0, .receive 0,
    .run 0 1 (.start 0), .run 0 1 (.admission true), .disconnect, .stop 0, .reconnect,
    .message (.properties 1), .message (.executionReady 0 2 "type" 1 "" 0), .receive 1, .receive 1,
    .run 1 2 (.start 0)]

theorem running_within_capacity_overlapping :
    ∃ process, Reaches (Process.step [⟨"type", 1⟩]) (fun _ _ => True) Process.start process ∧
      process.sessions.length = 2 ∧ process.running "type" = 1 ∧
      process.running "type" ≤ capacity [⟨"type", 1⟩] "type" ∧
      process.activeJobs "type" = process.slots "type" := by
  obtain ⟨process, run, checked⟩ := exists_reaches_of_execute (Process.step [⟨"type", 1⟩])
    (fun _ _ => True) Process.start overlapping
    (fun process => process.sessions.length == 2 && process.running "type" == 1) (by decide)
  simp only [Bool.and_eq_true, beq_iff_eq] at checked
  have within := running_within_capacity [⟨"type", 1⟩] (by simp) run
  exact ⟨process, run, checked.1, checked.2, (within.1 "type").1, (within.1 "type").2⟩

end Process

end Ora.Executor
