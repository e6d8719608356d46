import Ora.Executor.Executions
import Ora.Server.Offers
import Ora.Server.Withdrawals

/-!
# A connection of an executor

The server and an executor with the messages on their way between them.  What
both know of one execution is a handshake: messages about other executions, the
slots of the queues and the rest of the server do not matter to it.
-/

namespace Ora.Executor

open Ora.Backend
open Ora.Library
open Ora.Server (ServerMessage ExecutorMessage ServerState)

/-- Another executor, or the server itself. -/
def others (executorId : ExecutorId) : Server.Action → Bool
  | .message sender _ _ => sender != executorId
  | _ => true

structure Connection where
  server : ServerState
  executor : ExecutorLoop

/-- Messages of the executor are only delivered from its channel. -/
inductive ConnectionAction where
  | server (action : Server.Action)
  | deliver (systemNow : Time)
  | executor (move : ExecutorMove)

namespace Connection

def initial : Connection := ⟨.initial, .initial⟩

section Steps

variable (executorId : ExecutorId)

/-- What the server sent to the executor. -/
def messages (connection : Connection) : List ServerMessage :=
  Server.messagesTo connection.server.pool.history executorId

/-- The messages that are on their way to the executor. -/
def incoming (connection : Connection) : List ServerMessage :=
  (connection.messages executorId).drop connection.executor.received

def step (queues : List ExecutorJobQueue) (connection : Connection) :
    ConnectionAction → Option Connection
  | .server action =>
      if others executorId action then
        (connection.server.step action).map fun server => { connection with server := server }
      else
        none
  | .deliver systemNow =>
      match connection.executor.outgoing with
      | [] => none
      | sent :: rest =>
          (connection.server.step (.message executorId systemNow sent.message)).map fun server =>
            ⟨server, { connection.executor with outgoing := rest }⟩
  | .executor move =>
      (connection.executor.step queues (connection.messages executorId) move).map fun executor =>
        { connection with executor := executor }

/-- Whether an acceptance is of the latest offer, if the execution is offered. -/
def current (connection : Connection) (sent : SentMessage) : Bool :=
  match sent.message with
  | .executionAccepted id =>
      connection.server.pool.entry executorId id != .offered ||
        sent.offer == offersOf (connection.messages executorId) id
  | _ => true

/-- No acceptance of an earlier offer is taken for one of the latest offer. -/
def deliversCurrent (connection : Connection) : ConnectionAction → Bool
  | .deliver _ => connection.executor.outgoing.head?.all (connection.current executorId)
  | _ => true

end Steps

end Connection

def noticeOf (id : ExecutionId) : ServerMessage → Option HandshakeNotice
  | .properties _ => none
  | .executionReady _ other _ _ _ _ => if other = id then some .ready else none
  | .executionCancelled other => if other = id then some .cancelled else none

/-- The execution an executor answers about. -/
def answer? : ExecutorMessage → Option (ExecutionId × HandshakeAnswer)
  | .executionAccepted id => some (id, .accepted)
  | .executionRejected id => some (id, .rejected)
  | .executionSucceeded id _ _ => some (id, .finished)
  | .executionFailed id _ _ => some (id, .finished)
  | _ => none

def answerOf (id : ExecutionId) (sent : SentMessage) : Option (HandshakeAnswer × Nat) :=
  match answer? sent.message with
  | none => none
  | some (other, answer) => if other = id then some (answer, sent.offer) else none

theorem answerOf_of_answer? (id : ExecutionId) {other : ExecutionId} {sent : SentMessage}
    {answer : HandshakeAnswer} (about : answer? sent.message = some (other, answer)) :
    answerOf id sent = if other = id then some (answer, sent.offer) else none := by
  rw [answerOf, about]

theorem answerOf_of_none {id : ExecutionId} {sent : SentMessage}
    (about : answer? sent.message = none) : answerOf id sent = none := by
  rw [answerOf, about]

theorem filterMap_answerOf {sent : Option ExecutorMessage} {answer : Option HandshakeAnswer}
    {other : ExecutionId}
    (answers : sent.map answer? = answer.map fun answer => some (other, answer)) (offer : Nat)
    (id : ExecutionId) :
    (sent.toList.map fun message => SentMessage.mk message offer).filterMap (answerOf id) =
      if other = id then answer.toList.map fun answer => (answer, offer) else [] := by
  cases sent with
  | none =>
      cases answer with
      | none => simp
      | some answer => cases answers
  | some message =>
      cases answer with
      | none => cases answers
      | some answer =>
          have about : answerOf id ⟨message, offer⟩ = _ :=
            answerOf_of_answer? id (Option.some.inj answers)
          by_cases same : other = id <;> simp [about, same]

theorem message_of_answer? {message : ExecutorMessage} {id : ExecutionId}
    (about : answer? message = some (id, .accepted)) : message = .executionAccepted id := by
  cases message with
  | executionAccepted other =>
      cases about
      rfl
  | capabilities | heartbeat | executionRejected | executionSucceeded | executionFailed
  | malformed => cases about

theorem count_noticeOf (messages : List ServerMessage) (id : ExecutionId) :
    (messages.filterMap (noticeOf id)).count .ready = offersOf messages id := by
  rw [List.count_filterMap]
  refine List.countP_congr fun message _ => ?_
  cases message with
  | properties => simp [noticeOf, ServerMessage.offered?]
  | executionReady _ other =>
      by_cases same : other = id <;> simp [noticeOf, ServerMessage.offered?, same]
  | executionCancelled other =>
      by_cases same : other = id <;> simp [noticeOf, ServerMessage.offered?, same]

theorem offersOf_append (messages more : List ServerMessage) (id : ExecutionId) :
    offersOf (messages ++ more) id = offersOf messages id + offersOf more id :=
  List.countP_append

def RunStage.phase : RunStage → RunPhase
  | .starting => .admitting
  | .admitting => .admitting
  | .running => .running
  | .returning => .ending

def ActiveExecution.run (execution : ActiveExecution) : WorkerRun :=
  ⟨execution.offer, execution.stage.phase, execution.cancelled⟩

namespace ExecutorLoop

/-- The handshake of an execution, when the server has sent the given messages. -/
def handshake (state : ExecutorLoop) (entry : HandshakeEntry) (messages : List ServerMessage)
    (id : ExecutionId) : Handshake where
  entry := entry
  toWorker := (messages.drop state.received).filterMap (noticeOf id)
  toServer := state.outgoing.filterMap (answerOf id)
  received := offersOf (messages.take state.received) id
  run := (state.activeExecutions.find? id).map ActiveExecution.run

theorem handshake_latest (state : ExecutorLoop) (entry : HandshakeEntry)
    (messages : List ServerMessage) (id : ExecutionId) :
    (state.handshake entry messages id).latest = offersOf messages id := by
  rw [Handshake.latest, handshake, count_noticeOf, ← offersOf_append, List.take_append_drop]

variable {queues : List ExecutorJobQueue} {state after : ExecutorLoop}
  {messages : List ServerMessage} {entry : HandshakeEntry} {id : ExecutionId}

/-- What an execution does next is what its run does, and it answers about itself. -/
theorem runMove_cases {run : ActiveExecution} {move : RunMove}
    {next : (RunStage × Bool) × Option ExecutorMessage}
    (taken : state.runMove queues run move = some next) :
    (next.1.1.phase = run.stage.phase ∧ next.2 = none) ∨
      ∃ progress answer, run.run.next progress = some (next.1.1.phase, answer) ∧
        next.2.map answer? = answer.map fun answer => some (run.executionId, answer) := by
  rcases run with ⟨id, jobTypeId, offer, stage, slot, cancelled⟩
  unfold runMove at taken
  split at taken
  · rename_i earlierJobs stageIs
    cases stageIs
    split at taken
    · cases taken
      exact .inr ⟨.reject, some .rejected, rfl, rfl⟩
    · split at taken
      · cases taken
        exact .inl ⟨rfl, rfl⟩
      · cases taken
        exact .inr ⟨.reject, some .rejected, rfl, rfl⟩
  · rename_i stageIs
    cases stageIs
    cases taken
    exact .inr ⟨.accept, some .accepted, rfl, rfl⟩
  · rename_i stageIs
    cases stageIs
    cases taken
    exact .inr ⟨.reject, some .rejected, rfl, rfl⟩
  · rename_i stageIs
    cases stageIs
    cases cancelled with
    | false => cases taken
    | true =>
        cases taken
        exact .inr ⟨.abort, none, rfl, rfl⟩
  · rename_i timestamp result stageIs
    cases stageIs
    cases taken
    cases result <;> exact .inr ⟨.finish, some .finished, rfl, rfl⟩
  · rename_i stageIs
    cases stageIs
    cases cancelled with
    | false => cases taken
    | true =>
        cases taken
        exact .inr ⟨.drop, none, rfl, rfl⟩
  · rename_i stageIs
    cases stageIs
    cases taken
    exact .inl ⟨rfl, rfl⟩
  · cases taken

theorem drop_received {message : ServerMessage}
    (found : messages[state.received]? = some message) :
    messages.drop state.received = message :: messages.drop (state.received + 1) := by
  obtain ⟨bound, first⟩ := List.getElem?_eq_some_iff.mp found
  rw [List.drop_eq_getElem_cons bound, first]

theorem offersOf_received {message : ServerMessage}
    (found : messages[state.received]? = some message) (id : ExecutionId) :
    offersOf (messages.take (state.received + 1)) id =
      offersOf (messages.take state.received) id + if message.offered? = some id then 1 else 0 := by
  rw [List.take_add_one, found, Option.toList_some, offersOf, List.countP_append,
    List.countP_singleton]
  simp only [beq_iff_eq]
  rfl

theorem properties_handshake {executorId : ExecutorId}
    (found : messages[state.received]? = some (.properties executorId)) :
    handshake ({ state with received := state.received + 1 }.handle queues
      (offersOf (messages.take (state.received + 1))) (.properties executorId)) entry messages id =
        state.handshake entry messages id := by
  simp [handle, send, handshake, offersOf_received found, drop_received found,
    List.filterMap_cons, noticeOf, ServerMessage.offered?, answerOf, answer?, capabilities]

/-- An offer starts a run, or it is rejected because of an earlier one. -/
theorem ready_handshake {jobId : JobId} {other : ExecutionId} {jobTypeId : JobTypeId}
    {attemptNumber : Nat} {inputPayloadJson : String} {targetExecutionTime : Time}
    (found : messages[state.received]? = some (.executionReady jobId other jobTypeId attemptNumber
      inputPayloadJson targetExecutionTime)) :
    Reaches Handshake.step Handshake.Fresh (state.handshake entry messages id)
      (handshake ({ state with received := state.received + 1 }.handle queues
        (offersOf (messages.take (state.received + 1))) (.executionReady jobId other jobTypeId
          attemptNumber inputPayloadJson targetExecutionTime)) entry messages id) := by
  have waiting := drop_received found
  have received := offersOf_received found
  by_cases same : other = id
  · subst same
    refine .single .receive (Handshake.fresh_of_ne (by simp)) ?_
    unfold handle
    dsimp only
    split
    · rename_i active added
      obtain ⟨absent, present⟩ := ActiveExecutions.add_eq_some added
      simp [Handshake.step, Handshake.handleNotice, handshake, waiting, noticeOf, absent, present,
        received, ServerMessage.offered?, ActiveExecution.run, RunStage.phase]
    · rename_i refused
      obtain ⟨run, present⟩ := ActiveExecutions.add_eq_none_iff.mp refused
      simp [Handshake.step, Handshake.handleNotice, handshake, send, waiting, noticeOf, present,
        received, ServerMessage.offered?, answerOf, answer?]
  · have unchanged : handshake ({ state with received := state.received + 1 }.handle queues
        (offersOf (messages.take (state.received + 1))) (.executionReady jobId other jobTypeId
          attemptNumber inputPayloadJson targetExecutionTime)) entry messages id =
        state.handshake entry messages id := by
      unfold handle
      dsimp only
      split
      · rename_i active added
        obtain ⟨_, present⟩ := ActiveExecutions.add_eq_some added
        simp [handshake, waiting, noticeOf, present, received, ServerMessage.offered?, same]
      · simp [handshake, send, waiting, noticeOf, received, ServerMessage.offered?, answerOf,
          answer?, same]
    rw [unchanged]
    exact .refl

/-- The run of the execution is cancelled, if there is one. -/
theorem cancelled_handshake {other : ExecutionId}
    (found : messages[state.received]? = some (.executionCancelled other)) :
    Reaches Handshake.step Handshake.Fresh (state.handshake entry messages id)
      (handshake ({ state with received := state.received + 1 }.handle queues
        (offersOf (messages.take (state.received + 1))) (.executionCancelled other))
        entry messages id) := by
  have waiting := drop_received found
  have received := offersOf_received found
  have cancelled := state.activeExecutions.update_find? other
    (fun execution => { execution with cancelled := true }) (fun _ => rfl) id
  by_cases same : other = id
  · subst same
    refine .single .receive (Handshake.fresh_of_ne (by simp)) ?_
    rw [if_pos rfl] at cancelled
    simp [Handshake.step, Handshake.handleNotice, handle, handshake, waiting, noticeOf, received,
      ServerMessage.offered?, ActiveExecutions.cancel, cancelled, Function.comp_def,
      ActiveExecution.run]
  · rw [if_neg (Ne.symm same)] at cancelled
    have unchanged : handshake ({ state with received := state.received + 1 }.handle queues
        (offersOf (messages.take (state.received + 1))) (.executionCancelled other))
        entry messages id = state.handshake entry messages id := by
      simp [handle, handshake, waiting, noticeOf, received, ServerMessage.offered?,
        ActiveExecutions.cancel, cancelled, same]
    rw [unchanged]
    exact .refl

/-- A message of the server is a notice about one execution at most. -/
theorem handle_handshake {message : ServerMessage}
    (found : messages[state.received]? = some message) :
    Reaches Handshake.step Handshake.Fresh (state.handshake entry messages id)
      (handshake ({ state with received := state.received + 1 }.handle queues
        (offersOf (messages.take (state.received + 1))) message) entry messages id) := by
  cases message with
  | properties executorId =>
      rw [properties_handshake found]
      exact .refl
  | executionReady => exact ready_handshake found
  | executionCancelled => exact cancelled_handshake found

theorem send_handshake {message : ExecutorMessage} (about : answer? message = none) (offer : Nat) :
    (state.send message offer).handshake entry messages id = state.handshake entry messages id := by
  have unnamed : answerOf id ⟨message, offer⟩ = none := answerOf_of_none about
  simp [handshake, send, unnamed]

/-- An execution goes on. -/
theorem progress_handshake {run : ActiveExecution} {next : (RunStage × Bool) × Option ExecutorMessage}
    (found : state.activeExecutions.find? run.executionId = some run)
    (cases : (next.1.1.phase = run.stage.phase ∧ next.2 = none) ∨
      ∃ progress answer, run.run.next progress = some (next.1.1.phase, answer) ∧
        next.2.map answer? = answer.map fun answer => some (run.executionId, answer)) :
    Reaches Handshake.step Handshake.Fresh (state.handshake entry messages id)
      (handshake { state with
        activeExecutions := state.activeExecutions.progress run.executionId next.1
        outgoing := state.outgoing ++ next.2.toList.map fun message => ⟨message, run.offer⟩ }
        entry messages id) := by
  have progressed := state.activeExecutions.update_find? run.executionId
    (fun execution => { execution with stage := next.1.1, slot := next.1.2 }) (fun _ => rfl) id
  rw [found] at progressed
  obtain ⟨⟨stage, slot⟩, sent⟩ := next
  by_cases same : id = run.executionId
  · subst same
    rw [if_pos rfl] at progressed
    rcases cases with ⟨phase, none⟩ | ⟨progress, answer, next, answers⟩
    · have unchanged : handshake { state with
          activeExecutions := state.activeExecutions.progress run.executionId (stage, slot)
          outgoing := state.outgoing ++ sent.toList.map fun message => ⟨message, run.offer⟩ }
          entry messages run.executionId = state.handshake entry messages run.executionId := by
        dsimp only at phase none
        simp [handshake, ActiveExecutions.progress, progressed, found, ActiveExecution.run, phase,
          none]
      rw [unchanged]
      exact .refl
    · refine .single (.progress progress) (Handshake.fresh_of_ne (by simp)) ?_
      have answered := filterMap_answerOf answers run.offer run.executionId
      rw [if_pos rfl] at answered
      have current : (state.handshake entry messages run.executionId).run = some run.run := by
        rw [handshake, found]
        rfl
      simp only [Handshake.step, current, next, Option.map_some]
      simp [handshake, ActiveExecutions.progress, progressed, answered, ActiveExecution.run]
  · rw [if_neg same] at progressed
    have answered : (sent.toList.map fun message => SentMessage.mk message run.offer).filterMap
        (answerOf id) = [] := by
      rcases cases with ⟨_, none⟩ | ⟨_, answer, _, answers⟩
      · dsimp only at none
        simp [none]
      · rw [filterMap_answerOf answers, if_neg (Ne.symm same)]
    have unchanged : handshake { state with
        activeExecutions := state.activeExecutions.progress run.executionId (stage, slot)
        outgoing := state.outgoing ++ sent.toList.map fun message => ⟨message, run.offer⟩ }
        entry messages id = state.handshake entry messages id := by
      simp [handshake, ActiveExecutions.progress, progressed, answered]
    rw [unchanged]
    exact .refl

/-- What a step of the executor does. -/
theorem step_cases {move : ExecutorMove} (taken : state.step queues messages move = some after) :
    (∃ message, messages[state.received]? = some message ∧
      after = { state with received := state.received + 1 }.handle queues
        (offersOf (messages.take (state.received + 1))) message) ∨
    after = state.send .heartbeat 0 ∨
    (∃ run move next, state.activeExecutions.find? run.executionId = some run ∧
      state.runMove queues run move = some next ∧
      after = { state with
        activeExecutions := state.activeExecutions.progress run.executionId next.1
        outgoing := state.outgoing ++ next.2.toList.map fun message => ⟨message, run.offer⟩ }) ∨
    ∃ run, state.activeExecutions.find? run.executionId = some run ∧ run.stage = .returning ∧
      after = { state with activeExecutions := state.activeExecutions.remove run.executionId } := by
  cases move with
  | receive =>
      obtain ⟨message, found, rfl⟩ := Option.map_eq_some_iff.mp taken
      exact .inl ⟨message, found, rfl⟩
  | heartbeat =>
      simp only [step] at taken
      split at taken
      · cases taken
        exact .inr (.inl rfl)
      · cases taken
  | run id move =>
      simp only [step] at taken
      split at taken
      · cases taken
      · rename_i run found
        obtain ⟨next, moved, rfl⟩ := Option.map_eq_some_iff.mp taken
        obtain rfl := ((state.activeExecutions.find?_eq_some_iff _ _).mp found).2
        exact .inr (.inr (.inl ⟨run, move, next, found, moved, rfl⟩))
  | remove id =>
      simp only [step] at taken
      split at taken
      · cases taken
      · rename_i run found
        obtain rfl := ((state.activeExecutions.find?_eq_some_iff _ _).mp found).2
        split at taken
        · rename_i done
          cases taken
          exact .inr (.inr (.inr ⟨run, found, done.1, rfl⟩))
        · cases taken

/-- A step of the executor is one of the handshake, or none. -/
theorem step_handshake {move : ExecutorMove}
    (taken : state.step queues messages move = some after) :
    Reaches Handshake.step Handshake.Fresh (state.handshake entry messages id)
      (after.handshake entry messages id) := by
  rcases step_cases taken with ⟨message, found, rfl⟩ | rfl | ⟨run, move, next, found, moved, rfl⟩ |
    ⟨run, found, done, rfl⟩
  · exact handle_handshake found
  · rw [send_handshake rfl]
    exact .refl
  · exact progress_handshake found (runMove_cases moved)
  · have removed := state.activeExecutions.remove_find? run.executionId id
    by_cases same : id = run.executionId
    · subst same
      rw [if_pos rfl] at removed
      refine .single .remove (Handshake.fresh_of_ne (by simp)) ?_
      simp [Handshake.step, handshake, found, removed, ActiveExecution.run, done, RunStage.phase]
    · rw [if_neg same] at removed
      have unchanged : handshake { state with
          activeExecutions := state.activeExecutions.remove run.executionId } entry messages id =
            state.handshake entry messages id := by
        simp [handshake, removed]
      rw [unchanged]
      exact .refl

theorem handle_received (offer : ExecutionId → Nat) (message : ServerMessage) :
    (state.handle queues offer message).received = state.received := by
  cases message with
  | properties | executionCancelled => rfl
  | executionReady =>
      unfold handle
      dsimp only
      split <;> rfl

/-- Only messages that were sent are received. -/
theorem step_received {move : ExecutorMove} (taken : state.step queues messages move = some after)
    (known : state.received ≤ messages.length) : after.received ≤ messages.length := by
  rcases step_cases taken with ⟨message, found, rfl⟩ | rfl | ⟨_, _, _, _, _, rfl⟩ | ⟨_, _, _, rfl⟩
  · obtain ⟨bound, _⟩ := List.getElem?_eq_some_iff.mp found
    rw [handle_received]
    exact bound
  · exact known
  · exact known
  · exact known

/-- The message does not say that offers are accepted without an answer. -/
def Answers (sent : SentMessage) : Prop :=
  ∀ executionHandshake jobQueues,
    sent.message = .capabilities executionHandshake jobQueues → executionHandshake = true

theorem send_answers {message : ExecutorMessage} {offer : Nat} (last : Answers ⟨message, offer⟩)
    (answers : ∀ sent ∈ state.outgoing, Answers sent) :
    ∀ sent ∈ (state.send message offer).outgoing, Answers sent := by
  intro sent member
  rcases List.mem_append.mp member with old | new
  · exact answers sent old
  · rw [List.mem_singleton.mp new]
    exact last

theorem step_answers {move : ExecutorMove} (taken : state.step queues messages move = some after)
    (answers : ∀ sent ∈ state.outgoing, Answers sent) : ∀ sent ∈ after.outgoing, Answers sent := by
  rcases step_cases taken with ⟨message, _, rfl⟩ | rfl | ⟨run, move, next, _, moved, rfl⟩ |
    ⟨_, _, _, rfl⟩
  · cases message with
    | properties executorId =>
        refine send_answers ?_ answers
        rintro _ _ ⟨⟩
        rfl
    | executionReady =>
        unfold handle
        dsimp only
        split
        · exact answers
        · exact send_answers (fun _ _ impossible => by cases impossible) answers
    | executionCancelled => exact answers
  · exact send_answers (fun _ _ impossible => by cases impossible) answers
  · intro sent member executionHandshake jobQueues isCapabilities
    rcases List.mem_append.mp member with old | new
    · exact answers sent old _ _ isCapabilities
    · obtain ⟨message, listed, rfl⟩ := List.mem_map.mp new
      rw [Option.mem_toList] at listed
      rcases runMove_cases moved with ⟨_, none⟩ | ⟨_, answer, _, about⟩
      · rw [none] at listed
        cases listed
      · rw [listed] at about
        dsimp only at isCapabilities
        rw [isCapabilities] at about
        cases answer <;> cases about
  · exact answers

end ExecutorLoop

end Ora.Executor
