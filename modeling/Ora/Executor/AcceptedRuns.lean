import Ora.Executor.Connection
import Ora.Server.Steps

/-!
# Accepted executions are running

The steps of a connection are steps of the handshake of every execution, so an
execution that the executor accepted is running while no message about it is on
its way, unless an earlier acceptance was taken for one of its latest offer.
-/

namespace Ora.Executor

open Ora.Backend
open Ora.Library
open Ora.Server (Action ServerMessage ExecutorMessage ServerState ExecutorPool messagesTo)
open Ora.Server.ExecutorPool (Withdraws Accepts Offers Handshaking)

/-- The handshake of an execution between the pool and an executor. -/
def handshakeWith (executorId : ExecutorId) (pool : ExecutorPool) (executor : ExecutorLoop)
    (id : ExecutionId) : Handshake :=
  executor.handshake (pool.entry executorId id) (messagesTo pool.history executorId) id

/-- What the pool does is what the servers of handshakes do. -/
structure Follows (executorId : ExecutorId) (pool after : ExecutorPool) : Prop where
  sent : ∃ more, messagesTo after.history executorId =
    messagesTo pool.history executorId ++ more
  steps : ∀ (executor : ExecutorLoop) id,
    executor.received ≤ (messagesTo pool.history executorId).length →
      Reaches Handshake.step Handshake.Fresh (handshakeWith executorId pool executor id)
        (handshakeWith executorId after executor id)

section Pool

variable {executorId : ExecutorId} {pool middle after : ExecutorPool} {executor : ExecutorLoop}
  {id : ExecutionId}

/-- What is sent is on its way to the executor. -/
theorem handshakeWith_sent {more : List ServerMessage}
    (received : executor.received ≤ (messagesTo pool.history executorId).length)
    (sent : messagesTo after.history executorId = messagesTo pool.history executorId ++ more) :
    handshakeWith executorId after executor id =
      { handshakeWith executorId pool executor id with
        entry := after.entry executorId id
        toWorker := (handshakeWith executorId pool executor id).toWorker ++
          more.filterMap (noticeOf id) } := by
  simp only [handshakeWith, ExecutorLoop.handshake, sent, List.drop_append_of_le_length received,
    List.take_append_of_le_length received, List.filterMap_append]

theorem handshakeWith_same
    (entry : after.entry executorId id = pool.entry executorId id)
    (sent : messagesTo after.history executorId = messagesTo pool.history executorId) :
    handshakeWith executorId after executor id = handshakeWith executorId pool executor id := by
  rw [handshakeWith, entry, sent]
  rfl

theorem noticesOf_cancelled (ids : List ExecutionId) (id : ExecutionId) :
    (ids.map ServerMessage.executionCancelled).filterMap (noticeOf id) =
      List.replicate (ids.count id) .cancelled := by
  induction ids with
  | nil => rfl
  | cons other rest ih =>
      by_cases same : other = id
      · subst same
        rw [List.map_cons, List.filterMap_cons, noticeOf, if_pos rfl, ih, List.count_cons_self,
          List.replicate_succ]
      · rw [List.map_cons, List.filterMap_cons, noticeOf, if_neg same, ih,
          List.count_cons_of_ne same]

theorem withdrawn_handshake (executor : ExecutorLoop) (id : ExecutionId)
    (withdraws : Withdraws executorId pool after)
    (unique : pool.heldIds.Nodup) (uniqueAfter : after.heldIds.Nodup)
    (received : executor.received ≤ (messagesTo pool.history executorId).length) :
    ∃ count, handshakeWith executorId after executor id =
        { handshakeWith executorId pool executor id with
          entry := after.entry executorId id
          toWorker := (handshakeWith executorId pool executor id).toWorker ++
            List.replicate count .cancelled } ∧
      (after.entry executorId id ≠ .free →
        count = 0 ∧ after.entry executorId id = pool.entry executorId id) := by
  obtain ⟨ids, sent, unheld⟩ := withdraws.sent
  refine ⟨ids.count id, ?_, fun held => ⟨?_, ?_⟩⟩
  · rw [handshakeWith_sent received sent, noticesOf_cancelled]
  · rw [List.count_eq_zero]
    intro cancelled
    exact held (ExecutorPool.entry_eq_free_iff.mpr (unheld id cancelled))
  · exact (ExecutorPool.entry_of_held unique uniqueAfter withdraws.held).resolve_right held

namespace Follows

theorem of_same (entry : ∀ id, after.entry executorId id = pool.entry executorId id)
    (sent : messagesTo after.history executorId = messagesTo pool.history executorId) :
    Follows executorId pool after where
  sent := ⟨[], by rw [sent, List.append_nil]⟩
  steps executor id _ := by
    rw [handshakeWith_same (entry id) sent]
    exact .refl

theorem refl (pool : ExecutorPool) : Follows executorId pool pool := of_same (fun _ => rfl) rfl

theorem trans (first : Follows executorId pool middle) (second : Follows executorId middle after) :
    Follows executorId pool after where
  sent := by
    obtain ⟨more, sent⟩ := first.sent
    obtain ⟨later, again⟩ := second.sent
    exact ⟨more ++ later, by rw [again, sent, List.append_assoc]⟩
  steps executor id received := by
    obtain ⟨more, sent⟩ := first.sent
    refine (first.steps executor id received).trans (second.steps executor id ?_)
    rw [sent, List.length_append]
    exact Nat.le_add_right_of_le received

theorem of_withdraws (withdraws : Withdraws executorId pool after) (unique : pool.heldIds.Nodup)
    (uniqueAfter : after.heldIds.Nodup) : Follows executorId pool after where
  sent := ⟨_, withdraws.sent.choose_spec.1⟩
  steps executor id received := by
    obtain ⟨count, same, held⟩ :=
      withdrawn_handshake executor id withdraws unique uniqueAfter received
    rw [same]
    by_cases free : after.entry executorId id = .free
    · rw [free]
      exact (handshakeWith executorId pool executor id).reaches_withdrawn count
    · obtain ⟨rfl, entry⟩ := held free
      rw [entry, List.replicate_zero, List.append_nil]
      exact .refl

/-- An offer to the executor is an offer of one handshake. -/
theorem of_offers {other : ExecutorId} {execution : Server.ExecutorExecution}
    (offers : Offers other execution pool after) (unique : pool.heldIds.Nodup)
    (uniqueAfter : after.heldIds.Nodup) (unheld : execution.executionId ∉ pool.heldIds) :
    Follows executorId pool after := by
  obtain ⟨inputPayloadJson, targetExecutionTime, history⟩ := offers.history
  let ready : ServerMessage := .executionReady execution.jobId execution.executionId
    execution.jobTypeId execution.attemptNumber inputPayloadJson targetExecutionTime
  by_cases own : other = executorId
  · subst own
    have sent : messagesTo after.history other = messagesTo pool.history other ++ [ready] := by
      rw [history, messagesTo, List.filterMap_append]
      congr 1
      simp [Server.PoolEvent.sentTo, ready]
    refine ⟨⟨_, sent⟩, fun executor id received => ?_⟩
    rw [handshakeWith_sent received sent]
    by_cases same : execution.executionId = id
    · subst same
      have free : pool.entry other execution.executionId = .free :=
        ExecutorPool.entry_eq_free_iff.mpr fun held member same =>
          unheld (same ▸ ExecutorPool.mem_heldIds member)
      refine .single .offer (Handshake.fresh_of_ne (by simp)) ?_
      rw [offers.entry_offered uniqueAfter]
      have entry : (handshakeWith other pool executor execution.executionId).entry = .free := free
      simp [Handshake.step, entry, ready, noticeOf]
    · have nothing : [ready].filterMap (noticeOf id) = [] := by simp [ready, noticeOf, same]
      rw [offers.entry_other unique uniqueAfter fun _ => same, nothing, List.append_nil]
      exact .refl
  · refine of_same (fun id => offers.entry_other unique uniqueAfter fun same => absurd same own) ?_
    rw [history, messagesTo, List.filterMap_append]
    simp [Server.PoolEvent.sentTo, own, messagesTo]

/-- Another executor accepts its own offers. -/
theorem of_accepts {other : ExecutorId} {execution : Server.ExecutorExecution}
    (accepts : Accepts other execution pool after) (unique : pool.heldIds.Nodup)
    (different : other ≠ executorId) : Follows executorId pool after :=
  of_same (fun _ => accepts.entry_other unique fun same => absurd same different) accepts.unsent

theorem of_addExecutor (other : ExecutorId) :
    Follows executorId pool (pool.addExecutor other) := by
  have held : (pool.addExecutor other).held = pool.held := by
    simp [ExecutorPool.held, ExecutorPool.addExecutor, ExecutorPool.send_executors,
      Server.Executor.held, Server.Executor.executions]
  have history : (pool.addExecutor other).history =
      pool.history ++ [.sent other (.properties other)] := rfl
  obtain ⟨more, sent, notices⟩ : ∃ more, messagesTo (pool.addExecutor other).history executorId =
      messagesTo pool.history executorId ++ more ∧
        ∀ id, more.filterMap (noticeOf id) = [] := by
    by_cases own : other = executorId
    · refine ⟨[.properties other], ?_, fun id => rfl⟩
      rw [history, messagesTo, List.filterMap_append]
      simp [Server.PoolEvent.sentTo, own, messagesTo]
    · refine ⟨[], ?_, fun id => rfl⟩
      rw [history, messagesTo, List.filterMap_append]
      simp [Server.PoolEvent.sentTo, own, messagesTo]
  refine ⟨⟨more, sent⟩, fun executor id received => ?_⟩
  rw [handshakeWith_sent received sent, notices, List.append_nil]
  have entry : (pool.addExecutor other).entry executorId id = pool.entry executorId id := by
    rw [ExecutorPool.entry, held, ExecutorPool.entry]
  rw [entry]
  exact .refl

end Follows

end Pool

section Server

variable {executorId : ExecutorId} {server after : ServerState}

/-- Offers of a batch are followed one by one. -/
theorem tryOffer_follows {ignored : List ExecutionId} {fetchedAt : Server.Instant}
    {batch : List ReadyExecution} (systemNow : Time) (pick : ExecutionId → Nat)
    (inv : server.offerInvariant) (handshaking : Handshaking server.pool executorId)
    (current : server.ready = .offering ignored fetchedAt batch) :
    Handshaking (server.pool.tryOffer server.now systemNow pick batch fetchedAt).1 executorId ∧
      Follows executorId server.pool
        (server.pool.tryOffer server.now systemNow pick batch fetchedAt).1 := by
  have inv : Server.OfferInvariant server.store server.now server.nextExecutor server.pool
    server.ready server.starts := inv
  rw [current] at inv
  unfold ExecutorPool.tryOffer
  split
  · exact ⟨handshaking, .refl _⟩
  let held := server.pool.executions.map Server.ExecutorExecution.executionId ++
    (server.pool.acceptedExecutions.retain fetchedAt).rows.map Prod.fst
  let retained : ExecutorPool := { server.pool with
    acceptedExecutions := server.pool.acceptedExecutions.retain fetchedAt }
  let P (pool : ExecutorPool) (rest : List ReadyExecution) : Prop :=
    Handshaking pool executorId ∧ Follows executorId server.pool pool ∧
      Server.OfferInvariant.Offering server.store server.now server.nextExecutor server.starts held
        pool rest
  have start : P retained batch := ⟨handshaking, .of_same (fun _ => rfl) rfl, inv.startOffering⟩
  have kept := ExecutorPool.offerAll_induction (P := P) server.now systemNow pick held ?_ ?_ batch
    start
  · exact ⟨kept.1, kept.2.1⟩
  · rintro pool execution rest ⟨handshaking, follows, offering⟩
    exact ⟨handshaking, follows, offering.skip⟩
  · rintro pool execution rest executor member ⟨handshaking, follows, offering⟩ unheld suitable
    obtain ⟨later, entry, offered, _, unqueued, _, offers, invOffered, result⟩ :=
      offering.offers member unheld suitable systemNow
    have first : Follows executorId pool offered :=
      .of_offers offers offering.inv.queues.unique invOffered.queues.unique unqueued
    refine ⟨ExecutorPool.offerTo_handshaking _ _ _ _ handshaking, follows.trans ?_, later⟩
    rcases result with ⟨_, same⟩ | ⟨unanswered, accepts⟩
    · rw [same]
      exact first
    · refine first.trans (.of_accepts accepts invOffered.queues.unique fun own => ?_)
      -- an executor that accepts at once has queues
      rcases handshaking executor member own with answers | empty
      · cases unanswered.symm.trans answers
      · rw [Server.Executor.suitable, empty, List.any_nil, Bool.and_false] at suitable
        cases suitable

/-- Steps that are not about a message of the executor are followed. -/
theorem step_follows {action : Action} (taken : server.step action = some after)
    (inv : server.offerInvariant) (handshaking : Handshaking server.pool executorId)
    (other : others executorId action = true) :
    Handshaking after.pool executorId ∧ Follows executorId server.pool after.pool := by
  have unique := inv.queues.unique
  have uniqueAfter := (ServerState.offerInvariant_step inv taken).queues.unique
  have same := ServerState.step_pool taken
  have withdrawn : Withdraws executorId server.pool after.pool →
      Follows executorId server.pool after.pool := fun withdraws =>
    .of_withdraws withdraws unique uniqueAfter
  cases action with
  | connect =>
      rw [same]
      exact ⟨ExecutorPool.addExecutor_handshaking _ handshaking, .of_addExecutor _⟩
  | message sender systemNow message =>
      have different : sender ≠ executorId := by simpa [others] using other
      refine ⟨?_, ?_⟩
      · rw [same]
        exact ExecutorPool.executorMessage_handshaking _ _ (fun own => absurd own different)
          handshaking
      · rcases ExecutorPool.executorMessage_withdraws executorId server.now systemNow
          sender message inv.queues.executorIds with withdraws | ⟨_, _, accepts⟩
        · exact withdrawn (same ▸ withdraws)
        · rw [same]
          exact .of_accepts accepts unique different
  | checkOffers id =>
      refine ⟨?_, withdrawn ?_⟩
      · rw [same]
        exact ExecutorPool.withdrawOffers_handshaking _ _ _ handshaking
      · rw [same]
        exact ExecutorPool.withdrawOffers_withdraws unique _ _ _
  | disconnect id =>
      refine ⟨?_, withdrawn ?_⟩
      · rw [same]
        exact ExecutorPool.dropExecutor_handshaking _ handshaking
      · rw [same]
        exact ExecutorPool.dropExecutor_withdraws _
  | closeOutbound id =>
      refine ⟨?_, withdrawn ?_⟩
      · rw [same]
        exact ExecutorPool.closeOutbound_handshaking _ handshaking
      · rw [same]
        exact ExecutorPool.closeOutbound_withdraws _
  | offer systemNow pick =>
      obtain ⟨_, fetchedAt, batch, current, rfl⟩ := ServerState.step_offer taken
      exact tryOffer_follows systemNow pick inv handshaking current
  | recordStarts =>
      obtain ⟨_, _, _, rfl⟩ := ServerState.step_recordStarts taken
      exact ⟨handshaking, .of_same (fun _ => rfl) rfl⟩
  | takeStarts count =>
      obtain ⟨_, rfl⟩ := ServerState.step_takeStarts taken
      exact ⟨handshaking, .of_same (fun _ => rfl) rfl⟩
  | takeEvents count systemNow invalidJson =>
      obtain ⟨_, rfl⟩ := ServerState.step_takeEvents taken
      exact ⟨handshaking, .of_same (fun _ => rfl) rfl⟩
  | forget =>
      obtain ⟨ids, _, rfl⟩ := ServerState.step_forget taken
      have nothing : (ids.map Server.PoolEvent.forgotten).filterMap
          (Server.PoolEvent.sentTo executorId) = [] := by
        rw [List.filterMap_map, List.filterMap_eq_nil_iff]
        exact fun _ _ => rfl
      refine ⟨handshaking, .of_same (fun _ => rfl) ?_⟩
      rw [ExecutorPool.acceptedExecutionsNotStarted, messagesTo, List.filterMap_append, nothing,
        List.append_nil, messagesTo]
  | _ =>
      refine ⟨?_, withdrawn ?_⟩
      · rw [same]
        exact ExecutorPool.cancelExecutionIds_handshaking _ handshaking
      · rw [same]
        exact ExecutorPool.cancelExecutionIds_withdraws unique _

end Server

section Deliveries

variable {executorId : ExecutorId} {pool after : ExecutorPool} {executor : ExecutorLoop}
  {id : ExecutionId} {sent : SentMessage} {rest : List SentMessage}

/-- A message about another execution, or about none, is not an answer. -/
theorem handshakeWith_delivered (first : executor.outgoing = sent :: rest)
    (other : answerOf id sent = none) :
    handshakeWith executorId pool { executor with outgoing := rest } id =
      handshakeWith executorId pool executor id := by
  simp only [handshakeWith, ExecutorLoop.handshake, first, List.filterMap_cons, other]

theorem handshakeWith_answered {answer : HandshakeAnswer} (first : executor.outgoing = sent :: rest)
    (about : answer? sent.message = some (id, answer)) :
    handshakeWith executorId pool executor id =
      { handshakeWith executorId pool { executor with outgoing := rest } id with
        toServer := (answer, sent.offer) ::
          (handshakeWith executorId pool { executor with outgoing := rest } id).toServer } := by
  have answers := answerOf_of_answer? id about
  rw [if_pos rfl] at answers
  simp only [handshakeWith, ExecutorLoop.handshake, first, List.filterMap_cons, answers]

/-- A held execution is accepted after its acceptance or rejection, a result releases it. -/
theorem accepted_of_answer {answer : HandshakeAnswer} {message : ExecutorMessage}
    (now : Server.Instant) (systemNow : Time) (uniqueIds : pool.executorIds.Nodup)
    (unique : pool.heldIds.Nodup) (about : answer? message = some (id, answer))
    (held : (pool.executorMessage now systemNow executorId message).entry executorId id ≠ .free) :
    (pool.executorMessage now systemNow executorId message).entry executorId id = .accepted ∧
      answer ≠ .finished := by
  have unoffered : message = .executionAccepted id ∨ message = .executionRejected id →
      (pool.executorMessage now systemNow executorId message).entry executorId id = .accepted := by
    intro answered
    have entry := @ExecutorPool.executorMessage_answered pool executorId id now systemNow message
      answered uniqueIds unique
    cases other : (pool.executorMessage now systemNow executorId message).entry executorId id with
    | free => exact absurd other held
    | offered => exact absurd other entry
    | accepted => rfl
  cases message with
  | capabilities | heartbeat | malformed => cases about
  | executionAccepted other =>
      cases about
      exact ⟨unoffered (.inl rfl), by simp⟩
  | executionRejected other =>
      cases about
      exact ⟨unoffered (.inr rfl), by simp⟩
  | executionSucceeded other timestamp outputPayloadJson =>
      cases about
      exact absurd (ExecutorPool.executorMessage_result now systemNow (.inl ⟨_, _, rfl⟩) uniqueIds
        unique) held
  | executionFailed other timestamp failureReason =>
      cases about
      exact absurd (ExecutorPool.executorMessage_result now systemNow (.inr ⟨_, _, rfl⟩) uniqueIds
        unique) held

/-- An answer is handled by its handshake, or it came too late. -/
theorem answer_delivered {answer : HandshakeAnswer} (now : Server.Instant) (systemNow : Time)
    (uniqueIds : pool.executorIds.Nodup) (unique : pool.heldIds.Nodup)
    (uniqueAfter : (pool.executorMessage now systemNow executorId sent.message).heldIds.Nodup)
    (received : executor.received ≤ (messagesTo pool.history executorId).length)
    (first : executor.outgoing = sent :: rest) (about : answer? sent.message = some (id, answer))
    (current : answer = .accepted → pool.entry executorId id = .offered →
      sent.offer = offersOf (messagesTo pool.history executorId) id) :
    Reaches Handshake.step Handshake.Fresh (handshakeWith executorId pool executor id)
      (handshakeWith executorId (pool.executorMessage now systemNow executorId sent.message)
        { executor with outgoing := rest } id) := by
  have fresh : (handshakeWith executorId pool executor id).Fresh .answer := by
    intro _ offered offer head
    rw [handshakeWith_answered first about] at head
    cases head
    rw [handshakeWith, ExecutorLoop.handshake_latest]
    exact current rfl offered
  let state := handshakeWith executorId pool { executor with outgoing := rest } id
  rcases ExecutorPool.executorMessage_withdraws executorId now systemNow executorId sent.message
    uniqueIds with withdraws | ⟨execution, accepted, accepts⟩
  · obtain ⟨count, same, held⟩ := withdrawn_handshake { executor with outgoing := rest } id
      withdraws unique uniqueAfter received
    rw [same]
    by_cases free : (pool.executorMessage now systemNow executorId sent.message).entry
        executorId id = .free
    · rw [free, handshakeWith_answered first about]
      have ignored : Reaches Handshake.step Handshake.Fresh
          { state with toServer := (answer, sent.offer) :: state.toServer }
          { state with entry := .free } :=
        .single .ignore (Handshake.fresh_of_ne (by simp)) rfl
      exact ignored.trans (Handshake.reaches_withdrawn { state with entry := .free } count)
    · obtain ⟨isAccepted, unfinished⟩ :=
        accepted_of_answer now systemNow uniqueIds unique about free
      obtain ⟨rfl, kept⟩ := held free
      refine .single .answer fresh ?_
      have entry : state.entry = .accepted := kept.symm.trans isAccepted
      rw [handshakeWith_answered first about, kept, List.replicate_zero, List.append_nil]
      exact congrArg some (Handshake.handle_of_accepted entry unfinished)
  · have same := about
    rw [accepted] at same
    cases same
    refine .single .answer fresh ?_
    have entry : state.entry = .offered := accepts.entry_offered unique
    have result : handshakeWith executorId
        (pool.executorMessage now systemNow executorId sent.message)
        { executor with outgoing := rest } execution.executionId =
          { state with entry := .accepted } := by
      rw [handshakeWith, accepts.entry_accepted unique, accepts.unsent]
      rfl
    rw [handshakeWith_answered first about, result]
    exact congrArg some (Handshake.handle_of_offered entry)

/-- A message that is no answer for the handshake changes the pool only. -/
theorem other_delivered (now : Server.Instant) (systemNow : Time)
    (uniqueIds : pool.executorIds.Nodup) (unique : pool.heldIds.Nodup)
    (uniqueAfter : (pool.executorMessage now systemNow executorId sent.message).heldIds.Nodup)
    (received : executor.received ≤ (messagesTo pool.history executorId).length)
    (first : executor.outgoing = sent :: rest) (other : answerOf id sent = none) :
    Reaches Handshake.step Handshake.Fresh (handshakeWith executorId pool executor id)
      (handshakeWith executorId (pool.executorMessage now systemNow executorId sent.message)
        { executor with outgoing := rest } id) := by
  rw [← handshakeWith_delivered first other]
  rcases ExecutorPool.executorMessage_withdraws executorId now systemNow executorId sent.message
    uniqueIds with withdraws | ⟨execution, accepted, accepts⟩
  · exact (Follows.of_withdraws withdraws unique uniqueAfter).steps _ id received
  · have different : execution.executionId ≠ id := by
      rintro rfl
      have about : answer? sent.message = some (execution.executionId, .accepted) := by
        rw [accepted]
        rfl
      rw [answerOf_of_answer? _ about, if_pos rfl] at other
      cases other
    rw [handshakeWith_same (accepts.entry_other unique fun _ => different) accepts.unsent]
    exact .refl

/-- A delivery is a step of the handshake that the message is about, if any. -/
theorem delivered (now : Server.Instant) (systemNow : Time)
    (uniqueIds : pool.executorIds.Nodup) (unique : pool.heldIds.Nodup)
    (uniqueAfter : (pool.executorMessage now systemNow executorId sent.message).heldIds.Nodup)
    (received : executor.received ≤ (messagesTo pool.history executorId).length)
    (first : executor.outgoing = sent :: rest)
    (current : ∀ id, sent.message = .executionAccepted id → pool.entry executorId id = .offered →
      sent.offer = offersOf (messagesTo pool.history executorId) id) :
    Reaches Handshake.step Handshake.Fresh (handshakeWith executorId pool executor id)
      (handshakeWith executorId (pool.executorMessage now systemNow executorId sent.message)
        { executor with outgoing := rest } id) := by
  cases about : answer? sent.message with
  | none =>
      exact other_delivered now systemNow uniqueIds unique uniqueAfter received first
        (answerOf_of_none about)
  | some named =>
      obtain ⟨other, answer⟩ := named
      by_cases same : other = id
      · subst same
        refine answer_delivered now systemNow uniqueIds unique uniqueAfter received first about ?_
        rintro rfl
        exact current other (message_of_answer? about)
      · refine other_delivered now systemNow uniqueIds unique uniqueAfter received first ?_
        rw [answerOf_of_answer? _ about, if_neg same]

theorem executorMessage_sent (now : Server.Instant) (systemNow : Time)
    (uniqueIds : pool.executorIds.Nodup) :
    ∃ more, messagesTo
      (pool.executorMessage now systemNow executorId sent.message).history executorId =
        messagesTo pool.history executorId ++ more := by
  rcases ExecutorPool.executorMessage_withdraws executorId now systemNow executorId sent.message
    uniqueIds with withdraws | ⟨_, _, accepts⟩
  · obtain ⟨ids, sent, _⟩ := withdraws.sent
    exact ⟨_, sent⟩
  · exact ⟨[], by rw [accepts.unsent, List.append_nil]⟩

end Deliveries

namespace Connection

variable {executorId : ExecutorId} {queues : List ExecutorJobQueue}
  {connection after : Connection} {action : ConnectionAction}

structure Invariant (executorId : ExecutorId) (connection : Connection) : Prop where
  server : connection.server.offerInvariant
  handshaking : Handshaking connection.server.pool executorId
  received : connection.executor.received ≤ (connection.messages executorId).length
  answers : ∀ sent ∈ connection.executor.outgoing, ExecutorLoop.Answers sent
  sound : ∀ id,
    (handshakeWith executorId connection.server.pool connection.executor id).Sound

theorem invariant_initial : initial.Invariant executorId where
  server := ServerState.offerInvariant_initial
  handshaking := by simp [Handshaking, initial, ServerState.initial, ExecutorPool.empty]
  received := Nat.le_refl _
  answers := by simp [initial, ExecutorLoop.initial]
  sound _ := Handshake.sound_initial

theorem sound_of_reaches {state later : Handshake}
    (steps : Reaches Handshake.step Handshake.Fresh state later) (sound : state.Sound) :
    later.Sound :=
  steps.invariant (fun _ _ _ sound fresh taken => sound.step fresh taken) sound

theorem Invariant.step (inv : connection.Invariant executorId)
    (current : connection.deliversCurrent executorId action = true)
    (taken : connection.step executorId queues action = some after) :
    after.Invariant executorId := by
  cases action with
  | server action =>
      simp only [Connection.step] at taken
      split at taken
      · rename_i other
        obtain ⟨server, stepped, rfl⟩ := Option.map_eq_some_iff.mp taken
        obtain ⟨handshaking, follows⟩ := step_follows stepped inv.server inv.handshaking other
        obtain ⟨more, sent⟩ := follows.sent
        refine ⟨ServerState.offerInvariant_step inv.server stepped, handshaking, ?_,
          inv.answers, ?_⟩
        · rw [messages, sent, List.length_append]
          exact Nat.le_add_right_of_le inv.received
        · exact fun id => sound_of_reaches (follows.steps _ id inv.received) (inv.sound id)
      · cases taken
  | deliver systemNow =>
      simp only [Connection.step] at taken
      split at taken
      · cases taken
      · rename_i sent rest first
        obtain ⟨server, stepped, rfl⟩ := Option.map_eq_some_iff.mp taken
        have invAfter := ServerState.offerInvariant_step inv.server stepped
        cases stepped
        have unique := inv.server.queues.unique
        have uniqueIds := inv.server.queues.executorIds
        refine ⟨invAfter, ?_, ?_, ?_, fun id => sound_of_reaches ?_ (inv.sound id)⟩
        · exact ExecutorPool.executorMessage_handshaking _ _
            (fun _ => inv.answers sent (first ▸ List.mem_cons_self ..)) inv.handshaking
        · obtain ⟨more, extended⟩ :=
            @executorMessage_sent executorId connection.server.pool sent connection.server.now
              systemNow uniqueIds
          rw [messages, extended, List.length_append]
          exact Nat.le_add_right_of_le inv.received
        · exact fun other member => inv.answers other (first ▸ List.mem_cons_of_mem _ member)
        · refine delivered _ _ uniqueIds unique invAfter.queues.unique inv.received first ?_
          intro id accepted offered
          rw [deliversCurrent, first, List.head?_cons, Option.all_some, Connection.current,
            accepted] at current
          have newest : sent.offer = offersOf (connection.messages executorId) id := by
            simpa [offered] using current
          exact newest
  | executor move =>
      obtain ⟨executor, stepped, rfl⟩ := Option.map_eq_some_iff.mp taken
      exact ⟨inv.server, inv.handshaking, ExecutorLoop.step_received stepped inv.received,
        ExecutorLoop.step_answers stepped inv.answers,
        fun id => sound_of_reaches (ExecutorLoop.step_handshake stepped) (inv.sound id)⟩

/-- No message about an execution is on its way, in either direction. -/
def Quiet (executorId : ExecutorId) (id : ExecutionId) (connection : Connection) : Prop :=
  (∀ message ∈ connection.incoming executorId, noticeOf id message = none) ∧
    ∀ sent ∈ connection.executor.outgoing, answerOf id sent = none

end Connection

/-- An execution that the executor accepted is running there and was not
cancelled, once no message about it is on its way. -/
theorem accepted_runs {executorId : ExecutorId} {queues : List ExecutorJobQueue}
    {connection : Connection}
    (run : Reaches (Connection.step executorId queues)
      (fun connection action => connection.deliversCurrent executorId action = true) .initial
      connection)
    {execution : Server.ExecutorExecution}
    (held : (executorId, execution) ∈ connection.server.pool.held)
    (accepted : execution.isAccepted = true)
    (quiet : connection.Quiet executorId execution.executionId) :
    ∃ active ∈ connection.executor.activeExecutions.rows,
      active.executionId = execution.executionId ∧ active.stage = .running ∧
        active.cancelled = false := by
  have inv := run.invariant (fun _ _ _ inv current taken => inv.step current taken)
    Connection.invariant_initial
  have entry : connection.server.pool.entry executorId execution.executionId = .accepted := by
    rw [ExecutorPool.entry_of_mem inv.server.queues.unique held, if_pos accepted]
  have unanswered : (handshakeWith executorId connection.server.pool connection.executor
      execution.executionId).toServer = [] := List.filterMap_eq_nil_iff.mpr quiet.2
  obtain ⟨run, started, running, uncancelled⟩ :=
    (inv.sound execution.executionId).run_of_accepted entry unanswered
  obtain ⟨active, found, rfl⟩ := Option.map_eq_some_iff.mp started
  obtain ⟨member, same⟩ :=
    (connection.executor.activeExecutions.find?_eq_some_iff _ _).mp found
  refine ⟨active, member, same, ?_, uncancelled⟩
  cases stage : active.stage <;> simp [ActiveExecution.run, RunStage.phase, stage] at running ⊢

/-- A job is offered to an executor, which admits it and sends that it accepts. -/
def admitted : List ConnectionAction :=
  [.server (.addJobs 0 (fun _ => 0) [Postgres.plainJob 2] none), .server .connect,
    .executor .receive, .deliver 0, .server .startPass, .server .readClock,
    .server (.fetchReady 0), .server (.offer 0 fun _ => 0), .server .checkCapacity,
    .executor .receive, .executor (.run 1 (.start 0)), .executor (.run 1 (.admission true))]

/-- The first execution is accepted and no message is on its way. -/
def Connection.settled (connection : Connection) : Bool :=
  (connection.server.pool.held.any fun held =>
      held.1 == 0 && held.2.executionId == 1 && held.2.isAccepted) &&
    (connection.incoming 0).isEmpty && connection.executor.outgoing.isEmpty

theorem Connection.exists_of_settled {connection : Connection} (settled : connection.settled = true) :
    ∃ execution, (0, execution) ∈ connection.server.pool.held ∧ execution.isAccepted = true ∧
      execution.executionId = 1 ∧ connection.Quiet 0 execution.executionId := by
  simp only [Connection.settled, Bool.and_eq_true, List.any_eq_true, List.isEmpty_iff,
    beq_iff_eq] at settled
  obtain ⟨⟨⟨⟨_, execution⟩, member, ⟨rfl, id⟩, accepted⟩, incoming⟩, outgoing⟩ := settled
  refine ⟨execution, member, accepted, id, ?_, ?_⟩
  · rw [incoming]
    simp
  · rw [outgoing]
    simp

theorem accepted_runs_admitted :
    ∃ connection execution, Reaches (Connection.step 0 [⟨"type", 1⟩])
        (fun connection action => connection.deliversCurrent 0 action = true) .initial connection ∧
      (0, execution) ∈ connection.server.pool.held ∧ execution.isAccepted = true ∧
      ∃ active ∈ connection.executor.activeExecutions.rows,
        active.executionId = execution.executionId ∧ active.stage = .running ∧
          active.cancelled = false := by
  obtain ⟨connection, run, checked⟩ := exists_reaches_of_execute (Connection.step 0 [⟨"type", 1⟩])
    (fun connection action => connection.deliversCurrent 0 action = true) .initial
    (admitted ++ [.deliver 0]) Connection.settled (by decide)
  obtain ⟨execution, held, accepted, _, quiet⟩ := Connection.exists_of_settled checked
  exact ⟨connection, execution, run, held, accepted, accepted_runs run held accepted quiet⟩

/-- The acceptance arrives after the offer expired and the execution was offered
again.  The run is cancelled by then, and the second offer is rejected. -/
def acceptedLate : List ConnectionAction :=
  admitted ++ [.server (.tick Server.offerTimeout), .server (.checkOffers 0),
    .server (.tick Server.second), .server .startPass, .server .readClock, .server (.fetchReady 0),
    .server (.offer 0 fun _ => 0), .deliver 0, .executor .receive, .executor .receive, .deliver 0,
    .executor (.run 1 .abandon), .executor (.run 1 .release), .executor (.remove 1)]

theorem acceptedLate_not_running :
    ∃ connection execution, Reaches (Connection.step 0 [⟨"type", 1⟩]) (fun _ _ => True) .initial
        connection ∧
      (0, execution) ∈ connection.server.pool.held ∧ execution.isAccepted = true ∧
      connection.Quiet 0 execution.executionId ∧
      ∀ active ∈ connection.executor.activeExecutions.rows,
        active.executionId ≠ execution.executionId := by
  obtain ⟨connection, run, checked⟩ := exists_reaches_of_execute (Connection.step 0 [⟨"type", 1⟩])
    (fun _ _ => True) .initial acceptedLate (fun connection => connection.settled &&
      connection.executor.activeExecutions.rows.isEmpty) (by decide)
  rw [Bool.and_eq_true, List.isEmpty_iff] at checked
  obtain ⟨execution, held, accepted, _, quiet⟩ := Connection.exists_of_settled checked.1
  refine ⟨connection, execution, run, held, accepted, quiet, ?_⟩
  rw [checked.2]
  simp

end Ora.Executor
