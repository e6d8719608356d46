import Ora.Library.Handshake
import Ora.Server.PoolEffects

/-!
# Withdrawals

What the changes of the pool mean for one executor: its executions leave the
queues, and it is told to cancel only what it does not hold anymore.
-/

namespace Ora.Server

open Ora.Backend
open Ora.Library

def PoolEvent.sentTo (executorId : ExecutorId) : PoolEvent → Option ServerMessage
  | .sent other message => if other = executorId then some message else none
  | _ => none

/-- What was sent to an executor, in order. -/
def messagesTo (history : List PoolEvent) (executorId : ExecutorId) : List ServerMessage :=
  history.filterMap (PoolEvent.sentTo executorId)

/-- An executor accepts nothing at once: it answers offers, or it has no queues yet. -/
def Executor.Handshaking (executor : Executor) : Prop :=
  executor.executionHandshake = true ∨ executor.jobQueues = []

namespace ExecutorPool

def Handshaking (pool : ExecutorPool) (executorId : ExecutorId) : Prop :=
  ∀ executor ∈ pool.executors, executor.id = executorId → executor.Handshaking

/-- What an executor has to do with an execution. -/
def entry (pool : ExecutorPool) (executorId : ExecutorId) (id : ExecutionId) : HandshakeEntry :=
  match pool.held.find? fun held => held.1 == executorId && held.2.executionId == id with
  | none => .free
  | some held => if held.2.isAccepted then .accepted else .offered

section Entry

variable {pool after : ExecutorPool} {executorId : ExecutorId} {id : ExecutionId}

theorem mem_heldIds {execution : ExecutorExecution} (member : (executorId, execution) ∈ pool.held) :
    execution.executionId ∈ pool.heldIds :=
  List.mem_map_of_mem (f := fun held : ExecutorId × ExecutorExecution => held.2.executionId) member

theorem entry_eq_free_iff : pool.entry executorId id = .free ↔
    ∀ execution, (executorId, execution) ∈ pool.held → execution.executionId ≠ id := by
  unfold entry
  split
  · rename_i absent
    refine iff_of_true rfl fun execution member same => ?_
    have unmatched := List.find?_eq_none.mp absent _ member
    simp [same] at unmatched
  · rename_i held found
    have matched := List.find?_some found
    simp only [Bool.and_eq_true, beq_iff_eq] at matched
    refine iff_of_false (by split <;> simp) fun every => ?_
    have member := List.mem_of_find?_eq_some found
    rw [← Prod.mk.eta (p := held), matched.1] at member
    exact every held.2 member matched.2

/-- The only execution with its identifier. -/
theorem entry_of_mem (unique : pool.heldIds.Nodup) {execution : ExecutorExecution}
    (member : (executorId, execution) ∈ pool.held) :
    pool.entry executorId execution.executionId =
      if execution.isAccepted then .accepted else .offered := by
  unfold entry
  split
  · rename_i absent
    have unmatched := List.find?_eq_none.mp absent _ member
    simp at unmatched
  · rename_i held found
    have matched := List.find?_some found
    simp only [Bool.and_eq_true, beq_iff_eq] at matched
    have same := List.inj_on_of_nodup_map unique (List.mem_of_find?_eq_some found) member matched.2
    rw [same]

/-- An entry is kept, or the execution is not held anymore. -/
theorem entry_of_held (unique : pool.heldIds.Nodup) (uniqueAfter : after.heldIds.Nodup)
    (kept : ∀ execution, (executorId, execution) ∈ after.held →
      (executorId, execution) ∈ pool.held) :
    after.entry executorId id = pool.entry executorId id ∨ after.entry executorId id = .free := by
  by_cases free : after.entry executorId id = .free
  · exact .inr free
  · rw [entry_eq_free_iff] at free
    push Not at free
    obtain ⟨execution, member, rfl⟩ := free
    exact .inl ((entry_of_mem uniqueAfter member).trans (entry_of_mem unique (kept _ member)).symm)

/-- An entry only depends on what the executor holds of the execution. -/
theorem entry_congr (unique : pool.heldIds.Nodup) (uniqueAfter : after.heldIds.Nodup)
    (same : ∀ execution, execution.executionId = id →
      ((executorId, execution) ∈ after.held ↔ (executorId, execution) ∈ pool.held)) :
    after.entry executorId id = pool.entry executorId id := by
  by_cases free : pool.entry executorId id = .free
  · rw [free]
    rw [entry_eq_free_iff] at free ⊢
    exact fun execution member own => free execution ((same execution own).mp member) own
  · rw [entry_eq_free_iff] at free
    push Not at free
    obtain ⟨execution, member, rfl⟩ := free
    rw [entry_of_mem unique member, entry_of_mem uniqueAfter ((same execution rfl).mpr member)]

section Exchanged

variable {sender : ExecutorId} {execution : ExecutorExecution}

theorem Accepts.entry_offered (accepts : Accepts sender execution pool after)
    (unique : pool.heldIds.Nodup) : pool.entry sender execution.executionId = .offered := by
  obtain ⟨rest, before, _⟩ := accepts.queues.kept
  have member := before.mem_iff.mpr (List.mem_cons_self ..)
  rw [entry_of_mem unique member, if_neg (by simp [accepts.offered])]

theorem Accepts.entry_accepted (accepts : Accepts sender execution pool after)
    (unique : pool.heldIds.Nodup) : after.entry sender execution.executionId = .accepted := by
  obtain ⟨rest, _, left⟩ := accepts.queues.kept
  have member := left.mem_iff.mpr (List.mem_cons_self ..)
  exact entry_of_mem (accepts.heldIds.nodup_iff.mpr unique) member

theorem Accepts.entry_other (accepts : Accepts sender execution pool after)
    (unique : pool.heldIds.Nodup) (other : sender = executorId → execution.executionId ≠ id) :
    after.entry executorId id = pool.entry executorId id := by
  obtain ⟨rest, before, left⟩ := accepts.queues.kept
  refine entry_congr unique (accepts.heldIds.nodup_iff.mpr unique) fun entry own => ?_
  have unlike : ∀ state, (executorId, entry) ≠ (sender, { execution with state := state }) := by
    rintro state same
    obtain ⟨rfl, rfl⟩ := Prod.mk.inj same
    exact other rfl own
  have unchanged : (executorId, entry) ≠ (sender, execution) := unlike execution.state
  rw [left.mem_iff, before.mem_iff, List.singleton_append, List.singleton_append, List.mem_cons,
    List.mem_cons, or_iff_right (unlike _), or_iff_right unchanged]

theorem Offers.entry_offered (offers : Offers sender execution pool after)
    (uniqueAfter : after.heldIds.Nodup) :
    after.entry sender execution.executionId = .offered := by
  obtain ⟨rest, _, left⟩ := offers.queues.kept
  have member := left.mem_iff.mpr (List.mem_cons_self ..)
  rw [entry_of_mem uniqueAfter member, if_neg (by simp [offers.offered])]

theorem Offers.entry_other (offers : Offers sender execution pool after)
    (unique : pool.heldIds.Nodup) (uniqueAfter : after.heldIds.Nodup)
    (other : sender = executorId → execution.executionId ≠ id) :
    after.entry executorId id = pool.entry executorId id := by
  obtain ⟨rest, before, left⟩ := offers.queues.kept
  refine entry_congr unique uniqueAfter fun entry own => ?_
  have unlike : (executorId, entry) ≠ (sender, execution) := by
    rintro same
    obtain ⟨rfl, rfl⟩ := Prod.mk.inj same
    exact other rfl own
  rw [left.mem_iff, before.mem_iff, List.singleton_append, List.nil_append, List.mem_cons,
    or_iff_right unlike]

end Exchanged

end Entry

section Handshaking

variable {pool : ExecutorPool} {executorId : ExecutorId}

theorem handshaking_of_executors {after : ExecutorPool} (same : after.executors = pool.executors)
    (handshaking : pool.Handshaking executorId) : after.Handshaking executorId := by
  rw [Handshaking, same]
  exact handshaking

theorem handshaking_modifyFirst {p : Executor → Bool} {change : Executor → Executor}
    (sameId : ∀ executor, (change executor).id = executor.id)
    (keeps : ∀ executor, executor.id = executorId → executor.Handshaking →
      (change executor).Handshaking)
    (handshaking : pool.Handshaking executorId) :
    Handshaking { pool with executors := modifyFirst p change pool.executors } executorId := by
  refine modifyFirst_forall change handshaking ?_
  intro executor member _ same
  rw [sameId] at same
  exact keeps executor same (handshaking executor member same)

/-- Only the queues change, and none are added to an executor without queues. -/
theorem handshaking_queues {p : Executor → Bool}
    {change : Executor → List ExecutorJobQueue}
    (empty : ∀ executor : Executor, executor.jobQueues = [] → change executor = [])
    (handshaking : pool.Handshaking executorId) :
    Handshaking
      { pool with
        executors := modifyFirst p
          (fun executor => { executor with jobQueues := change executor }) pool.executors }
      executorId :=
  handshaking_modifyFirst (fun _ => rfl) (fun executor _ => .imp_right (empty executor)) handshaking

theorem modifyQueue_empty {executor : Executor} {id : ExecutionId}
    {change : ExecutorJobQueue → ExecutorJobQueue} (empty : executor.jobQueues = []) :
    modifyFirst (ExecutorJobQueue.holds id) change executor.jobQueues = [] := by
  rw [empty]
  rfl

theorem dropExecutor_handshaking (id : ExecutorId) (handshaking : pool.Handshaking executorId) :
    (pool.dropExecutor id).Handshaking executorId := by
  unfold dropExecutor
  split
  · exact handshaking
  · rename_i executor found
    exact fun other member same => handshaking other
      ((swapRemove_findIdx found).mem_iff.mpr (List.mem_cons_of_mem _ member)) same

theorem closeOutbound_handshaking (id : ExecutorId) (handshaking : pool.Handshaking executorId) :
    (pool.closeOutbound id).Handshaking executorId :=
  handshaking_modifyFirst (fun _ => rfl) (fun _ _ kept => kept) handshaking

theorem cancelExecutionIds_handshaking (ids : List ExecutionId)
    (handshaking : pool.Handshaking executorId) :
    (pool.cancelExecutionIds ids).Handshaking executorId := by
  unfold cancelExecutionIds
  induction ids generalizing pool with
  | nil => exact handshaking
  | cons id rest ih =>
      refine ih ?_
      unfold cancelExecutionId
      split
      · exact handshaking
      · exact handshaking_of_executors (send_executors _ _ _)
          (handshaking_queues (fun _ => modifyQueue_empty) handshaking)

theorem withdrawOffers_handshaking (id : ExecutorId) (expiredAt : Option Instant) (now : Instant)
    (handshaking : pool.Handshaking executorId) :
    (pool.withdrawOffers id expiredAt now).Handshaking executorId := by
  unfold withdrawOffers
  split
  · exact handshaking
  · rename_i executor found
    refine handshaking_queues (fun executor empty => by rw [empty]; rfl) ?_
    exact handshaking_of_executors (sends_executors executor _ _ pool) handshaking

theorem offerTo_handshaking (now : Instant) (systemNow : Time) (executor : Executor)
    (execution : ReadyExecution) (handshaking : pool.Handshaking executorId) :
    (pool.offerTo now systemNow executor execution).Handshaking executorId := by
  have sent : (pool.send executor (.executionReady execution.jobId execution.executionId
      execution.jobTypeId execution.attemptNumber execution.inputPayloadJson
      execution.targetExecutionTime)).Handshaking executorId :=
    handshaking_of_executors (send_executors _ _ _) handshaking
  unfold offerTo
  dsimp only
  refine handshaking_queues (fun executor empty => by rw [empty]; rfl) ?_
  split
  · exact sent
  · exact sent

theorem executionAccepted_handshaking (executor : Executor) (id : ExecutionId)
    (handshaking : pool.Handshaking executorId) :
    (pool.executionAccepted executor id).Handshaking executorId := by
  unfold executionAccepted
  split
  · exact handshaking_of_executors (send_executors _ _ _) handshaking
  split
  · exact handshaking
  · have accepted : Handshaking (pool.modifyExecutor executor.id
        (Executor.modifyQueue id (ExecutorJobQueue.acceptExecution id))) executorId :=
      handshaking_queues (fun _ => modifyQueue_empty) handshaking
    exact accepted

theorem executionRejected_handshaking (now : Instant) (executor : Executor) (id : ExecutionId)
    (handshaking : pool.Handshaking executorId) :
    (pool.executionRejected now executor id).Handshaking executorId := by
  unfold executionRejected
  split
  · exact handshaking
  split
  · exact handshaking
  · exact handshaking_queues (fun _ => modifyQueue_empty) handshaking

theorem executionResult_handshaking (systemNow : Time) (executor : Executor) (id : ExecutionId)
    (timestamp : ResultTime) (event : ExecutorExecution → Time → ExecutorEvent)
    (handshaking : pool.Handshaking executorId) :
    (pool.executionResult systemNow executor id timestamp event).Handshaking executorId := by
  unfold executionResult
  split
  · exact handshaking
  have removed : Handshaking (pool.modifyExecutor executor.id
      (Executor.modifyQueue id (ExecutorJobQueue.remove id))) executorId :=
    handshaking_queues (fun _ => modifyQueue_empty) handshaking
  dsimp only
  split
  · cases timestamp with
    | absent => exact removed
    | invalid => exact dropExecutor_handshaking executor.id removed
    | «at» time => exact removed
  · exact removed

/-- Its capabilities say that it answers offers. -/
theorem capabilities_handshaking {executor : Executor} {executionHandshake : Bool}
    (own : executor.id = executorId → executionHandshake = true)
    (jobQueues : Option (List (JobTypeId × Nat))) (handshaking : pool.Handshaking executorId) :
    (pool.capabilities executor executionHandshake jobQueues).Handshaking executorId := by
  unfold capabilities
  split
  · exact dropExecutor_handshaking executor.id handshaking
  split
  · exact dropExecutor_handshaking executor.id handshaking
  · refine modifyFirst_forall _ handshaking fun other _ found same => .inl (own ?_)
    have matched := List.find?_some found
    exact (beq_iff_eq.mp matched).symm.trans same

theorem executorMessage_handshaking (now : Instant) (systemNow : Time) {id : ExecutorId}
    {message : ExecutorMessage}
    (own : id = executorId → ∀ executionHandshake jobQueues,
      message = .capabilities executionHandshake jobQueues → executionHandshake = true)
    (handshaking : pool.Handshaking executorId) :
    (pool.executorMessage now systemNow id message).Handshaking executorId := by
  unfold executorMessage
  split
  · exact handshaking
  rename_i executor found
  have matched := List.find?_some found
  split
  · cases message with
    | capabilities executionHandshake jobQueues =>
        exact capabilities_handshaking
          (fun same => own ((beq_iff_eq.mp matched).symm.trans same) _ _ rfl) jobQueues handshaking
    | heartbeat => exact handshaking
    | executionAccepted id => exact executionAccepted_handshaking executor id handshaking
    | executionRejected id => exact executionRejected_handshaking now executor id handshaking
    | executionSucceeded id timestamp outputPayloadJson =>
        exact executionResult_handshaking systemNow executor id timestamp _ handshaking
    | executionFailed id timestamp failureReason =>
        exact executionResult_handshaking systemNow executor id timestamp _ handshaking
    | malformed => exact dropExecutor_handshaking executor.id handshaking
  · exact dropExecutor_handshaking executor.id handshaking

theorem addExecutor_handshaking (id : ExecutorId) (handshaking : pool.Handshaking executorId) :
    (pool.addExecutor id).Handshaking executorId := by
  refine handshaking_of_executors (send_executors _ _ _) ?_
  intro executor member same
  rcases List.mem_append.mp member with old | new
  · exact handshaking executor old same
  · cases List.mem_singleton.mp new
    exact .inr rfl

end Handshaking

/-- The executor keeps some of its executions, and is told to cancel others. -/
structure Withdraws (executorId : ExecutorId) (pool after : ExecutorPool) : Prop where
  held : ∀ execution, (executorId, execution) ∈ after.held → (executorId, execution) ∈ pool.held
  sent : ∃ ids : List ExecutionId, messagesTo after.history executorId =
      messagesTo pool.history executorId ++ ids.map .executionCancelled ∧
    ∀ id ∈ ids, ∀ execution, (executorId, execution) ∈ after.held → execution.executionId ≠ id

namespace Withdraws

variable {pool middle after : ExecutorPool} {executorId : ExecutorId}

theorem of_held (held : ∀ execution, (executorId, execution) ∈ after.held →
      (executorId, execution) ∈ pool.held)
    (same : messagesTo after.history executorId = messagesTo pool.history executorId) :
    Withdraws executorId pool after :=
  ⟨held, [], by rw [same, List.map_nil, List.append_nil], by simp⟩

theorem refl (pool : ExecutorPool) : Withdraws executorId pool pool :=
  of_held (fun _ member => member) rfl

theorem trans (first : Withdraws executorId pool middle)
    (second : Withdraws executorId middle after) : Withdraws executorId pool after where
  held execution member := first.held execution (second.held execution member)
  sent := by
    obtain ⟨ids, same, unheld⟩ := first.sent
    obtain ⟨others, again, unheldOthers⟩ := second.sent
    refine ⟨ids ++ others, by rw [again, same, List.map_append, List.append_assoc], ?_⟩
    intro id member execution held
    rcases List.mem_append.mp member with early | late
    · exact unheld id early execution (second.held execution held)
    · exact unheldOthers id late execution held

theorem free (withdraws : Withdraws executorId pool after) {id : ExecutionId}
    (free : pool.entry executorId id = .free) : after.entry executorId id = .free := by
  rw [entry_eq_free_iff] at free ⊢
  exact fun execution member => free execution (withdraws.held execution member)

/-- Nothing is sent when executions are released. -/
theorem of_releases {removed : List (ExecutorId × ExecutorExecution)}
    (releases : Releases removed pool after) (same : after.history = pool.history) :
    Withdraws executorId pool after :=
  of_held (fun _ member => releases.held _ member) (by rw [same])

/-- Executors are told to cancel what was released before. -/
theorem of_cancelled {removed : List (ExecutorId × ExecutorExecution)} {other : ExecutorId}
    {ids : List ExecutionId} (releases : Releases removed pool after)
    (sent : after.history = pool.history ++ ids.map fun id => .sent other (.executionCancelled id))
    (unheld : ∀ id ∈ ids, ∀ execution, (other, execution) ∈ after.held →
      execution.executionId ≠ id) : Withdraws executorId pool after where
  held _ member := releases.held _ member
  sent := by
    by_cases own : other = executorId
    · subst own
      refine ⟨ids, ?_, unheld⟩
      rw [sent, messagesTo, List.filterMap_append, List.filterMap_map]
      congr 1
      rw [← List.filterMap_eq_map]
      refine List.filterMap_congr fun id _ => ?_
      simp [PoolEvent.sentTo]
    · refine ⟨[], ?_, by simp⟩
      rw [sent, messagesTo, List.filterMap_append, List.filterMap_map]
      congr 1
      refine List.filterMap_eq_nil_iff.mpr fun id _ => ?_
      simp [PoolEvent.sentTo, own]

end Withdraws

section Functions

variable {pool : ExecutorPool} {executorId : ExecutorId}

theorem dropExecutor_history (pool : ExecutorPool) (id : ExecutorId) :
    (pool.dropExecutor id).history = pool.history := by
  unfold dropExecutor
  split <;> rfl

theorem dropExecutor_withdraws (id : ExecutorId) :
    Withdraws executorId pool (pool.dropExecutor id) := by
  obtain ⟨_, releases⟩ := pool.dropExecutor_releases id
  exact .of_releases releases (pool.dropExecutor_history id)

theorem closeOutbound_withdraws (id : ExecutorId) :
    Withdraws executorId pool (pool.closeOutbound id) :=
  .of_releases (pool.closeOutbound_releases id) rfl

theorem send_history (executor : Executor) (message : ServerMessage) :
    (pool.send executor message).history = pool.history ∨
      (pool.send executor message).history = pool.history ++ [.sent executor.id message] := by
  unfold send
  split
  · exact .inr rfl
  · exact .inl rfl

theorem cancelExecutionId_withdraws (unique : pool.heldIds.Nodup) (id : ExecutionId) :
    Withdraws executorId pool (pool.cancelExecutionId id) := by
  rcases pool.cancelExecutionId_cases id with ⟨_, same⟩ | ⟨holder, execution, own, releases⟩
  · rw [same]
    exact .refl pool
  have unheld : id ∉ (pool.cancelExecutionId id).heldIds :=
    own ▸ releases.unheld unique (List.mem_singleton.mpr rfl)
  have history : (pool.cancelExecutionId id).history = pool.history ∨
      ∃ other, (pool.cancelExecutionId id).history =
        pool.history ++ [.sent other (.executionCancelled id)] := by
    unfold cancelExecutionId
    split
    · exact .inl rfl
    · exact (send_history _ _).imp_right fun sent => ⟨_, sent⟩
  rcases history with same | ⟨other, sent⟩
  · exact .of_releases releases same
  · have cancelled : (pool.cancelExecutionId id).history =
        pool.history ++ [id].map fun id => .sent other (.executionCancelled id) := sent
    refine .of_cancelled releases cancelled fun named listed execution member same => ?_
    have stillHeld := mem_heldIds member
    rw [same, List.mem_singleton.mp listed] at stillHeld
    exact unheld stillHeld

theorem cancelExecutionIds_withdraws (unique : pool.heldIds.Nodup) (ids : List ExecutionId) :
    Withdraws executorId pool (pool.cancelExecutionIds ids) := by
  unfold cancelExecutionIds
  induction ids generalizing pool with
  | nil => exact .refl pool
  | cons id rest ih =>
      refine (cancelExecutionId_withdraws unique id).trans (ih ?_)
      rcases pool.cancelExecutionId_cases id with ⟨_, same⟩ | ⟨_, _, _, releases⟩
      · rw [same]
        exact unique
      · exact releases.unique unique

theorem sends_history (pool : ExecutorPool) (executor : Executor) (ids : List ExecutionId) :
    ∃ sent, (sent = [] ∨ sent = ids) ∧
      (ids.foldl (fun pool id => pool.send executor (.executionCancelled id)) pool).history =
        pool.history ++ sent.map fun id => .sent executor.id (.executionCancelled id) := by
  by_cases connected : executor.connected = true
  · refine ⟨ids, .inr rfl, ?_⟩
    induction ids generalizing pool with
    | nil => exact (List.append_nil _).symm
    | cons id rest ih =>
        rw [List.foldl_cons, ih, send, if_pos connected]
        exact List.append_assoc ..
  · refine ⟨[], .inl rfl, ?_⟩
    rw [List.map_nil, List.append_nil]
    induction ids generalizing pool with
    | nil => rfl
    | cons id rest ih => rw [List.foldl_cons, ih, send, if_neg connected]

theorem withdrawOffers_withdraws (unique : pool.heldIds.Nodup) (id : ExecutorId)
    (expiredAt : Option Instant) (now : Instant) :
    Withdraws executorId pool (pool.withdrawOffers id expiredAt now) := by
  cases found : pool.executors.find? fun executor => executor.id == id with
  | none =>
      unfold withdrawOffers
      rw [found]
      exact .refl pool
  | some executor =>
      have releases := withdrawOffers_removes found expiredAt now
      let withdrawn := executor.executions.filter (ExecutorJobQueue.withdrawn expiredAt)
      obtain ⟨sent, part, history⟩ :=
        pool.sends_history executor (withdrawn.map ExecutorExecution.executionId)
      rw [List.foldl_map] at history
      have sentHistory : (pool.withdrawOffers id expiredAt now).history = pool.history ++
          sent.map fun id => .sent executor.id (.executionCancelled id) := by
        unfold withdrawOffers
        rw [found]
        exact history
      refine .of_cancelled releases sentHistory fun other named execution member same => ?_
      have listed : other ∈ withdrawn.map ExecutorExecution.executionId := by
        rcases part with rfl | rfl
        · cases named
        · exact named
      obtain ⟨gone, expired, rfl⟩ := List.mem_map.mp listed
      have unheld := releases.unheld unique (List.mem_map_of_mem expired)
      exact unheld (same ▸ mem_heldIds member)

end Functions

section Messages

variable {pool : ExecutorPool} {executor : Executor} {executorId : ExecutorId} {id : ExecutionId}

theorem mem_held {execution : ExecutorExecution} : (executorId, execution) ∈ pool.held ↔
    ∃ executor ∈ pool.executors, executor.id = executorId ∧ execution ∈ executor.executions := by
  simp only [held, Executor.held, List.mem_flatMap, List.mem_map, Prod.mk.injEq]
  constructor
  · rintro ⟨executor, present, other, inside, same, rfl⟩
    exact ⟨executor, present, same, inside⟩
  · rintro ⟨executor, present, same, inside⟩
    exact ⟨executor, present, execution, inside, same, rfl⟩

/-- An executor that is not connected holds nothing. -/
theorem entry_of_absent
    (absent : pool.executors.find? (fun executor => executor.id == executorId) = none) :
    pool.entry executorId id = .free := by
  rw [entry_eq_free_iff]
  intro execution member
  obtain ⟨executor, present, same, _⟩ := mem_held.mp member
  have other := List.find?_eq_none.mp absent executor present
  exact absurd (beq_iff_eq.mpr same) other

theorem dropExecutor_entry (unique : pool.executorIds.Nodup) :
    (pool.dropExecutor executorId).entry executorId id = .free := by
  unfold dropExecutor
  split
  · rename_i absent
    exact entry_of_absent absent
  · rename_i executor found
    rw [entry_eq_free_iff]
    intro execution member
    obtain ⟨other, present, same, _⟩ := mem_held.mp member
    have ids := (swapRemove_findIdx found).map Executor.id
    obtain ⟨gone, _⟩ := List.nodup_cons.mp (ids.nodup_iff.mp unique)
    have matched := List.find?_some found
    have own := beq_iff_eq.mp matched
    exact absurd (own.trans same.symm ▸ List.mem_map_of_mem present) gone

theorem mem_executions (unique : pool.executorIds.Nodup)
    (found : pool.executors.find? (fun other => other.id == executor.id) = some executor)
    {execution : ExecutorExecution} (member : (executor.id, execution) ∈ pool.held) :
    execution ∈ executor.executions := by
  obtain ⟨other, present, same, inside⟩ := mem_held.mp member
  have own := find?_key_of_mem Executor.id unique present
  rw [same, found] at own
  cases own
  exact inside

theorem entry_of_findExecution_none (unique : pool.executorIds.Nodup)
    (found : pool.executors.find? (fun other => other.id == executor.id) = some executor)
    (absent : executor.findExecution id = none) : pool.entry executor.id id = .free := by
  rw [entry_eq_free_iff]
  rintro execution member rfl
  obtain ⟨queue, listed, inside⟩ := List.mem_flatMap.mp (mem_executions unique found member)
  have holds : executor.holds execution.executionId = true := List.any_eq_true.mpr
    ⟨queue, listed, List.any_eq_true.mpr ⟨execution, inside, beq_self_eq_true _⟩⟩
  obtain ⟨other, present⟩ := Executor.exists_execution holds
  rw [absent] at present
  cases present

theorem held_of_findExecution
    (found : pool.executors.find? (fun other => other.id == executor.id) = some executor)
    {execution : ExecutorExecution} (inside : executor.findExecution id = some execution) :
    (executor.id, execution) ∈ pool.held := by
  obtain ⟨queue, first, present⟩ := Executor.exists_queue inside
  exact mem_held.mpr ⟨executor, List.mem_of_find?_eq_some found, rfl, List.mem_flatMap.mpr
    ⟨queue, List.mem_of_find?_eq_some first, List.mem_of_find?_eq_some present⟩⟩

theorem entry_of_findExecution (unique : pool.heldIds.Nodup)
    (found : pool.executors.find? (fun other => other.id == executor.id) = some executor)
    {execution : ExecutorExecution} (inside : executor.findExecution id = some execution) :
    pool.entry executor.id id = if execution.isAccepted then .accepted else .offered := by
  rw [← Executor.findExecution_id inside]
  exact entry_of_mem unique (held_of_findExecution found inside)

/-- The executor does not hold anymore what it released. -/
theorem entry_of_released (executorId : ExecutorId) {after : ExecutorPool}
    {removed : List (ExecutorId × ExecutorExecution)} (unique : pool.heldIds.Nodup)
    (releases : Releases removed pool after) {held : ExecutorId × ExecutorExecution}
    (gone : held ∈ removed) : after.entry executorId held.2.executionId = .free := by
  rw [entry_eq_free_iff]
  intro execution member same
  exact releases.unheld unique gone (same ▸ mem_heldIds member)

theorem executionRejected_withdraws (now : Instant)
    (found : pool.executors.find? (fun other => other.id == executor.id) = some executor) :
    Withdraws executorId pool (pool.executionRejected now executor id) := by
  obtain ⟨_, releases⟩ := executionRejected_releases found now id
  refine .of_releases releases ?_
  unfold executionRejected
  split
  · rfl
  split <;> rfl

/-- A rejected offer is not held anymore. -/
theorem executionRejected_entry (now : Instant) (uniqueIds : pool.executorIds.Nodup)
    (unique : pool.heldIds.Nodup)
    (found : pool.executors.find? (fun other => other.id == executor.id) = some executor) :
    (pool.executionRejected now executor id).entry executor.id id ≠ .offered := by
  unfold executionRejected
  split
  · rename_i absent
    rw [entry_of_findExecution_none uniqueIds found absent]
    simp
  rename_i execution inside
  split
  · rename_i accepted
    rw [entry_of_findExecution unique found inside, if_pos accepted]
    simp
  · have releases : Releases _ pool _ := .modifyExecutor found
      (Executor.exchanges_remove (fun queue => (queue.remove id).rejected now) inside
        (fun _ => rfl) fun _ => rfl)
    have free := entry_of_released executor.id unique releases
      (List.mem_singleton.mpr rfl)
    rw [Executor.findExecution_id inside] at free
    rw [free]
    simp

theorem executionResult_withdraws (systemNow : Time) (timestamp : ResultTime)
    {event : ExecutorExecution → Time → ExecutorEvent}
    (reports : ∀ execution time, (event execution time).executions = [execution])
    (found : pool.executors.find? (fun other => other.id == executor.id) = some executor) :
    Withdraws executorId pool (pool.executionResult systemNow executor id timestamp event) := by
  obtain ⟨_, releases⟩ := executionResult_releases found systemNow id timestamp reports
  refine .of_releases releases ?_
  unfold executionResult
  split
  · rfl
  dsimp only
  split
  · cases timestamp with
    | absent => rfl
    | invalid => exact dropExecutor_history _ executor.id
    | «at» time => rfl
  · rfl

/-- An execution with a result is not held anymore. -/
theorem executionResult_entry (systemNow : Time) (timestamp : ResultTime)
    (event : ExecutorExecution → Time → ExecutorEvent) (uniqueIds : pool.executorIds.Nodup)
    (unique : pool.heldIds.Nodup)
    (found : pool.executors.find? (fun other => other.id == executor.id) = some executor) :
    (pool.executionResult systemNow executor id timestamp event).entry executor.id id = .free := by
  unfold executionResult
  split
  · rename_i absent
    exact entry_of_findExecution_none uniqueIds found absent
  rename_i execution inside
  have releases : Releases _ pool _ := .modifyExecutor found
    (Executor.exchanges_remove (ExecutorJobQueue.remove id) inside (fun _ => rfl) fun _ => rfl)
  have removed := entry_of_released executor.id unique releases
    (List.mem_singleton.mpr rfl)
  rw [Executor.findExecution_id inside] at removed
  dsimp only
  split
  · cases timestamp with
    | absent => exact removed
    | invalid => exact (dropExecutor_withdraws executor.id).free removed
    | «at» time => exact removed
  · exact removed

theorem capabilities_withdraws
    (found : pool.executors.find? (fun other => other.id == executor.id) = some executor)
    (executionHandshake : Bool) (jobQueues : Option (List (JobTypeId × Nat))) :
    Withdraws executorId pool (pool.capabilities executor executionHandshake jobQueues) := by
  obtain ⟨_, releases⟩ := capabilities_releases found executionHandshake jobQueues
  refine .of_releases releases ?_
  unfold capabilities
  split
  · exact pool.dropExecutor_history executor.id
  split
  · exact pool.dropExecutor_history executor.id
  · rfl

theorem executionAccepted_withdraws (uniqueIds : pool.executorIds.Nodup)
    (found : pool.executors.find? (fun other => other.id == executor.id) = some executor)
    (absent : executor.findExecution id = none) :
    Withdraws executorId pool (pool.executionAccepted executor id) := by
  have free := entry_of_findExecution_none uniqueIds found absent
  unfold executionAccepted
  rw [absent]
  dsimp only
  have releases : Releases [] pool (pool.send executor (.executionCancelled id)) :=
    .send pool executor rfl
  rcases pool.send_history executor (.executionCancelled id) with same | sent
  · exact .of_releases releases same
  · have cancelled : (pool.send executor (.executionCancelled id)).history =
        pool.history ++ [id].map fun id => .sent executor.id (.executionCancelled id) := sent
    refine .of_cancelled releases cancelled fun named listed execution member => ?_
    rw [List.mem_singleton.mp listed]
    exact entry_eq_free_iff.mp free execution (releases.held _ member)

/-- Nothing is sent to an executor that accepts. -/
theorem Accepts.unsent {sender : ExecutorId} {execution : ExecutorExecution} {after : ExecutorPool}
    (accepts : Accepts sender execution pool after) :
    messagesTo after.history executorId = messagesTo pool.history executorId := by
  rw [accepts.history, messagesTo, List.filterMap_append]
  simp [PoolEvent.sentTo, messagesTo]

/-- A message only withdraws, unless it accepts an offer. -/
theorem executorMessage_withdraws (executorId : ExecutorId) (now : Instant) (systemNow : Time) (sender : ExecutorId)
    (message : ExecutorMessage) (uniqueIds : pool.executorIds.Nodup) :
    Withdraws executorId pool (pool.executorMessage now systemNow sender message) ∨
      ∃ execution, message = .executionAccepted execution.executionId ∧
        Accepts sender execution pool (pool.executorMessage now systemNow sender message) := by
  unfold executorMessage
  split
  · exact .inl (.refl pool)
  rename_i executor found
  have matched := List.find?_some found
  obtain rfl := beq_iff_eq.mp matched
  split
  · cases message with
    | capabilities executionHandshake jobQueues =>
        exact .inl (capabilities_withdraws found executionHandshake jobQueues)
    | heartbeat => exact .inl (.refl pool)
    | executionAccepted id =>
        cases inside : executor.findExecution id with
        | none => exact .inl (executionAccepted_withdraws uniqueIds found inside)
        | some execution =>
            rcases executionAccepted_found pool found inside with ⟨_, same⟩ | accepts
            · dsimp only
              rw [same]
              exact .inl (.refl pool)
            · exact .inr ⟨execution, by rw [Executor.findExecution_id inside], accepts⟩
    | executionRejected id => exact .inl (executionRejected_withdraws now found)
    | executionSucceeded id timestamp outputPayloadJson =>
        exact .inl (executionResult_withdraws systemNow timestamp (fun _ _ => rfl) found)
    | executionFailed id timestamp failureReason =>
        exact .inl (executionResult_withdraws systemNow timestamp (fun _ _ => rfl) found)
    | malformed => exact .inl (dropExecutor_withdraws executor.id)
  · exact .inl (dropExecutor_withdraws executor.id)

/-- After an answer the execution is not offered to the executor anymore. -/
theorem executorMessage_answered (now : Instant) (systemNow : Time) {message : ExecutorMessage}
    (answer : message = .executionAccepted id ∨ message = .executionRejected id)
    (uniqueIds : pool.executorIds.Nodup) (unique : pool.heldIds.Nodup) :
    (pool.executorMessage now systemNow executorId message).entry executorId id ≠ .offered := by
  unfold executorMessage
  split
  · rename_i absent
    rw [entry_of_absent absent]
    simp
  rename_i executor found
  have matched := List.find?_some found
  obtain rfl := beq_iff_eq.mp matched
  split
  · rcases answer with rfl | rfl
    · dsimp only
      cases inside : executor.findExecution id with
      | none =>
          have free := entry_of_findExecution_none uniqueIds found inside
          rw [(executionAccepted_withdraws uniqueIds found inside).free free]
          simp
      | some execution =>
          rcases executionAccepted_found pool found inside with ⟨accepted, same⟩ | accepts
          · rw [same, entry_of_findExecution unique found inside, if_pos accepted]
            simp
          · have accepted := accepts.entry_accepted unique
            rw [Executor.findExecution_id inside] at accepted
            rw [accepted]
            simp
    · exact executionRejected_entry now uniqueIds unique found
  · rw [dropExecutor_entry uniqueIds]
    simp

/-- After a result the execution is not held anymore. -/
theorem executorMessage_result (now : Instant) (systemNow : Time) {message : ExecutorMessage}
    (result : (∃ timestamp output, message = .executionSucceeded id timestamp output) ∨
      ∃ timestamp reason, message = .executionFailed id timestamp reason)
    (uniqueIds : pool.executorIds.Nodup) (unique : pool.heldIds.Nodup) :
    (pool.executorMessage now systemNow executorId message).entry executorId id = .free := by
  unfold executorMessage
  split
  · rename_i absent
    exact entry_of_absent absent
  rename_i executor found
  have matched := List.find?_some found
  obtain rfl := beq_iff_eq.mp matched
  split
  · rcases result with ⟨timestamp, output, rfl⟩ | ⟨timestamp, reason, rfl⟩
    · exact executionResult_entry systemNow timestamp _ uniqueIds unique found
    · exact executionResult_entry systemNow timestamp _ uniqueIds unique found
  · exact dropExecutor_entry uniqueIds

end Messages

end ExecutorPool

end Ora.Server
