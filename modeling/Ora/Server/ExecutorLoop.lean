import Mathlib.Logic.Relation
import Ora.Server.Offers
import Ora.Server.Shutdown

/-!
# What the loop of an executor does to the pool

Every message, check and shutdown step of `executor_loop` releases and accepts
executions, and hands over those that it does not keep.
-/

namespace Ora.Server

open Ora.Backend
open Ora.Library

namespace ExecutorPool

/-- What the loop of an executor does to the pool. -/
def LoopStep (pool after : ExecutorPool) : Prop :=
  (∃ removed, Releases removed pool after) ∨
    ∃ executorId execution, Accepts executorId execution pool after

abbrev LoopSteps : ExecutorPool → ExecutorPool → Prop := Relation.ReflTransGen LoopStep

theorem Releases.loopSteps {removed : List (ExecutorId × ExecutorExecution)}
    {pool after : ExecutorPool} (effect : Releases removed pool after) : LoopSteps pool after :=
  .single (.inl ⟨removed, effect⟩)

section Loop

variable (pool : ExecutorPool) (id : ExecutorId)

theorem executorMessage_loopSteps (now : Instant) (systemNow : Time) (message : ExecutorMessage) :
    LoopSteps pool (pool.executorMessage now systemNow id message) :=
  .single (pool.executorMessage_cases now systemNow id message)

theorem dropExecutor_loopSteps : LoopSteps pool (pool.dropExecutor id) := by
  obtain ⟨_, effect⟩ := pool.dropExecutor_releases id
  exact effect.loopSteps

theorem withdrawOffers_loopSteps (expiredAt : Option Instant) (now : Instant) :
    LoopSteps pool (pool.withdrawOffers id expiredAt now) := by
  obtain ⟨_, _, effect⟩ := pool.withdrawOffers_releases id expiredAt now
  exact effect.loopSteps

theorem dropFinished_cases :
    pool.dropFinished id = pool ∨ pool.dropFinished id = pool.dropExecutor id := by
  unfold dropFinished
  split
  · exact .inl rfl
  split
  · exact .inr rfl
  · exact .inl rfl

theorem dropFinished_loopSteps : LoopSteps pool (pool.dropFinished id) := by
  rcases pool.dropFinished_cases id with same | same
  · rw [same]
  · rw [same]
    exact pool.dropExecutor_loopSteps id

theorem dropFinished_hands : ∃ new, Hands id new [] pool (pool.dropFinished id) := by
  rcases pool.dropFinished_cases id with same | same
  · rw [same]
    exact ⟨[], .refl id pool⟩
  · rw [same]
    exact pool.dropExecutor_hands id

/-- Only an offer is removed. -/
theorem acceptedInShutdown_releases {pool : ExecutorPool} {executor : Executor}
    (found : pool.executors.find? (fun other => other.id == executor.id) = some executor)
    (id : ExecutionId) :
    ∃ removed, (∀ entry ∈ removed, entry.2.isAccepted = false) ∧
      Releases removed pool (pool.acceptedInShutdown executor id) ∧
      (pool.acceptedInShutdown executor id).events = pool.events := by
  unfold acceptedInShutdown
  split
  · exact ⟨[], by simp, .send pool executor rfl, pool.send_events executor _⟩
  rename_i execution inside
  split
  · exact ⟨[], by simp, .refl pool, rfl⟩
  · rename_i offered
    have effect := Releases.modifyExecutor found
      (Executor.exchanges_remove (ExecutorJobQueue.remove id) inside (fun _ => rfl) fun _ => rfl)
    refine ⟨_, ?_, effect.trans (.send _ executor rfl), send_events _ executor _⟩
    intro entry member
    simp only [List.append_nil, List.map_singleton, List.mem_singleton] at member
    rw [member, ExecutorExecution.isAccepted, offered]

theorem drainingMessage_loopSteps (now : Instant) (systemNow : Time) (message : ExecutorMessage) :
    LoopSteps pool (pool.drainingMessage now systemNow id message) := by
  unfold drainingMessage
  split
  · exact .refl
  rename_i executor found
  have same : executor.id = id := by simpa using List.find?_some found
  subst same
  split
  · split
    · obtain ⟨_, _, effect, _⟩ := acceptedInShutdown_releases found (by assumption)
      exact effect.loopSteps
    · have handled := pool.executorMessage_loopSteps executor.id now systemNow message
      dsimp only
      split
      · exact handled
      · exact handled.trans (dropFinished_loopSteps _ executor.id)
  · exact pool.dropExecutor_loopSteps executor.id

theorem drainingMessage_hands (known : pool.Configured) (now : Instant) (systemNow : Time)
    (message : ExecutorMessage)
    (readable : ∀ execution, unreadable message = some execution → (id, execution) ∉ pool.assigned) :
    ∃ new, Hands id new [] pool (pool.drainingMessage now systemNow id message) := by
  unfold drainingMessage
  split
  · exact ⟨[], .refl id pool⟩
  rename_i executor found
  have same : executor.id = id := by simpa using List.find?_some found
  subst same
  split
  · split
    · obtain ⟨_, offered, effect, events⟩ := acceptedInShutdown_releases found (by assumption)
      exact ⟨[], .of_offered effect events offered _⟩
    · obtain ⟨new, hands⟩ :=
        pool.executorMessage_hands known now systemNow executor.id message readable
      dsimp only
      split
      · exact ⟨new, hands⟩
      · obtain ⟨later, dropped⟩ := dropFinished_hands _ executor.id
        exact ⟨_, hands.trans dropped⟩
  · exact pool.dropExecutor_hands executor.id

/-- Messages are sent to the executor before it is dropped. -/
theorem cancelAssigned_cases : ∃ middle, Releases [] pool middle ∧ middle.events = pool.events ∧
    (pool.cancelAssigned id = middle ∨ pool.cancelAssigned id = middle.dropExecutor id) := by
  unfold cancelAssigned
  split
  · exact ⟨pool, .refl pool, rfl, .inl rfl⟩
  · rename_i executor _
    exact ⟨_, .sends executor (fun _ => rfl) _ pool, sends_events executor _ _ pool, .inr rfl⟩

theorem cancelAssigned_loopSteps : LoopSteps pool (pool.cancelAssigned id) := by
  obtain ⟨middle, effect, _, same | same⟩ := pool.cancelAssigned_cases id
  · rw [same]
    exact effect.loopSteps
  · rw [same]
    exact effect.loopSteps.trans (middle.dropExecutor_loopSteps id)

theorem cancelAssigned_hands : ∃ new, Hands id new [] pool (pool.cancelAssigned id) := by
  obtain ⟨middle, effect, events, same | same⟩ := pool.cancelAssigned_cases id
  · rw [same]
    exact ⟨[], .of_offered effect events (by simp) id⟩
  · obtain ⟨new, hands⟩ := middle.dropExecutor_hands id
    rw [same]
    exact ⟨_, (Hands.of_offered effect events (by simp) id).trans hands⟩

theorem shutdownExecutor_cases (shutdownGracePeriod : Duration) (now : Instant) :
    (pool.shutdownExecutor shutdownGracePeriod now id).1 = pool.dropExecutor id ∨
      (pool.shutdownExecutor shutdownGracePeriod now id).1 = pool.withdrawOffers id none now ∨
      (pool.shutdownExecutor shutdownGracePeriod now id).1 =
        (pool.withdrawOffers id none now).dropExecutor id := by
  unfold shutdownExecutor
  dsimp only
  split
  · exact .inl rfl
  split
  · exact .inr (.inl rfl)
  · exact .inr (.inr rfl)

theorem shutdownExecutor_loopSteps (shutdownGracePeriod : Duration) (now : Instant) :
    LoopSteps pool (pool.shutdownExecutor shutdownGracePeriod now id).1 := by
  have withdrawn := pool.withdrawOffers_loopSteps id none now
  rcases pool.shutdownExecutor_cases id shutdownGracePeriod now with same | same | same
  · rw [same]
    exact pool.dropExecutor_loopSteps id
  · rw [same]
    exact withdrawn
  · rw [same]
    exact withdrawn.trans (dropExecutor_loopSteps _ id)

theorem shutdownExecutor_hands (shutdownGracePeriod : Duration) (now : Instant) :
    ∃ new, Hands id new [] pool (pool.shutdownExecutor shutdownGracePeriod now id).1 := by
  have withdrawn := pool.withdrawOffers_hands id none now id
  rcases pool.shutdownExecutor_cases id shutdownGracePeriod now with same | same | same
  · rw [same]
    exact pool.dropExecutor_hands id
  · rw [same]
    exact ⟨[], withdrawn⟩
  · obtain ⟨new, dropped⟩ := dropExecutor_hands (pool.withdrawOffers id none now) id
    rw [same]
    exact ⟨_, withdrawn.trans dropped⟩

end Loop

section LoopSteps

variable {pool after : ExecutorPool}

theorem LoopSteps.configured (steps : LoopSteps pool after) (known : pool.Configured) :
    after.Configured := by
  induction steps with
  | refl => exact known
  | tail _ last ih =>
      rcases last with ⟨_, effect⟩ | ⟨_, _, effect⟩
      · exact effect.queues.configured ih
      · exact effect.queues.configured ih

/-- The channels are only appended to. -/
theorem LoopSteps.channels (steps : LoopSteps pool after) :
    (∃ events, after.events = pool.events ++ events) ∧
      ∃ accepted, after.accepted = pool.accepted ++ accepted := by
  induction steps with
  | refl => exact ⟨⟨[], (List.append_nil _).symm⟩, [], (List.append_nil _).symm⟩
  | tail _ last ih =>
      obtain ⟨⟨events, sent⟩, accepted, started⟩ := ih
      rcases last with ⟨_, effect⟩ | ⟨_, _, effect⟩
      · obtain ⟨more, reported, _⟩ := effect.events
        refine ⟨⟨events ++ more, ?_⟩, accepted, effect.accepted.trans started⟩
        rw [reported, sent, List.append_assoc]
      · obtain ⟨startedAt, one⟩ := effect.accepted
        rw [one, started, List.append_assoc]
        exact ⟨⟨events, effect.events.trans sent⟩, _, rfl⟩

end LoopSteps

end ExecutorPool

theorem ServerState.offerInvariant_loopSteps {server : ServerState} {pool : ExecutorPool} (inv : server.offerInvariant)
    (steps : ExecutorPool.LoopSteps server.pool pool) :
    offerInvariant { server with pool := pool } := by
  induction steps with
  | refl => exact inv
  | tail _ last ih =>
      rcases last with ⟨_, effect⟩ | ⟨_, _, effect⟩
      · exact OfferInvariant.releases ih effect
      · exact OfferInvariant.accepts ih effect

/-- A batch that is dropped is not offered. -/
theorem ServerState.offerInvariant_ready {server : ServerState} {ready : ReadyLoop}
    (inv : server.offerInvariant) (dropped : ready = server.ready ∨ ready = .idle) :
    offerInvariant { server with ready := ready } := by
  rcases dropped with rfl | rfl
  · exact inv
  · exact OfferInvariant.unfetched inv .idle rfl (by simp [ReadyLoop.fetchedAt?])

/-- The loop of an executor changes the pool. -/
theorem Process.step_executor {process after : Process} {action : ProcessAction}
    (own : action.ofExecutor = true) (done : process.step action = some after) :
    ∃ id pool draining, ExecutorPool.LoopSteps process.server.pool pool ∧
      after = { process.executorStep id pool with draining := draining } := by
  cases action with
  | message id systemNow message =>
      cases done
      refine ⟨id, _, _, ?_, rfl⟩
      split
      · exact ExecutorPool.drainingMessage_loopSteps ..
      · exact ExecutorPool.executorMessage_loopSteps ..
  | checkOffers id =>
      exact ⟨id, _, _, ExecutorPool.withdrawOffers_loopSteps .., step_checkOffers done⟩
  | disconnect id =>
      cases done
      exact ⟨id, _, _, ExecutorPool.dropExecutor_loopSteps .., rfl⟩
  | shutdownExecutor id =>
      obtain ⟨draining, rfl⟩ := step_shutdownExecutor done
      exact ⟨id, _, draining, ExecutorPool.shutdownExecutor_loopSteps .., rfl⟩
  | graceElapsed id =>
      exact ⟨id, _, _, ExecutorPool.cancelAssigned_loopSteps .., step_graceElapsed done⟩
  | act | signal | endReady | endTimeouts | starts | events | callFails | giveUpResults =>
      cases own

end Ora.Server
