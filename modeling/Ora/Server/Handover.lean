import Ora.Server.PoolEffects

/-!
# Handing over

What an executor accepted leaves its job queues with an event, by being
cancelled, or with a result that cannot be read.
-/

namespace Ora.Server

open Ora.Backend
open Ora.Library

def PoolEvent.acceptance : PoolEvent → Option (ExecutorId × ExecutionId)
  | .accepted executorId id => some (executorId, id)
  | _ => none

def acceptances (history : List PoolEvent) : List (ExecutorId × ExecutionId) :=
  history.filterMap PoolEvent.acceptance

def acceptedIds (history : List PoolEvent) : List ExecutionId :=
  (acceptances history).map Prod.snd

section Acceptances

variable {history new : List PoolEvent} {id : ExecutionId}

theorem acceptances_append_quiet (quiet : ∀ event ∈ new, event.quiet = true) :
    acceptances (history ++ new) = acceptances history := by
  rw [acceptances, List.filterMap_append]
  have nothing : new.filterMap PoolEvent.acceptance = [] := by
    rw [List.filterMap_eq_nil_iff]
    intro event member
    cases event with
    | sent executorId message => rfl
    | accepted executorId id => cases quiet _ member
    | forgotten id => rfl
  rw [nothing, List.append_nil, acceptances]

theorem acceptances_append_sent (executorId : ExecutorId) (message : ServerMessage) :
    acceptances (history ++ [.sent executorId message]) = acceptances history := by
  simp [acceptances, PoolEvent.acceptance]

theorem acceptances_append_accepted (executorId : ExecutorId) (id : ExecutionId) :
    acceptances (history ++ [.accepted executorId id]) =
      acceptances history ++ [(executorId, id)] := by
  simp [acceptances, PoolEvent.acceptance]

theorem acceptances_append_forgotten (ids : List ExecutionId) :
    acceptances (history ++ ids.map .forgotten) = acceptances history := by
  simp [acceptances, PoolEvent.acceptance, List.filterMap_map, Function.comp_def]

end Acceptances

def ExecutorEvent.executionIds (event : ExecutorEvent) : List ExecutionId :=
  event.executions.map ExecutorExecution.executionId

/-- What the events of an executor report. -/
def reports (executorId : ExecutorId) (events : List ExecutorEvent) :
    List (ExecutorId × ExecutionId) :=
  (events.flatMap ExecutorEvent.executionIds).map fun id => (executorId, id)

/-- The accepted ones among some executions, with their executors. -/
def assignedOf (held : List (ExecutorId × ExecutorExecution)) : List (ExecutorId × ExecutionId) :=
  (held.filter fun entry => entry.2.isAccepted).map fun entry => (entry.1, entry.2.executionId)

def ExecutorPool.assigned (pool : ExecutorPool) : List (ExecutorId × ExecutionId) :=
  assignedOf pool.held

section Assigned

variable {held rest : List (ExecutorId × ExecutorExecution)}

theorem assignedOf_append (held rest : List (ExecutorId × ExecutorExecution)) :
    assignedOf (held ++ rest) = assignedOf held ++ assignedOf rest := by
  simp [assignedOf]

theorem assignedOf_perm (same : held.Perm rest) : (assignedOf held).Perm (assignedOf rest) :=
  (same.filter _).map _

theorem assignedOf_offered (offered : ∀ entry ∈ held, entry.2.isAccepted = false) :
    assignedOf held = [] := by
  rw [assignedOf, List.filter_eq_nil_iff.mpr, List.map_nil]
  intro entry member
  simp [offered entry member]

/-- What executors hold as accepted is counted before and after an exchange. -/
theorem ExecutorPool.Exchanges.count {removed added : List (ExecutorId × ExecutorExecution)}
    {pool after : ExecutorPool} (changes : pool.Exchanges removed added after)
    (pair : ExecutorId × ExecutionId) :
    pool.assigned.count pair + (assignedOf added).count pair =
      after.assigned.count pair + (assignedOf removed).count pair := by
  obtain ⟨rest, before, left⟩ := changes.kept
  rw [ExecutorPool.assigned, ExecutorPool.assigned, (assignedOf_perm before).count_eq,
    (assignedOf_perm left).count_eq, assignedOf_append, assignedOf_append, List.count_append,
    List.count_append]
  omega

end Assigned

namespace ExecutorPool

/-- What was assigned or is accepted now is kept, reported by the executor or
cancelled. -/
structure Hands (executorId : ExecutorId) (new : List ExecutorEvent)
    (cancelled : List (ExecutorId × ExecutionId)) (pool after : ExecutorPool) : Prop where
  balance : ∀ pair, (acceptances after.history).count pair + pool.assigned.count pair =
    (acceptances pool.history).count pair + after.assigned.count pair +
      (reports executorId new).count pair + cancelled.count pair
  events : after.events = pool.events ++ new
  accepted : ∀ event ∈ new, ∀ execution ∈ event.executions, execution.isAccepted = true

namespace Hands

variable {executorId : ExecutorId} {new later : List ExecutorEvent}
  {cancelled more : List (ExecutorId × ExecutionId)} {pool middle after : ExecutorPool}

theorem refl (executorId : ExecutorId) (pool : ExecutorPool) : Hands executorId [] [] pool pool where
  balance pair := by simp [reports]
  events := (List.append_nil _).symm
  accepted := by simp

theorem trans (first : Hands executorId new cancelled pool middle)
    (second : Hands executorId later more middle after) :
    Hands executorId (new ++ later) (cancelled ++ more) pool after where
  balance pair := by
    have before := first.balance pair
    have between := second.balance pair
    simp only [reports, List.flatMap_append, List.map_append, List.count_append] at before between ⊢
    omega
  events := by rw [second.events, first.events, List.append_assoc]
  accepted event member :=
    (List.mem_append.mp member).elim (first.accepted event) (second.accepted event)

/-- What is released is reported, or cancelled. -/
theorem of_releases {removed : List (ExecutorId × ExecutorExecution)}
    (effect : pool.Releases removed after) (events : after.events = pool.events ++ new)
    (accepted : ∀ event ∈ new, ∀ execution ∈ event.executions, execution.isAccepted = true)
    (parts : ∀ pair, (assignedOf removed).count pair =
      (reports executorId new).count pair + cancelled.count pair) :
    Hands executorId new cancelled pool after where
  balance pair := by
    obtain ⟨sent, history, quiet⟩ := effect.history
    have counts := effect.queues.count pair
    have split := parts pair
    simp only [assignedOf, List.filter_nil, List.map_nil, List.count_nil] at counts split
    rw [history, acceptances_append_quiet quiet]
    omega
  events := events
  accepted := accepted

/-- Offers that are removed are not reported. -/
theorem of_offered {removed : List (ExecutorId × ExecutorExecution)}
    (effect : pool.Releases removed after) (events : after.events = pool.events)
    (offered : ∀ entry ∈ removed, entry.2.isAccepted = false) (executorId : ExecutorId) :
    Hands executorId [] [] pool after :=
  of_releases effect (by rw [events, List.append_nil]) (by simp)
    fun pair => by simp [assignedOf_offered offered, reports]

end Hands

theorem send_events (pool : ExecutorPool) (executor : Executor) (message : ServerMessage) :
    (pool.send executor message).events = pool.events := by
  unfold send
  split <;> rfl

theorem sends_events (executor : Executor) (message : ExecutorExecution → ServerMessage)
    (executions : List ExecutorExecution) (pool : ExecutorPool) :
    (executions.foldl (fun pool execution => pool.send executor (message execution))
      pool).events = pool.events := by
  induction executions generalizing pool with
  | nil => rfl
  | cons execution rest ih => exact (ih _).trans (pool.send_events executor _)

theorem reports_disconnected (executor : Executor) :
    reports executor.id [.executorDisconnected executor] = assignedOf executor.held := by
  simp [reports, assignedOf, Executor.held, ExecutorEvent.executionIds, ExecutorEvent.executions,
    Executor.assignedExecutions, List.filter_map, Function.comp_def]

variable (pool : ExecutorPool)

theorem dropExecutor_hands (id : ExecutorId) :
    ∃ new, Hands id new [] pool (pool.dropExecutor id) := by
  unfold dropExecutor
  split
  · exact ⟨[], .refl id pool⟩
  · rename_i executor found
    have same : executor.id = id := by simpa using List.find?_some found
    subst same
    have reported : ∀ execution ∈ (ExecutorEvent.executorDisconnected executor).executions,
        execution.isAccepted = true ∧ ∃ executorId, (executorId, execution) ∈ executor.held := by
      intro execution assigned
      obtain ⟨member, accepted⟩ := List.mem_filter.mp assigned
      exact ⟨accepted, executor.id, List.mem_map_of_mem member⟩
    refine ⟨[.executorDisconnected executor],
      .of_releases ((Releases.of_queues (.drop found)).report reported) rfl ?_ ?_⟩
    · intro event member execution named
      rw [List.mem_singleton.mp member] at named
      exact (reported execution named).1
    · intro pair
      rw [reports_disconnected, List.count_nil, Nat.add_zero]

theorem closeOutbound_hands (id executorId : ExecutorId) :
    Hands executorId [] [] pool (pool.closeOutbound id) :=
  .of_offered (pool.closeOutbound_releases id) rfl (by simp) executorId

/-- The assigned executions among those that are cancelled. -/
theorem cancelExecutionId_hands (id : ExecutionId) (executorId : ExecutorId) :
    ∃ cancelled, Hands executorId [] cancelled pool (pool.cancelExecutionId id) ∧
      ∀ pair ∈ cancelled, pair.2 = id := by
  rcases pool.cancelExecutionId_cases id with ⟨_, same⟩ | ⟨owner, execution, rfl, effect⟩
  · rw [same]
    exact ⟨[], .refl executorId pool, by simp⟩
  · have events : (pool.cancelExecutionId execution.executionId).events = pool.events := by
      unfold cancelExecutionId
      split
      · rfl
      · exact send_events ..
    refine ⟨assignedOf [(owner, execution)],
      .of_releases effect (by rw [events, List.append_nil]) (by simp) (by simp [reports]), ?_⟩
    intro pair member
    simp only [assignedOf, List.mem_map, List.mem_filter, List.mem_singleton] at member
    obtain ⟨_, ⟨rfl, _⟩, rfl⟩ := member
    rfl

theorem cancelExecutionIds_hands (ids : List ExecutionId) (executorId : ExecutorId) :
    ∃ cancelled, Hands executorId [] cancelled pool (pool.cancelExecutionIds ids) ∧
      ∀ pair ∈ cancelled, pair.2 ∈ ids := by
  induction ids generalizing pool with
  | nil => exact ⟨[], .refl executorId pool, by simp⟩
  | cons id rest ih =>
      obtain ⟨first, now, named⟩ := pool.cancelExecutionId_hands id executorId
      obtain ⟨others, later, known⟩ := ih (pool.cancelExecutionId id)
      refine ⟨first ++ others, now.trans later, ?_⟩
      intro pair member
      rcases List.mem_append.mp member with here | there
      · exact named pair here ▸ List.mem_cons_self ..
      · exact List.mem_cons_of_mem _ (known pair there)

theorem withdrawOffers_hands (id : ExecutorId) (expiredAt : Option Instant) (now : Instant)
    (executorId : ExecutorId) :
    Hands executorId [] [] pool (pool.withdrawOffers id expiredAt now) := by
  obtain ⟨_, offered, effect⟩ := pool.withdrawOffers_releases id expiredAt now
  refine .of_offered effect ?_ offered executorId
  unfold withdrawOffers
  split
  · rfl
  · exact sends_events ..

/-- The execution named by a result whose timestamp cannot be converted. -/
def unreadable : ExecutorMessage → Option ExecutionId
  | .executionSucceeded id .invalid _ => some id
  | .executionFailed id .invalid _ => some id
  | _ => none

section Messages

variable {pool} {executor : Executor}

theorem mem_assigned {execution : ExecutorExecution} {id : ExecutionId}
    (found : pool.executors.find? (fun other => other.id == executor.id) = some executor)
    (inside : executor.findExecution id = some execution) (accepted : execution.isAccepted = true) :
    (executor.id, id) ∈ pool.assigned := by
  obtain ⟨queue, first, present⟩ := Executor.exists_queue inside
  have held : (executor.id, execution) ∈ pool.held := by
    refine List.mem_flatMap.mpr ⟨executor, List.mem_of_find?_eq_some found, List.mem_map_of_mem ?_⟩
    exact List.mem_flatMap.mpr
      ⟨queue, List.mem_of_find?_eq_some first, List.mem_of_find?_eq_some present⟩
  have same := Executor.findExecution_id inside
  subst same
  exact List.mem_map.mpr ⟨(executor.id, execution), List.mem_filter.mpr ⟨held, accepted⟩, rfl⟩

/-- Capabilities are sent before there are queues, else the executor is dropped. -/
theorem capabilities_hands (known : pool.Configured)
    (found : pool.executors.find? (fun other => other.id == executor.id) = some executor)
    (executionHandshake : Bool) (jobQueues : Option (List (JobTypeId × Nat))) :
    ∃ new, Hands executor.id new [] pool
      (pool.capabilities executor executionHandshake jobQueues) := by
  unfold capabilities
  split
  · exact pool.dropExecutor_hands executor.id
  split
  · exact pool.dropExecutor_hands executor.id
  · rename_i initialized _ queues
    have none : executor.jobQueues = [] :=
      known executor (List.mem_of_find?_eq_some found) (by simpa using initialized)
    let configure (executor : Executor) : Executor := { executor with
      jobQueues := queues.map fun queue => .new queue.1 queue.2
      initialized := true
      executionHandshake := executionHandshake }
    have kept : Executor.Exchanges [] [] executor (configure executor) := by
      refine ⟨rfl, ⟨[], ?_, ?_⟩, ?_, by simp [Executor.Configured, configure]⟩
      · simp [Executor.executions, none]
      · refine .of_eq ?_
        simp [configure, Executor.executions, ExecutorJobQueue.new, List.flatMap_map]
      · intro _ queue member
        obtain ⟨queue, _, rfl⟩ := List.mem_map.mp member
        exact Nat.zero_le _
    exact ⟨[], .of_offered (.of_queues (.modifyFirst found kept)) rfl (by simp) executor.id⟩

theorem executionAccepted_events (pool : ExecutorPool) (executor : Executor) (id : ExecutionId) :
    (pool.executionAccepted executor id).events = pool.events := by
  unfold executionAccepted
  split
  · exact pool.send_events executor _
  · split <;> rfl

theorem executionRejected_hands
    (found : pool.executors.find? (fun other => other.id == executor.id) = some executor)
    (now : Instant) (id : ExecutionId) :
    Hands executor.id [] [] pool (pool.executionRejected now executor id) := by
  unfold executionRejected
  split
  · exact .refl _ pool
  split
  · exact .refl _ pool
  · rename_i execution inside offered
    have effect := Releases.modifyExecutor found
      (Executor.exchanges_remove (fun queue => (queue.remove id).rejected now) inside
        (fun _ => rfl) fun _ => rfl)
    exact .of_offered effect rfl (by simpa using offered) executor.id

/-- A result is an event, unless its timestamp cannot be converted. -/
theorem executionResult_hands
    (found : pool.executors.find? (fun other => other.id == executor.id) = some executor)
    (systemNow : Time) (id : ExecutionId) (timestamp : ResultTime)
    {event : ExecutorExecution → Time → ExecutorEvent}
    (reported : ∀ execution time, (event execution time).executions = [execution])
    (readable : timestamp = .invalid → (executor.id, id) ∉ pool.assigned) :
    ∃ new, Hands executor.id new [] pool
      (pool.executionResult systemNow executor id timestamp event) := by
  unfold executionResult
  split
  · exact ⟨[], .refl _ pool⟩
  rename_i execution inside
  have effect := Releases.modifyExecutor found
    (Executor.exchanges_remove (ExecutorJobQueue.remove id) inside (fun _ => rfl) fun _ => rfl)
  dsimp only
  split
  · rename_i accepted
    have named : ∀ time, ∀ other ∈ (event execution time).executions,
        other.isAccepted = true ∧
          ∃ executorId, (executorId, other) ∈ [execution].map fun execution =>
            (executor.id, execution) := by
      intro time other member
      rw [reported] at member
      cases List.mem_singleton.mp member
      exact ⟨accepted, executor.id, List.mem_singleton.mpr rfl⟩
    have hands : ∀ time, Hands executor.id [event execution time] [] pool _ := fun time =>
      .of_releases (effect.report (named time)) rfl
        (fun other member execution present => by
          rw [List.mem_singleton.mp member] at present
          exact (named time execution present).1)
        fun pair => by
          simp [reports, assignedOf, ExecutorEvent.executionIds, reported, accepted]
    rcases timestamp with _ | _ | time
    · exact ⟨_, hands systemNow⟩
    · exact absurd (mem_assigned found inside accepted) (readable rfl)
    · exact ⟨_, hands _⟩
  · rename_i offered
    exact ⟨[], .of_offered effect rfl (by simpa using offered) executor.id⟩

end Messages

/-- What is accepted is assigned. -/
theorem Hands.of_accepts {executorId : ExecutorId} {execution : ExecutorExecution}
    {pool after : ExecutorPool} (effect : Accepts executorId execution pool after) :
    Hands executorId [] [] pool after where
  balance pair := by
    have counts := effect.queues.count pair
    have before : assignedOf [(executorId, execution)] = [] :=
      assignedOf_offered (by simpa using effect.offered)
    have new : assignedOf [(executorId, { execution with state := .accepted })] =
        [(executorId, execution.executionId)] := rfl
    rw [before, new, List.count_nil, Nat.add_zero] at counts
    rw [effect.history, acceptances_append_accepted, List.count_append]
    simp only [reports, List.flatMap_nil, List.map_nil, List.count_nil]
    omega
  events := by rw [effect.events, List.append_nil]
  accepted := by simp

theorem Hands.of_offers {executorId : ExecutorId} {execution : ExecutorExecution}
    {pool after : ExecutorPool} (effect : Offers executorId execution pool after) :
    Hands executorId [] [] pool after where
  balance pair := by
    have counts := effect.queues.count pair
    have new : assignedOf [(executorId, execution)] = [] :=
      assignedOf_offered (by simpa using effect.offered)
    obtain ⟨_, _, history⟩ := effect.history
    rw [new] at counts
    rw [history, acceptances_append_sent]
    simp only [assignedOf, reports, List.filter_nil, List.flatMap_nil, List.map_nil,
      List.count_nil] at counts ⊢
    omega
  events := by rw [effect.events, List.append_nil]
  accepted := by simp

/-- A message hands over every assigned execution that it does not keep. -/
theorem executorMessage_hands (known : pool.Configured) (now : Instant) (systemNow : Time)
    (id : ExecutorId) (message : ExecutorMessage)
    (readable : ∀ execution, unreadable message = some execution → (id, execution) ∉ pool.assigned) :
    ∃ new, Hands id new [] pool (pool.executorMessage now systemNow id message) := by
  unfold executorMessage
  split
  · exact ⟨[], .refl id pool⟩
  rename_i executor found
  have same : executor.id = id := by simpa using List.find?_some found
  subst same
  split
  · cases message with
    | capabilities executionHandshake jobQueues =>
        exact capabilities_hands known found executionHandshake jobQueues
    | heartbeat => exact ⟨[], .refl _ pool⟩
    | executionAccepted id =>
        rcases pool.executionAccepted_cases found id with effect | ⟨execution, effect⟩
        · exact ⟨[], .of_offered effect (pool.executionAccepted_events executor id) (by simp) _⟩
        · exact ⟨[], .of_accepts effect⟩
    | executionRejected id => exact ⟨[], executionRejected_hands found now id⟩
    | executionSucceeded id timestamp outputPayloadJson =>
        refine executionResult_hands found systemNow id timestamp (fun _ _ => rfl) ?_
        rintro rfl
        exact readable id rfl
    | executionFailed id timestamp failureReason =>
        refine executionResult_hands found systemNow id timestamp (fun _ _ => rfl) ?_
        rintro rfl
        exact readable id rfl
    | malformed => exact pool.dropExecutor_hands executor.id
  · exact pool.dropExecutor_hands executor.id

end ExecutorPool

end Ora.Server
