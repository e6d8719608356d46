import Ora.Postgres.Running
import Ora.Server.Attempts
import Ora.Server.Handover

/-!
# Accepted executions

An execution that an executor has accepted waits to be started, is in progress
on that executor, or is about to be cancelled there.  Each execution is accepted
once, so a result or a lost executor ends it for good.
-/

namespace Ora.Server

open Ora.Backend
open Ora.Library
open Ora.Postgres (Store Pick Operation Evolves JobInvariant NotActive Runs ExecutionRow)

section Acceptances

variable {history : List PoolEvent} {id : ExecutionId}

/-- When nothing is forgotten, what was accepted is taken. -/
theorem taken_of_accepted (remembered : ∀ id, .forgotten id ∉ history)
    (accepted : id ∈ acceptedIds history) : taken history id = true := by
  have general : ∀ before, before = true ∨ id ∈ acceptedIds history →
      history.foldl (PoolEvent.take id) before = true := by
    clear accepted
    induction history with
    | nil =>
        rintro before (isTaken | member)
        · exact isTaken
        · cases member
    | cons event rest ih =>
        intro before known
        have later := fun other member => remembered other (List.mem_cons_of_mem _ member)
        refine ih later _ ?_
        cases event with
        | sent executorId message => exact known
        | forgotten other => exact absurd (List.mem_cons_self ..) (remembered other)
        | accepted executorId other =>
            rcases known with isTaken | member
            · exact .inl (by simp [PoolEvent.take, isTaken])
            · rcases List.mem_cons.mp member with rfl | elsewhere
              · exact .inl (by simp [PoolEvent.take])
              · exact .inr elsewhere
  exact general false (.inr accepted)

end Acceptances

/-- Its start is still to be committed, it is in progress on the executor, or
it is not active anymore and will be cancelled on the executor. -/
inductive Accounted (store : Store) (starting : List StartedExecution)
    (cancelled : List ExecutionId) (executorId : ExecutorId) (id : ExecutionId) : Prop where
  | starting (execution : StartedExecution) (listed : execution ∈ starting)
      (same : execution.executorId = executorId ∧ execution.executionId = id)
  | running (runs : Runs store executorId id)
  | cancelling (named : id ∈ cancelled) (ended : NotActive store id)

theorem Accounted.mono {store : Store} {starting more : List StartedExecution}
    {cancelled others : List ExecutionId} {executorId : ExecutorId} {id : ExecutionId}
    (accounted : Accounted store starting cancelled executorId id)
    (starts : ∀ execution ∈ starting, execution ∈ more)
    (cancels : ∀ id ∈ cancelled, id ∈ others) :
    Accounted store more others executorId id := by
  cases accounted with
  | starting execution listed same => exact .starting execution (starts execution listed) same
  | running runs => exact .running runs
  | cancelling named ended => exact .cancelling (cancels id named) ended

namespace StartsLoop

/-- The starts that are not known to be committed, and those that cannot be. -/
def unsettled : StartsLoop → List StartedExecution
  | .starting executions => executions
  | .started executions returned =>
      executions.filter fun execution => !returned.contains execution.executionId
  | _ => []

def cancelIds : StartsLoop → List ExecutionId
  | .cancelling ids => ids
  | _ => []

def givenUp : StartsLoop → Bool
  | .givingUp _ => true
  | .forgetting _ => true
  | _ => false

theorem unsettled_subset (starts : StartsLoop) :
    ∀ execution ∈ starts.unsettled, execution ∈ starts.executions := by
  cases starts with
  | started executions returned => exact fun execution member => (List.mem_filter.mp member).1
  | _ => exact fun execution member => member

end StartsLoop

def ExecutorPool.eventIds (pool : ExecutorPool) : List ExecutionId :=
  pool.events.flatMap ExecutorEvent.executionIds

/-- `ended` are the executions with a result or without an executor, `cancelled`
those that wait to be cancelled, `unchecked` those that may have timed out. -/
structure RunInvariant (store : Store) (pool : ExecutorPool) (starts : StartsLoop)
    (unchecked : List (ExecutorId × ExecutionId)) (ended cancelled : List ExecutionId) :
    Prop where
  remembered : ∀ id, .forgotten id ∉ pool.history
  once : (acceptedIds pool.history).Nodup
  assigned : ∀ entry ∈ pool.held, entry.2.isAccepted = true →
    (entry.1, entry.2.executionId) ∈ acceptances pool.history
  offered : ∀ entry ∈ pool.held, entry.2.isAccepted = false →
    entry.2.executionId ∉ acceptedIds pool.history
  listed : ∀ execution ∈ pool.accepted ++ starts.executions,
    (execution.executorId, execution.executionId) ∈ acceptances pool.history
  distinct : ((pool.accepted ++ starts.executions).map StartedExecution.executionId).Nodup
  kept : starts.givenUp = false
  returned : ∀ executions returned, starts = .started executions returned →
    returned.Nodup ∧ (∀ id ∈ returned, id ∈ executions.map StartedExecution.executionId) ∧
      ∀ execution ∈ executions, execution.executionId ∉ returned →
        NotActive store execution.executionId
  running : ∀ row ∈ store.executions.rows, row.status = .inProgress →
    ∃ executorId, row.executorId = some executorId ∧
      (executorId, row.id) ∈ acceptances pool.history
  checked : ∀ pair ∈ unchecked, pair ∈ acceptances pool.history
  ended : ∀ id ∈ pool.eventIds ++ ended, id ∈ acceptedIds pool.history ∧ id ∉ pool.heldIds
  accounted : ∀ entry ∈ pool.held, entry.2.isAccepted = true →
    Accounted store (pool.accepted ++ starts.unsettled) cancelled entry.1 entry.2.executionId

namespace RunInvariant

variable {store later : Store} {pool after : ExecutorPool} {starts : StartsLoop}
  {unchecked : List (ExecutorId × ExecutionId)} {ended cancelled : List ExecutionId}

/-- Each execution was accepted by one executor. -/
theorem acceptance_unique (inv : RunInvariant store pool starts unchecked ended cancelled)
    {first second : ExecutorId} {id : ExecutionId}
    (hfirst : (first, id) ∈ acceptances pool.history)
    (hsecond : (second, id) ∈ acceptances pool.history) : first = second :=
  congrArg Prod.fst (List.inj_on_of_nodup_map inv.once hfirst hsecond rfl)

theorem releases {removed : List (ExecutorId × ExecutorExecution)}
    (inv : RunInvariant store pool starts unchecked ended cancelled) (unique : pool.heldIds.Nodup)
    (effect : pool.Releases removed after) :
    RunInvariant store after starts unchecked ended cancelled := by
  obtain ⟨sent, history, quiet⟩ := effect.history
  obtain ⟨reported, events, known⟩ := effect.events
  have same : acceptances after.history = acceptances pool.history := by
    rw [history, acceptances_append_quiet quiet]
  have sameIds : acceptedIds after.history = acceptedIds pool.history := by
    rw [acceptedIds, same, acceptedIds]
  obtain ⟨rest, before, _⟩ := effect.queues.kept
  refine ⟨?_, ?_, ?_, ?_, ?_, ?_, inv.kept, inv.returned, ?_, ?_, ?_, ?_⟩
  · intro id forgotten
    rw [history, List.mem_append] at forgotten
    rcases forgotten with old | new
    · exact inv.remembered id old
    · cases quiet _ new
  · rw [sameIds]
    exact inv.once
  · rw [same]
    exact fun entry member => inv.assigned entry (effect.held entry member)
  · rw [sameIds]
    exact fun entry member => inv.offered entry (effect.held entry member)
  · rw [same, effect.accepted]
    exact inv.listed
  · rw [effect.accepted]
    exact inv.distinct
  · rw [same]
    exact inv.running
  · rw [same]
    exact inv.checked
  · intro id member
    rw [sameIds]
    have unheld : ∀ id, id ∉ pool.heldIds → id ∉ after.heldIds := fun id absent held =>
      absent (effect.heldIds id held)
    rw [ExecutorPool.eventIds, events, List.flatMap_append, List.append_assoc, List.mem_append,
      List.mem_append] at member
    rcases member with old | new | other
    · obtain ⟨accepted, absent⟩ := inv.ended id (List.mem_append_left _ old)
      exact ⟨accepted, unheld id absent⟩
    · obtain ⟨event, present, named⟩ := List.mem_flatMap.mp new
      obtain ⟨execution, reports, rfl⟩ := List.mem_map.mp named
      obtain ⟨accepted, executorId, gone⟩ := known event present execution reports
      refine ⟨?_, effect.unheld unique gone⟩
      exact List.mem_map_of_mem (inv.assigned (executorId, execution)
        (before.mem_iff.mpr (List.mem_append_left _ gone)) accepted)
    · obtain ⟨accepted, absent⟩ := inv.ended id (List.mem_append_right _ other)
      exact ⟨accepted, unheld id absent⟩
  · rw [effect.accepted]
    exact fun entry member => inv.accounted entry (effect.held entry member)

theorem accepts {executorId : ExecutorId} {execution : ExecutorExecution}
    (inv : RunInvariant store pool starts unchecked ended cancelled) (unique : pool.heldIds.Nodup)
    (effect : pool.Accepts executorId execution after) :
    RunInvariant store after starts unchecked ended cancelled := by
  obtain ⟨rest, before, left⟩ := effect.queues.kept
  obtain ⟨startedAt, accepted⟩ := effect.accepted
  have same : acceptances after.history =
      acceptances pool.history ++ [(executorId, execution.executionId)] := by
    rw [effect.history, acceptances_append_accepted]
  have sameIds : acceptedIds after.history =
      acceptedIds pool.history ++ [execution.executionId] := by
    rw [acceptedIds, same, List.map_append, acceptedIds, List.map_singleton]
  have fresh : execution.executionId ∉ acceptedIds pool.history :=
    inv.offered (executorId, execution) (before.mem_iff.mpr (List.mem_cons_self ..)) effect.offered
  have grows : ∀ pair ∈ acceptances pool.history, pair ∈ acceptances after.history :=
    fun pair member => same ▸ List.mem_append_left _ member
  have others : ∀ entry ∈ rest, entry ∈ pool.held := fun entry member =>
    before.mem_iff.mpr (List.mem_cons_of_mem _ member)
  have otherIds : ∀ entry ∈ rest, entry.2.executionId ≠ execution.executionId := by
    have heldIds : pool.heldIds.Perm (([(executorId, execution)] ++ rest).map fun entry =>
        entry.2.executionId) := before.map _
    have split := heldIds.nodup_iff.mp unique
    rw [List.singleton_append, List.map_cons, List.nodup_cons] at split
    exact fun entry member equal => split.1 (List.mem_map.mpr ⟨entry, member, equal⟩)
  refine ⟨?_, ?_, ?_, ?_, ?_, ?_, inv.kept, inv.returned, ?_, ?_, ?_, ?_⟩
  · intro id forgotten
    rw [effect.history, List.mem_append, List.mem_singleton] at forgotten
    rcases forgotten with old | new
    · exact inv.remembered id old
    · cases new
  · rw [sameIds]
    exact List.nodup_append.mpr ⟨inv.once, List.nodup_singleton _, fun id member other single =>
      fun equal => fresh (List.mem_singleton.mp single ▸ equal ▸ member)⟩
  · intro entry member isAccepted
    rcases List.mem_cons.mp (left.mem_iff.mp member) with rfl | other
    · rw [same]
      exact List.mem_append_right _ (List.mem_singleton.mpr rfl)
    · exact grows _ (inv.assigned entry (others entry other) isAccepted)
  · intro entry member isOffered
    rcases List.mem_cons.mp (left.mem_iff.mp member) with rfl | other
    · cases isOffered
    · rw [sameIds, List.mem_append, List.mem_singleton, not_or]
      exact ⟨inv.offered entry (others entry other) isOffered, otherIds entry other⟩
  · intro start member
    rw [accepted, List.append_assoc, List.mem_append, List.mem_append, List.mem_singleton] at member
    rcases member with old | rfl | later
    · exact grows _ (inv.listed start (List.mem_append_left _ old))
    · rw [same]
      exact List.mem_append_right _ (List.mem_singleton.mpr rfl)
    · exact grows _ (inv.listed start (List.mem_append_right _ later))
  · rw [accepted, List.append_assoc]
    refine (List.perm_middle.map _).nodup_iff.mpr (List.nodup_cons.mpr ⟨?_, inv.distinct⟩)
    intro member
    obtain ⟨start, listed, equal⟩ := List.mem_map.mp member
    have known := List.mem_map_of_mem (f := Prod.snd) (inv.listed start listed)
    rw [equal] at known
    exact fresh known
  · intro row member inProgress
    obtain ⟨other, assigned, known⟩ := inv.running row member inProgress
    exact ⟨other, assigned, grows _ known⟩
  · exact fun pair member => grows pair (inv.checked pair member)
  · intro id member
    rw [ExecutorPool.eventIds, effect.events] at member
    obtain ⟨known, unheld⟩ := inv.ended id member
    refine ⟨by rw [sameIds]; exact List.mem_append_left _ known, ?_⟩
    exact fun held => unheld (effect.heldIds.mem_iff.mp held)
  · intro entry member isAccepted
    rw [accepted]
    rcases List.mem_cons.mp (left.mem_iff.mp member) with rfl | other
    · refine .starting ⟨execution.executionId, executorId, startedAt⟩ ?_ ⟨rfl, rfl⟩
      simp
    · refine (inv.accounted entry (others entry other) isAccepted).mono ?_ fun _ named => named
      intro start listed
      rcases List.mem_append.mp listed with old | later
      · simp [old]
      · simp [later]

theorem offers {executorId : ExecutorId} {execution : ExecutorExecution}
    (inv : RunInvariant store pool starts unchecked ended cancelled)
    (free : taken pool.history execution.executionId = false)
    (effect : pool.Offers executorId execution after) :
    RunInvariant store after starts unchecked ended cancelled := by
  obtain ⟨rest, before, left⟩ := effect.queues.kept
  obtain ⟨_, _, history⟩ := effect.history
  have same : acceptances after.history = acceptances pool.history := by
    rw [history, acceptances_append_sent]
  have sameIds : acceptedIds after.history = acceptedIds pool.history := by
    rw [acceptedIds, same, acceptedIds]
  have fresh : execution.executionId ∉ acceptedIds pool.history := by
    intro member
    rw [taken_of_accepted inv.remembered member] at free
    cases free
  have cases : ∀ entry ∈ after.held, entry = (executorId, execution) ∨ entry ∈ pool.held := by
    intro entry member
    rcases List.mem_cons.mp (left.mem_iff.mp member) with same | other
    · exact .inl same
    · exact .inr (before.mem_iff.mpr other)
  refine ⟨?_, ?_, ?_, ?_, ?_, ?_, inv.kept, inv.returned, ?_, ?_, ?_, ?_⟩
  · intro id forgotten
    rw [history, List.mem_append, List.mem_singleton] at forgotten
    rcases forgotten with old | new
    · exact inv.remembered id old
    · cases new
  · rw [sameIds]
    exact inv.once
  · intro entry member isAccepted
    rw [same]
    rcases cases entry member with rfl | old
    · rw [effect.offered] at isAccepted
      cases isAccepted
    · exact inv.assigned entry old isAccepted
  · intro entry member isOffered
    rw [sameIds]
    rcases cases entry member with rfl | old
    · exact fresh
    · exact inv.offered entry old isOffered
  · rw [same, effect.accepted]
    exact inv.listed
  · rw [effect.accepted]
    exact inv.distinct
  · rw [same]
    exact inv.running
  · rw [same]
    exact inv.checked
  · intro id member
    rw [ExecutorPool.eventIds, effect.events] at member
    obtain ⟨known, unheld⟩ := inv.ended id member
    refine ⟨by rw [sameIds]; exact known, ?_⟩
    intro held
    rcases List.mem_cons.mp (effect.heldIds.mem_iff.mp held) with rfl | old
    · exact fresh known
    · exact unheld old
  · intro entry member isAccepted
    rw [effect.accepted]
    rcases cases entry member with rfl | old
    · rw [effect.offered] at isAccepted
      cases isAccepted
    · exact inv.accounted entry old isAccepted

/-- Executions are cancelled on the executors. -/
theorem cancels {ids : List ExecutionId}
    (inv : RunInvariant store pool starts unchecked ended (ids ++ cancelled))
    (unique : pool.heldIds.Nodup) :
    RunInvariant store (pool.cancelExecutionIds ids) starts unchecked ended cancelled := by
  obtain ⟨removed, effect⟩ := pool.cancelExecutionIds_releases ids
  have released := inv.releases unique effect
  refine { released with accounted := ?_ }
  intro entry member isAccepted
  cases released.accounted entry member isAccepted with
  | starting execution listed same => exact .starting execution listed same
  | running runs => exact .running runs
  | cancelling named notActive =>
      refine .cancelling ((List.mem_append.mp named).resolve_left fun now => ?_) notActive
      exact ExecutorPool.cancelExecutionIds_removes unique ids _ now (List.mem_map_of_mem member)

theorem mono {fewer more : List ExecutionId}
    (inv : RunInvariant store pool starts unchecked ended cancelled) (ends : ∀ id ∈ fewer, id ∈ ended)
    (cancels : ∀ id ∈ cancelled, id ∈ more) : RunInvariant store pool starts unchecked fewer more :=
  { inv with
    ended := fun id member => inv.ended id <|
      (List.mem_append.mp member).elim (List.mem_append_left _)
        fun listed => List.mem_append_right _ (ends id listed)
    accounted := fun entry member isAccepted =>
      (inv.accounted entry member isAccepted).mono (fun _ listed => listed) cancels }

/-- An operation only ends executions that are not held or will be cancelled. -/
theorem operates {operation : Operation}
    (inv : RunInvariant store pool starts unchecked ended cancelled)
    (jobs : JobInvariant store) (done : operation.apply store = some later)
    (listed : ∀ pick executions, operation = .executionsStarted pick executions →
      executions = starts.executions)
    (named : ∀ id ∈ operation.ended store, id ∈ ended ∨ id ∈ cancelled) :
    RunInvariant later pool starts unchecked ended cancelled := by
  have evolves : Evolves store later := .of_apply done
  refine { inv with returned := ?_, running := ?_, accounted := ?_ }
  · intro executions returned same
    obtain ⟨distinct, known, others⟩ := inv.returned executions returned same
    exact ⟨distinct, known, fun execution member absent =>
      evolves.notActive (others execution member absent)⟩
  · intro row member inProgress
    rcases Postgres.inProgress_before done member inProgress with
      before | ⟨pick, executions, same, execution, started, id, executor⟩
    · exact inv.running row before inProgress
    · rw [listed pick executions same] at started
      exact ⟨execution.executorId, executor,
        id ▸ inv.listed execution (List.mem_append_right _ started)⟩
  · intro entry member isAccepted
    cases inv.accounted entry member isAccepted with
    | starting execution present same => exact .starting execution present same
    | running runs =>
        rcases runs.step jobs done with still | ⟨notActive, finished⟩
        · exact .running still
        · rcases named _ finished with isEnded | isNamed
          · obtain ⟨_, unheld⟩ := inv.ended _ (List.mem_append_right _ isEnded)
            exact absurd (List.mem_map_of_mem member) unheld
          · exact .cancelling isNamed notActive
    | cancelling isNamed notActive => exact .cancelling isNamed (evolves.notActive notActive)

/-- An operation that ends and starts nothing. -/
theorem operates_quietly {operation : Operation}
    (inv : RunInvariant store pool starts unchecked ended cancelled) (jobs : JobInvariant store)
    (done : operation.apply store = some later)
    (unstarted : ∀ pick executions, operation ≠ .executionsStarted pick executions)
    (ends : operation.ended store = []) :
    RunInvariant later pool starts unchecked ended cancelled :=
  inv.operates jobs done (fun pick executions same => absurd same (unstarted pick executions))
    (by simp [ends])

/-- No starts are being committed anymore. -/
theorem withoutStarts {more : List ExecutionId}
    (inv : RunInvariant store pool starts unchecked ended cancelled) {next : StartsLoop}
    (none : next.executions = [])
    (unstarted : ∀ executions returned, next ≠ .started executions returned)
    (kept : next.givenUp = false)
    (accounted : ∀ entry ∈ pool.held, entry.2.isAccepted = true →
      Accounted store pool.accepted more entry.1 entry.2.executionId) :
    RunInvariant store pool next unchecked ended more := by
  have unsettled : next.unsettled = [] := by
    rw [List.eq_nil_iff_forall_not_mem]
    intro execution member
    have listed := next.unsettled_subset execution member
    rw [none] at listed
    cases listed
  refine { inv with listed := ?_, distinct := ?_, kept := kept, returned := ?_, accounted := ?_ }
  · rw [none, List.append_nil]
    exact fun execution member => inv.listed execution (List.mem_append_left _ member)
  · have distinct := inv.distinct
    rw [List.map_append] at distinct
    rw [none, List.append_nil]
    exact (List.nodup_append.mp distinct).1
  · exact fun executions returned same => absurd same (unstarted executions returned)
  · rw [unsettled, List.append_nil]
    exact accounted

theorem idles (inv : RunInvariant store pool starts unchecked ended cancelled)
    (settled : starts.unsettled = []) :
    RunInvariant store pool .idle unchecked ended cancelled := by
  refine inv.withoutStarts rfl (by simp) rfl ?_
  have accounted := inv.accounted
  rwa [settled, List.append_nil] at accounted

/-- Accepted executions are taken from the channel. -/
theorem takesStarts (inv : RunInvariant store pool .idle unchecked ended cancelled) (count : Nat) :
    RunInvariant store { pool with accepted := pool.accepted.drop count }
      (.starting (pool.accepted.take count)) unchecked ended cancelled := by
  have same : (pool.accepted.drop count ++ pool.accepted.take count).Perm pool.accepted := by
    refine List.perm_append_comm.trans (.of_eq ?_)
    exact List.take_append_drop count pool.accepted
  have listed := inv.listed
  have distinct := inv.distinct
  have idle : StartsLoop.idle.executions = [] := rfl
  rw [idle, List.append_nil] at listed distinct
  refine ⟨inv.remembered, inv.once, inv.assigned, inv.offered, ?_, ?_, rfl, by simp, inv.running,
    inv.checked, inv.ended, ?_⟩
  · exact fun execution member => listed execution (same.mem_iff.mp member)
  · exact (same.map _).nodup_iff.mpr distinct
  · intro entry member isAccepted
    refine (inv.accounted entry member isAccepted).mono ?_ fun _ named => named
    have unsettled : StartsLoop.idle.unsettled = [] := rfl
    rw [unsettled, List.append_nil]
    exact fun execution present => same.mem_iff.mpr present

theorem commits {executions : List StartedExecution}
    (inv : RunInvariant store pool (.starting executions) unchecked ended cancelled)
    (jobs : JobInvariant store) (pick : Pick) :
    RunInvariant (Postgres.PostgresBackend.executionsStarted store pick executions).1 pool
      (.starting executions) unchecked ended cancelled := by
  have applied : (Operation.executionsStarted pick executions).apply store = some _ := rfl
  refine inv.operates jobs applied ?_ (by simp [Operation.ended])
  rintro other others ⟨rfl, rfl⟩
  rfl

/-- The starts that were returned are in progress, the others cannot be. -/
theorem acknowledges {executions : List StartedExecution} {pick : Pick}
    (inv : RunInvariant store pool (.starting executions) unchecked ended cancelled)
    (jobs : JobInvariant store)
    (issued : ∀ execution ∈ executions, execution.executionId < store.nextUuid) :
    RunInvariant (Postgres.PostgresBackend.executionsStarted store pick executions).1 pool
      (.started executions (Postgres.PostgresBackend.executionsStarted store pick executions).2)
      unchecked ended cancelled := by
  have committed := inv.commits jobs pick
  have distinct : (executions.map StartedExecution.executionId).Nodup := by
    have distinct := inv.distinct
    rw [List.map_append] at distinct
    exact (List.nodup_append.mp distinct).2.1
  refine { committed with kept := rfl, returned := ?_, accounted := ?_ }
  · rintro others returned ⟨rfl, rfl⟩
    refine ⟨Postgres.executionsStarted_nodup, Postgres.executionsStarted_subset, ?_⟩
    intro execution member absent
    have effect := Postgres.executionsStarted_starts store pick executions
    refine ⟨by rw [effect.nextUuid]; exact issued execution member, ?_⟩
    intro row present same
    rw [Bool.eq_false_iff]
    intro active
    rw [effect.executions] at present
    obtain ⟨before, beforeMember, rfl⟩ := List.mem_map.mp present
    obtain ⟨sameId, _, sameActive⟩ := effect.keeps before
    rw [sameActive, ExecutionRow.active_iff_status] at active
    rw [sameId] at same
    -- an active row could have been started by this entry
    refine absent (Postgres.mem_executionsStarted.mpr ⟨before, beforeMember, same, execution, member,
      ?_⟩)
    rcases active with pending | inProgress
    · simp [Postgres.PostgresBackend.startable, same, pending]
    · obtain ⟨executorId, executor, known⟩ := inv.running before beforeMember inProgress
      rw [same] at known
      have owner := inv.acceptance_unique known
        (inv.listed execution (List.mem_append_right _ member))
      simp [Postgres.PostgresBackend.startable, same, inProgress, executor, owner]
  · intro entry member isAccepted
    cases committed.accounted entry member isAccepted with
    | running runs => exact .running runs
    | cancelling named notActive => exact .cancelling named notActive
    | starting execution listed same =>
        rcases List.mem_append.mp listed with waiting | taken
        · exact .starting execution (List.mem_append_left _ waiting) same
        by_cases returned : execution.executionId ∈
            (Postgres.PostgresBackend.executionsStarted store pick executions).2
        · have runs := Postgres.runs_of_returned distinct taken returned
          rw [same.1, same.2] at runs
          exact .running runs
        · refine .starting execution (List.mem_append_right _ ?_) same
          exact List.mem_filter.mpr ⟨taken, by simpa using returned⟩

/-- When a start was not returned, as many are missing among those returned. -/
theorem records {executions : List StartedExecution} {returned : List ExecutionId}
    (inv : RunInvariant store pool (.started executions returned) unchecked ended cancelled)
    (now : Instant) :
    let ids := executions.map StartedExecution.executionId
    let next : StartsLoop := if returned.length = ids.length then .idle
      else .cancelling (ids.filter fun id => !returned.contains id)
    RunInvariant store (pool.acceptedExecutionsStarted ids now) next unchecked ended
      (next.cancelIds ++ cancelled) := by
  intro ids next
  obtain ⟨distinct, known, others⟩ := inv.returned executions returned rfl
  have named : ∀ execution ∈ executions, execution.executionId ∉ returned →
      execution.executionId ∈ next.cancelIds := by
    intro execution member absent
    have listed : execution.executionId ∈ ids := List.mem_map_of_mem member
    have missing : returned.length ≠ ids.length := by
      intro same
      have all := (List.subperm_of_subset distinct known).perm_of_length_le (Nat.le_of_eq same.symm)
      exact absent (all.mem_iff.mpr listed)
    have cancels : next = .cancelling (ids.filter fun id => !returned.contains id) := if_neg missing
    rw [cancels]
    exact List.mem_filter.mpr ⟨listed, by simpa using absent⟩
  have cases : next = .idle ∨ ∃ missing, next = .cancelling missing := by
    unfold next
    split
    · exact .inl rfl
    · exact .inr ⟨_, rfl⟩
  have settled : RunInvariant store pool next unchecked ended (next.cancelIds ++ cancelled) := by
    refine inv.withoutStarts ?_ ?_ ?_ ?_
    · rcases cases with same | ⟨missing, same⟩ <;> rw [same] <;> rfl
    · rcases cases with same | ⟨missing, same⟩ <;> simp [same]
    · rcases cases with same | ⟨missing, same⟩ <;> rw [same] <;> rfl
    · intro entry member isAccepted
      cases inv.accounted entry member isAccepted with
      | running runs => exact .running runs
      | cancelling isNamed notActive => exact .cancelling (List.mem_append_right _ isNamed) notActive
      | starting execution listed same =>
          rcases List.mem_append.mp listed with waiting | left
          · exact .starting execution waiting same
          · obtain ⟨taken, absent⟩ := List.mem_filter.mp left
            have absent : execution.executionId ∉ returned := by simpa using absent
            rw [← same.2]
            exact .cancelling (List.mem_append_left _ (named execution taken absent))
              (others execution taken absent)
  exact { settled with remembered := settled.remembered }

theorem connects {nextExecutor : ExecutorId}
    (inv : RunInvariant store pool starts unchecked ended cancelled) :
    RunInvariant store (pool.addExecutor nextExecutor) starts unchecked ended cancelled := by
  have held : (pool.addExecutor nextExecutor).held = pool.held := by
    simp [ExecutorPool.held, ExecutorPool.addExecutor, ExecutorPool.send_executors, Executor.held,
      Executor.executions]
  have heldIds : (pool.addExecutor nextExecutor).heldIds = pool.heldIds := by
    rw [ExecutorPool.heldIds, held, ExecutorPool.heldIds]
  have history : (pool.addExecutor nextExecutor).history =
      pool.history ++ [.sent nextExecutor (.properties nextExecutor)] := rfl
  have same : acceptances (pool.addExecutor nextExecutor).history = acceptances pool.history := by
    rw [history, acceptances_append_sent]
  have sameIds : acceptedIds (pool.addExecutor nextExecutor).history =
      acceptedIds pool.history := by
    rw [acceptedIds, same, acceptedIds]
  refine ⟨?_, by rw [sameIds]; exact inv.once, ?_, ?_, ?_, inv.distinct, inv.kept, inv.returned, ?_,
    ?_, ?_, by rw [held]; exact inv.accounted⟩
  · intro id forgotten
    rw [history, List.mem_append, List.mem_singleton] at forgotten
    rcases forgotten with old | new
    · exact inv.remembered id old
    · cases new
  · rw [held, same]
    exact inv.assigned
  · rw [held, sameIds]
    exact inv.offered
  · rw [same]
    exact inv.listed
  · rw [same]
    exact inv.running
  · rw [same]
    exact inv.checked
  · rw [sameIds, heldIds]
    exact inv.ended

/-- Events are taken, what they report is still to be processed. -/
theorem takesEvents {events : List ExecutorEvent} {more : List ExecutionId}
    (inv : RunInvariant store pool starts unchecked ended cancelled)
    (moved : ∀ id ∈ events.flatMap ExecutorEvent.executionIds ++ more, id ∈ pool.eventIds ++ ended) :
    RunInvariant store { pool with events := events } starts unchecked more cancelled :=
  ⟨inv.remembered, inv.once, inv.assigned, inv.offered, inv.listed, inv.distinct, inv.kept,
    inv.returned, inv.running, inv.checked, fun id member => inv.ended id (moved id member),
    inv.accounted⟩

/-- A batch is offered. -/
theorem offersBatch {now : Instant} {nextExecutor : ExecutorId} {ignored : List ExecutionId}
    {fetchedAt : Instant} {batch : List ReadyExecution}
    (inv : RunInvariant store pool starts unchecked ended cancelled)
    (offering : OfferInvariant store now nextExecutor pool (.offering ignored fetchedAt batch) starts)
    (systemNow : Time) (pick : ExecutionId → Nat) :
    RunInvariant store (pool.tryOffer now systemNow pick batch fetchedAt).1 starts unchecked ended
      cancelled := by
  have kept := offering.tryOffer_induction
    (P := fun pool => RunInvariant store pool starts unchecked ended cancelled) systemNow pick inv
    ?_ ?_ ?_
  · exact kept.1
  · exact ⟨inv.remembered, inv.once, inv.assigned, inv.offered, inv.listed, inv.distinct, inv.kept,
      inv.returned, inv.running, inv.checked, inv.ended, inv.accounted⟩
  · exact fun _ _ _ _ inv _ _ _ free effect => inv.offers free effect
  · exact fun _ _ _ _ inv offering effect => inv.accepts offering.queues.unique effect

/-- The executions in progress were accepted by their executors. -/
theorem fetchesInProgress {last : Option ExecutionId}
    (inv : RunInvariant store pool starts unchecked ended cancelled) :
    RunInvariant store pool starts
      ((Postgres.PostgresBackend.inProgressExecutions store last).map fun execution =>
        (execution.executorId, execution.executionId)) ended cancelled := by
  refine { inv with checked := ?_ }
  intro pair member
  obtain ⟨execution, fetched, rfl⟩ := List.mem_map.mp member
  obtain ⟨row, present, job, _, _, status, executor, same⟩ :=
    Postgres.PostgresBackend.mem_inProgressExecutions fetched
  obtain ⟨other, assigned, known⟩ := inv.running row present status
  cases executor.symm.trans assigned
  rw [same]
  exact known

/-- An execution whose executor is gone is not held by another one. -/
theorem unheld_of_gone {executorId : ExecutorId} {id : ExecutionId}
    (inv : RunInvariant store pool starts unchecked ended cancelled)
    (known : (executorId, id) ∈ acceptances pool.history)
    (gone : pool.executorExists executorId = false) : id ∉ pool.heldIds := by
  intro held
  obtain ⟨entry, member, rfl⟩ := List.mem_map.mp held
  cases accepted : entry.2.isAccepted with
  | false => exact inv.offered entry member accepted (List.mem_map_of_mem (f := Prod.snd) known)
  | true =>
      have owner := inv.acceptance_unique known (inv.assigned entry member accepted)
      simp only [ExecutorPool.held, Executor.held, List.mem_flatMap, List.mem_map] at member
      obtain ⟨executor, present, execution, _, rfl⟩ := member
      have found : pool.executorExists executorId = true :=
        List.any_eq_true.mpr ⟨executor, present, by simpa using owner.symm⟩
      rw [gone] at found
      cases found

/-- An execution is checked, it is orphaned when its executor is gone. -/
theorem checksNext {executorId : ExecutorId} {id : ExecutionId} {more : List ExecutionId}
    (inv : RunInvariant store pool starts ((executorId, id) :: unchecked) ended cancelled)
    (ends : ∀ other ∈ more,
      other ∈ ended ∨ other = id ∧ pool.executorExists executorId = false) :
    RunInvariant store pool starts unchecked more cancelled := by
  refine { inv with checked := fun pair member => inv.checked pair (List.mem_cons_of_mem _ member),
                    ended := ?_ }
  intro other member
  rcases List.mem_append.mp member with reported | listed
  · exact inv.ended other (List.mem_append_left _ reported)
  rcases ends other listed with old | ⟨rfl, gone⟩
  · exact inv.ended other (List.mem_append_right _ old)
  · have known := inv.checked (executorId, other) (List.mem_cons_self ..)
    exact ⟨List.mem_map_of_mem (f := Prod.snd) known, inv.unheld_of_gone known gone⟩

end RunInvariant

def RetryCall.ids : RetryCall → List ExecutionId
  | .failing failedExecutions retriedExecutions =>
      failedExecutions.map FailedExecution.executionId ++
        retriedExecutions.map fun execution => execution.failedExecution.executionId
  | .retrying retriedExecutions =>
      retriedExecutions.map fun execution => execution.failedExecution.executionId

def failureIds (executions : List MaybeRetryExecution) : List ExecutionId :=
  executions.map fun execution => execution.execution.executionId

namespace EventsLoop

def endedIds : EventsLoop → List ExecutionId
  | .idle => []
  | .waiting _ succeededExecutions maybeRetryExecutions =>
      ServerState.resultIds succeededExecutions maybeRetryExecutions
  | .succeeding succeededExecutions maybeRetryExecutions =>
      ServerState.resultIds succeededExecutions maybeRetryExecutions
  | .retrying call => call.ids

end EventsLoop

namespace TimeoutsLoop

def endedIds : TimeoutsLoop → List ExecutionId
  | .fetching _ => []
  | .checking _ _ _ _ orphaned => failureIds orphaned
  | .timingOut _ _ _ orphaned => failureIds orphaned
  | .cancelling _ _ orphaned => failureIds orphaned
  | .failingOrphaned _ call => call.ids

def cancelIds : TimeoutsLoop → List ExecutionId
  | .timingOut _ _ timedOut _ => timedOut
  | .cancelling _ timedOut _ => timedOut
  | _ => []

def unchecked : TimeoutsLoop → List (ExecutorId × ExecutionId)
  | .checking _ _ unchecked _ _ =>
      unchecked.map fun execution => (execution.executorId, execution.executionId)
  | _ => []

/-- The executions that time out are cancelled afterwards. -/
def Tracked : TimeoutsLoop → Prop
  | .timingOut _ call timedOut _ => ∀ id ∈ call.ids, id ∈ timedOut
  | _ => True

end TimeoutsLoop

def Request.cancelIds : Request → List ExecutionId
  | .cancelling ids => ids
  | .stopped _ => []

namespace RetryCall

theorem retryExecutions_ids (systemNow : Nat → Time) (executions : List MaybeRetryExecution) :
    ∀ id ∈ (retryExecutions systemNow executions).ids, id ∈ failureIds executions := by
  intro id member
  rcases List.mem_append.mp member with failing | retrying
  · obtain ⟨_, listed, rfl⟩ := List.mem_map.mp failing
    obtain ⟨execution, kept, rfl⟩ := List.mem_map.mp listed
    exact List.mem_map_of_mem (f := fun execution => execution.execution.executionId)
      (List.mem_filter.mp kept).1
  · obtain ⟨_, listed, rfl⟩ := List.mem_map.mp retrying
    obtain ⟨k, inside, rfl⟩ := List.mem_mapIdx.mp listed
    exact List.mem_map_of_mem (f := fun execution => execution.execution.executionId)
      (List.mem_filter.mp (List.getElem_mem inside)).1

theorem rest_ids {call rest : RetryCall} (left : call.rest = some rest) :
    ∀ id ∈ rest.ids, id ∈ call.ids := by
  cases call with
  | failing failedExecutions retriedExecutions =>
      cases left
      exact fun id member => List.mem_append_right _ member
  | retrying retriedExecutions => cases left

theorem operation_ended (call : RetryCall) (store : Store) (now : Time) (pick : Pick) :
    ∀ id ∈ (call.operation now pick).ended store, id ∈ call.ids := by
  cases call with
  | failing failedExecutions retriedExecutions =>
      exact fun id member => List.mem_append_left _ member
  | retrying retriedExecutions => exact fun id member => member

theorem operation_unstarted (call : RetryCall) (now : Time) (pick : Pick) :
    ∀ other executions, call.operation now pick ≠ .executionsStarted other executions := by
  cases call <;> simp [operation]

end RetryCall

/-- A call for executions that failed ends none but these. -/
theorem RunInvariant.retries {store later : Store} {pool : ExecutorPool} {starts : StartsLoop}
    {unchecked : List (ExecutorId × ExecutionId)} {ended cancelled : List ExecutionId}
    {call : RetryCall} {now : Time} {pick : Pick}
    (inv : RunInvariant store pool starts unchecked ended cancelled) (jobs : JobInvariant store)
    (done : (call.operation now pick).apply store = some later)
    (named : ∀ id ∈ call.ids, id ∈ ended ∨ id ∈ cancelled) :
    RunInvariant later pool starts unchecked ended cancelled :=
  inv.operates jobs done
    (fun other executions same => absurd same (call.operation_unstarted now pick other executions))
    fun id ends => named id (call.operation_ended store now pick id ends)

theorem eventResults_ids (systemNow : Nat → Time) (invalidJson : String → Option String)
    (event : ExecutorEvent) :
    ∀ id ∈ ServerState.resultIds (eventResults systemNow invalidJson event).1
      (eventResults systemNow invalidJson event).2, id ∈ event.executionIds := by
  intro id member
  cases event with
  | executionSucceeded execution timestamp outputPayloadJson =>
      simp only [eventResults] at member
      cases invalid : invalidJson outputPayloadJson with
      | some error =>
          rw [invalid] at member
          exact member
      | none =>
          rw [invalid] at member
          exact member
  | executionFailed execution timestamp failureReason => exact member
  | executorDisconnected executor =>
      obtain ⟨_, listed, rfl⟩ := List.mem_map.mp member
      obtain ⟨k, inside, rfl⟩ := List.mem_mapIdx.mp listed
      exact List.mem_map_of_mem (List.getElem_mem inside)

namespace ServerState

def endedIds (server : ServerState) : List ExecutionId :=
  server.results.endedIds ++ server.timeouts.endedIds

/-- The executions that a task will still cancel on their executors. -/
def cancelIds (server : ServerState) : List ExecutionId :=
  server.starts.cancelIds ++ server.timeouts.cancelIds ++ server.requests.flatMap Request.cancelIds

def runInvariant (server : ServerState) : Prop :=
  RunInvariant server.store server.pool server.starts server.timeouts.unchecked server.endedIds
      server.cancelIds ∧
    server.timeouts.Tracked

/-- The executions of a request, when it is removed. -/
theorem mem_requests {requests : List Request} {index : Nat} {request : Request}
    (found : requests[index]? = some request) :
    ∀ id ∈ requests.flatMap Request.cancelIds,
      id ∈ request.cancelIds ∨ id ∈ (requests.eraseIdx index).flatMap Request.cancelIds := by
  intro id member
  obtain ⟨bound, same⟩ := List.getElem?_eq_some_iff.mp found
  have split := (List.getElem_cons_eraseIdx_perm bound).symm
  rw [same] at split
  rw [(split.flatMap_right Request.cancelIds).mem_iff, List.flatMap_cons] at member
  exact List.mem_append.mp member

/-- A committed call is followed by a call for fewer executions, or by none. -/
theorem afterCommit_cases {α : Type} (call : RetryCall) (acknowledged : Bool)
    (retry : RetryCall → α) (done : α) :
    (∃ next : RetryCall, afterCommit call call.rest acknowledged retry done = retry next ∧
        ∀ id ∈ next.ids, id ∈ call.ids) ∨
      afterCommit call call.rest acknowledged retry done = done := by
  refine afterCommit_induction (motive := fun loop =>
    (∃ next : RetryCall, loop = retry next ∧ ∀ id ∈ next.ids, id ∈ call.ids) ∨ loop = done)
    ?_ ?_ ?_ acknowledged
  · exact .inl ⟨call, rfl, fun _ member => member⟩
  · exact fun rest left => .inl ⟨rest, rfl, RetryCall.rest_ids left⟩
  · exact .inr rfl

/-- Giving up a call of the timeouts loop leaves what is cancelled as it is. -/
theorem TimeoutsLoop.giveUp_keeps {timeouts after : TimeoutsLoop} (tracked : timeouts.Tracked)
    (given : timeouts.giveUp = some after) :
    after.Tracked ∧ after.cancelIds = timeouts.cancelIds ∧
      (timeouts.unchecked = [] ∧ after.unchecked = []) ∧
      ∀ id ∈ after.endedIds, id ∈ timeouts.endedIds := by
  cases timeouts with
  | timingOut last call ids orphaned =>
      cases given
      have tracked : ∀ id ∈ call.ids, id ∈ ids := tracked
      rcases afterCommit_cases call true (fun call => TimeoutsLoop.timingOut last call ids orphaned)
        (.cancelling last ids orphaned) with ⟨next, same, fewer⟩ | same
      · rw [same]
        exact ⟨fun id member => tracked id (fewer id member), rfl, ⟨rfl, rfl⟩, fun _ member => member⟩
      · rw [same]
        exact ⟨trivial, rfl, ⟨rfl, rfl⟩, fun _ member => member⟩
  | failingOrphaned last call =>
      cases given
      rcases afterCommit_cases call true (fun call => TimeoutsLoop.failingOrphaned last call)
        (.fetching last) with ⟨next, same, fewer⟩ | same
      · rw [same]
        exact ⟨trivial, rfl, ⟨rfl, rfl⟩, fewer⟩
      · rw [same]
        exact ⟨trivial, rfl, ⟨rfl, rfl⟩, by simp [TimeoutsLoop.endedIds]⟩
  | fetching | checking | cancelling => cases given

/-- The results of the events that are taken are about their executions. -/
theorem takenIds (systemNow : Nat → Nat → Time) (invalidJson : String → Option String)
    (events : List ExecutorEvent) :
    let results := events.mapIdx fun k => eventResults (systemNow k) invalidJson
    ∀ id ∈ resultIds (results.flatMap Prod.fst) (results.flatMap Prod.snd),
      id ∈ events.flatMap ExecutorEvent.executionIds := by
  intro results id member
  simp only [resultIds, List.mem_append, List.map_flatMap, List.mem_flatMap] at member
  rcases member with ⟨_, taken, named⟩ | ⟨_, taken, named⟩
  · obtain ⟨k, inside, rfl⟩ := List.mem_mapIdx.mp taken
    exact List.mem_flatMap.mpr ⟨_, List.getElem_mem inside,
      eventResults_ids (systemNow k) invalidJson _ id (List.mem_append_left _ named)⟩
  · obtain ⟨k, inside, rfl⟩ := List.mem_mapIdx.mp taken
    exact List.mem_flatMap.mpr ⟨_, List.getElem_mem inside,
      eventResults_ids (systemNow k) invalidJson _ id (List.mem_append_right _ named)⟩

/-- A checked execution is orphaned only when its executor is gone. -/
theorem orphaned_checkExecution {pool : ExecutorPool} {now : Time} {execution : InProgressExecution}
    {timedOutExecutions orphaned : List MaybeRetryExecution} {id : ExecutionId}
    (member : id ∈ failureIds (checkExecution pool now execution timedOutExecutions orphaned).2) :
    id ∈ failureIds orphaned ∨
      id = execution.executionId ∧ pool.executorExists execution.executorId = false := by
  unfold checkExecution at member
  split at member
  · split at member
    · exact .inl member
    · exact .inl member
  · rename_i gone
    rw [failureIds, List.map_append, List.mem_append] at member
    refine member.imp (fun old => old) fun single => ⟨?_, by simpa using gone⟩
    simpa [failedInProgress] using single

variable {server after : ServerState} {action : Action}

theorem runInvariant_initial : runInvariant initial := by
  refine ⟨⟨?_, List.nodup_nil, ?_, ?_, ?_, List.nodup_nil, rfl, ?_, ?_, ?_, ?_, ?_⟩, trivial⟩ <;>
    simp [initial, ExecutorPool.empty, ExecutorPool.held, ExecutorPool.heldIds,
      ExecutorPool.eventIds, StartsLoop.executions, Store.empty, endedIds, EventsLoop.endedIds,
      TimeoutsLoop.endedIds, TimeoutsLoop.unchecked]

/-- What is cancelled in the backend waits to be cancelled on the executors. -/
theorem runInvariant_cancelJobs (inv : server.runInvariant) (jobs : JobInvariant server.store)
    (now systemNow : Time) (pick : Pick) (filters : JobFilters) :
    (server.cancelJobs now systemNow pick filters).runInvariant := by
  obtain ⟨inv, tracked⟩ := inv
  have applied : (Operation.cancelJobs now systemNow pick filters).apply server.store = some _ :=
    rfl
  have requested : (server.cancelJobs now systemNow pick filters).cancelIds =
      server.cancelIds ++ (Operation.cancelJobs now systemNow pick filters).ended server.store := by
    simp [cancelIds, cancelJobs, Operation.ended, Request.cancelIds]
  refine ⟨?_, tracked⟩
  have waiting : RunInvariant _ _ _ _ _ (server.cancelJobs now systemNow pick filters).cancelIds :=
    inv.mono (fun _ ended => ended) fun id named => by
      rw [requested]
      exact List.mem_append_left _ named
  refine waiting.operates jobs applied (by simp) fun id ended => .inr ?_
  rw [requested]
  exact List.mem_append_right _ ended

end ServerState

/-- A backend call of the starts loop is given up. -/
def Action.givesUp : Action → Bool
  | .giveUp => true
  | _ => false

namespace ServerState

variable {server after : ServerState} {action : Action}

/-- The jobs of stopped schedules are cancelled. -/
theorem runInvariant_cancelStopped {index : Nat} {now systemNow : Time} {pick : Pick}
    (inv : server.runInvariant) (jobs : JobInvariant server.store)
    (done : server.step (.cancelStopped index now systemNow pick) = some after) :
    after.runInvariant := by
  obtain ⟨inv, tracked⟩ := inv
  obtain ⟨schedules, current, rfl⟩ := step_cancelStopped done
  have waiting : runInvariant { server with requests := server.requests.eraseIdx index } := by
    refine ⟨inv.mono (fun _ ended => ended) ?_, tracked⟩
    intro id named
    rcases List.mem_append.mp named with others | requested
    · exact List.mem_append_left _ others
    · refine List.mem_append_right _ ((mem_requests current id requested).resolve_left ?_)
      exact List.not_mem_nil
  exact runInvariant_cancelJobs waiting jobs now systemNow pick _

/-- Named executions are told to stop. -/
theorem runInvariant_cancelRequested {index : Nat}
    (inv : server.runInvariant) (unique : server.pool.heldIds.Nodup)
    (done : server.step (.cancelRequested index) = some after) : after.runInvariant := by
  obtain ⟨inv, tracked⟩ := inv
  obtain ⟨ids, current, rfl⟩ := step_cancelRequested done
  refine ⟨RunInvariant.cancels (inv.mono (fun _ ended => ended) ?_) unique, tracked⟩
  intro id named
  rcases List.mem_append.mp named with others | requested
  · exact List.mem_append_right _ (List.mem_append_left _ others)
  · rcases mem_requests current id requested with now | later
    · exact List.mem_append_left _ now
    · exact List.mem_append_right _ (List.mem_append_right _ later)

/-- The events that are taken are about executions that have ended. -/
theorem runInvariant_takeEvents {count : Nat} {systemNow : Nat → Nat → Time}
    {invalidJson : String → Option String} (inv : server.runInvariant)
    (done : server.step (.takeEvents count systemNow invalidJson) = some after) :
    after.runInvariant := by
  obtain ⟨inv, tracked⟩ := inv
  obtain ⟨current, rfl⟩ := step_takeEvents done
  refine ⟨inv.takesEvents ?_, tracked⟩
  intro id member
  have split := List.take_append_drop count server.pool.events
  have events : ∀ id, id ∈ (server.pool.events.take count).flatMap ExecutorEvent.executionIds ∨
      id ∈ (server.pool.events.drop count).flatMap ExecutorEvent.executionIds ↔
        id ∈ server.pool.eventIds := by
    intro id
    rw [← List.mem_append, ← List.flatMap_append, split, ExecutorPool.eventIds]
  rcases List.mem_append.mp member with left | listed
  · exact List.mem_append_left _ ((events id).mp (.inr left))
  rcases List.mem_append.mp listed with results | others
  · exact List.mem_append_left _ ((events id).mp (.inl (takenIds _ _ _ id results)))
  · exact List.mem_append_right _ (List.mem_append_right _ others)

theorem runInvariant_commitSucceeded {systemNow : Nat → Time} {pick : Pick} {acknowledged : Bool}
    (inv : server.runInvariant) (jobs : JobInvariant server.store)
    (done : server.step (.commitSucceeded systemNow pick acknowledged) = some after) :
    after.runInvariant := by
  obtain ⟨inv, tracked⟩ := inv
  obtain ⟨succeededExecutions, maybeRetryExecutions, current, rfl⟩ := step_commitSucceeded done
  have applied : (Operation.executionsSucceeded pick succeededExecutions).apply server.store =
    some _ := rfl
  refine ⟨(inv.operates jobs applied (by simp) fun id ended => .inl ?_).mono (fun id ended => ?_)
    fun _ named => named, tracked⟩
  · rw [endedIds, current]
    exact List.mem_append_left _ (List.mem_append_left _ ended)
  · rw [endedIds, current]
    refine (List.mem_append.mp ended).elim (fun results => List.mem_append_left _ ?_)
      (List.mem_append_right _)
    cases acknowledged with
    | false => exact results
    | true => exact List.mem_append_right _ (RetryCall.retryExecutions_ids _ _ id results)

theorem runInvariant_commitResults {now : Time} {pick : Pick} {acknowledged : Bool}
    (inv : server.runInvariant) (jobs : JobInvariant server.store)
    (done : server.step (.commitResults now pick acknowledged) = some after) :
    after.runInvariant := by
  obtain ⟨inv, tracked⟩ := inv
  obtain ⟨call, store, current, applied, rfl⟩ := step_commitResults done
  have operated := inv.retries jobs applied fun id named => .inl (by
    rw [endedIds, current]
    exact List.mem_append_left _ named)
  refine ⟨operated.mono (fun id ended => ?_) fun _ named => named, tracked⟩
  rw [endedIds, current]
  refine (List.mem_append.mp ended).elim (fun results => List.mem_append_left _ ?_)
    (List.mem_append_right _)
  rcases afterCommit_cases call acknowledged EventsLoop.retrying .idle with
    ⟨next, same, fewer⟩ | same
  · rw [same] at results
    exact fewer id results
  · rw [same] at results
    cases results

theorem runInvariant_startTimingOut {systemNow : Nat → Time}
    (inv : server.runInvariant) (done : server.step (.startTimingOut systemNow) = some after) :
    after.runInvariant := by
  obtain ⟨inv, tracked⟩ := inv
  obtain ⟨last, now, timedOutExecutions, orphaned, current, rfl⟩ := step_startTimingOut done
  rw [endedIds, cancelIds, current] at inv
  refine ⟨inv.mono (fun _ ended => ended) ?_, RetryCall.retryExecutions_ids systemNow _⟩
  intro id named
  have named : id ∈ server.starts.cancelIds ++ [] ++
    server.requests.flatMap Request.cancelIds := named
  rw [List.append_nil] at named
  exact (List.mem_append.mp named).elim
    (fun starts => List.mem_append_left _ (List.mem_append_left _ starts))
    (List.mem_append_right _)

/-- What has timed out waits to be cancelled on its executor. -/
theorem runInvariant_commitTimedOut {now : Time} {pick : Pick} {acknowledged : Bool}
    (inv : server.runInvariant) (jobs : JobInvariant server.store)
    (done : server.step (.commitTimedOut now pick acknowledged) = some after) :
    after.runInvariant := by
  obtain ⟨inv, tracked⟩ := inv
  obtain ⟨last, call, ids, orphaned, store, current, applied, rfl⟩ := step_commitTimedOut done
  rw [endedIds, cancelIds, current] at inv
  rw [current] at tracked
  have tracked : ∀ id ∈ call.ids, id ∈ ids := tracked
  have operated := inv.retries jobs applied fun id named => .inr
    (List.mem_append_left _ (List.mem_append_right _ (tracked id named)))
  unfold runInvariant endedIds cancelIds
  rcases afterCommit_cases call acknowledged
    (fun call => TimeoutsLoop.timingOut last call ids orphaned) (.cancelling last ids orphaned)
    with ⟨next, same, fewer⟩ | same
  · rw [same]
    exact ⟨operated, fun id member => tracked id (fewer id member)⟩
  · rw [same]
    exact ⟨operated, trivial⟩

theorem runInvariant_cancelTimedOut {systemNow : Nat → Time}
    (inv : server.runInvariant) (unique : server.pool.heldIds.Nodup)
    (done : server.step (.cancelTimedOut systemNow) = some after) : after.runInvariant := by
  obtain ⟨inv, tracked⟩ := inv
  obtain ⟨last, ids, orphaned, current, rfl⟩ := step_cancelTimedOut done
  rw [endedIds, cancelIds, current] at inv
  have waiting : RunInvariant _ _ _ _ _ (ids ++ (server.starts.cancelIds ++
      server.requests.flatMap Request.cancelIds)) := inv.mono (fun _ ended => ended) ?_
  · refine ⟨((waiting.cancels unique).mono ?_ ?_), trivial⟩
    · intro id ended
      refine (List.mem_append.mp ended).elim (List.mem_append_left _) fun orphan => ?_
      exact List.mem_append_right _ (RetryCall.retryExecutions_ids systemNow _ id orphan)
    · simp [cancelIds, TimeoutsLoop.cancelIds]
  · intro id named
    simp only [TimeoutsLoop.cancelIds, List.mem_append] at named ⊢
    rcases named with (starts | timedOut) | requested
    · exact .inr (.inl starts)
    · exact .inl timedOut
    · exact .inr (.inr requested)

theorem runInvariant_commitOrphaned {now : Time} {pick : Pick} {acknowledged : Bool}
    (inv : server.runInvariant) (jobs : JobInvariant server.store)
    (done : server.step (.commitOrphaned now pick acknowledged) = some after) :
    after.runInvariant := by
  obtain ⟨inv, tracked⟩ := inv
  obtain ⟨last, call, store, current, applied, rfl⟩ := step_commitOrphaned done
  rw [endedIds, cancelIds, current] at inv
  have operated := inv.retries jobs applied fun _ named =>
    .inl (List.mem_append_right _ named)
  unfold runInvariant endedIds cancelIds
  rcases afterCommit_cases call acknowledged
    (fun call => TimeoutsLoop.failingOrphaned last call) (.fetching last)
    with ⟨next, same, fewer⟩ | same
  · rw [same]
    refine ⟨operated.mono (fun id ended => ?_) fun _ named => named, trivial⟩
    exact (List.mem_append.mp ended).elim (List.mem_append_left _)
      fun orphan => List.mem_append_right _ (fewer id orphan)
  · rw [same]
    refine ⟨operated.mono (fun id ended => ?_) fun _ named => named, trivial⟩
    exact (List.mem_append.mp ended).elim (List.mem_append_left _) fun none => by cases none

/-- The executions that timed out are cancelled although they are not failed. -/
theorem runInvariant_giveUpTimeouts (inv : server.runInvariant)
    (done : server.step .giveUpTimeouts = some after) : after.runInvariant := by
  obtain ⟨inv, tracked⟩ := inv
  obtain ⟨timeouts, given, rfl⟩ := step_giveUpTimeouts done
  obtain ⟨tracks, cancels, none, ends⟩ := TimeoutsLoop.giveUp_keeps tracked given
  refine ⟨?_, tracks⟩
  rw [none.2, ← none.1]
  refine inv.mono (fun id ended => ?_) fun id named => ?_
  · exact (List.mem_append.mp ended).elim (List.mem_append_left _)
      fun left => List.mem_append_right _ (ends id left)
  · rw [cancelIds] at named ⊢
    rwa [cancels]

theorem runInvariant_step (inv : server.runInvariant) (offers : server.offerInvariant)
    (jobs : JobInvariant server.store) (kept : action.givesUp = false)
    (done : server.step action = some after) : after.runInvariant := by
  have unique : server.pool.heldIds.Nodup := offers.queues.unique
  obtain ⟨inv, tracked⟩ := inv
  have released : ∀ {removed pool}, server.pool.Releases removed pool →
      RunInvariant server.store pool server.starts server.timeouts.unchecked server.endedIds
        server.cancelIds := fun effect => inv.releases unique effect
  cases action with
  | tick elapsed =>
      cases done
      exact ⟨inv, tracked⟩
  | connect =>
      cases done
      exact ⟨inv.connects, tracked⟩
  | message executor systemNow message =>
      cases done
      rcases server.pool.executorMessage_cases server.now systemNow executor message with
        ⟨_, effect⟩ | ⟨_, _, effect⟩
      · exact ⟨released effect, tracked⟩
      · exact ⟨inv.accepts unique effect, tracked⟩
  | checkOffers executor =>
      cases done
      obtain ⟨_, _, effect⟩ :=
        server.pool.withdrawOffers_releases executor (some server.now) server.now
      exact ⟨released effect, tracked⟩
  | disconnect executor =>
      cases done
      obtain ⟨_, effect⟩ := server.pool.dropExecutor_releases executor
      exact ⟨released effect, tracked⟩
  | closeOutbound executor =>
      cases done
      have effect := server.pool.closeOutbound_releases executor
      exact ⟨released effect, tracked⟩
  | addJobs now pick newJobs ifNotExists =>
      obtain ⟨store, applied, rfl⟩ := step_addJobs done
      exact ⟨inv.operates_quietly jobs applied (by simp) rfl, tracked⟩
  | addSchedules now schedules ifNotExists =>
      obtain ⟨store, applied, rfl⟩ := step_addSchedules done
      exact ⟨inv.operates_quietly jobs applied (by simp) rfl, tracked⟩
  | deleteHistory deleteBatchSize before =>
      cases done
      have applied : (Operation.deleteHistory deleteBatchSize before).apply server.store = some _ :=
        rfl
      exact ⟨inv.operates_quietly jobs applied (by simp) rfl, tracked⟩
  | cancelJobs now systemNow pick filters =>
      cases done
      exact runInvariant_cancelJobs ⟨inv, tracked⟩ jobs now systemNow pick filters
  | stopSchedules now filters cancelActiveJobs =>
      cases done
      have applied : (Operation.stopSchedules now filters).apply server.store = some _ := rfl
      refine ⟨(inv.operates_quietly jobs applied (by simp) rfl).mono (fun _ ended => ended) ?_,
        tracked⟩
      intro id named
      cases cancelActiveJobs with
      | false => exact named
      | true => simpa [cancelIds, Request.cancelIds] using named
  | cancelStopped index now systemNow pick =>
      exact runInvariant_cancelStopped ⟨inv, tracked⟩ jobs done
  | cancelRequested index =>
      exact runInvariant_cancelRequested ⟨inv, tracked⟩ unique done
  | startPass =>
      obtain ⟨_, rfl⟩ := step_startPass done
      exact ⟨inv, tracked⟩
  | readClock =>
      obtain ⟨_, _, _, rfl⟩ := step_readClock done
      exact ⟨inv, tracked⟩
  | fetchReady now =>
      obtain ⟨_, _, _, _, rfl⟩ := step_fetchReady done
      exact ⟨inv, tracked⟩
  | fetchFails =>
      obtain ⟨_, _, _, _, rfl⟩ := step_fetchFails done
      exact ⟨inv, tracked⟩
  | checkCapacity =>
      obtain ⟨_, _, _, rfl⟩ := step_checkCapacity done
      exact ⟨inv, tracked⟩
  | offer systemNow pick =>
      obtain ⟨ignored, fetchedAt, batch, current, rfl⟩ := step_offer done
      have offers : OfferInvariant server.store server.now server.nextExecutor server.pool
        server.ready server.starts := offers
      rw [current] at offers
      exact ⟨inv.offersBatch offers systemNow pick, tracked⟩
  | takeStarts count =>
      obtain ⟨current, rfl⟩ := step_takeStarts done
      refine ⟨?_, tracked⟩
      rw [cancelIds, current] at inv
      exact inv.takesStarts count
  | commitStarts pick acknowledged =>
      obtain ⟨executions, current, rfl⟩ := step_commitStarts done
      refine ⟨?_, tracked⟩
      have issued := offers.accepted
      rw [cancelIds, current] at inv
      rw [current] at issued
      cases acknowledged with
      | false => exact inv.commits jobs pick
      | true =>
          exact inv.acknowledges jobs fun execution member =>
            issued execution (List.mem_append_right _ member)
  | recordStarts =>
      obtain ⟨executions, returned, current, rfl⟩ := step_recordStarts done
      refine ⟨?_, tracked⟩
      rw [cancelIds, current] at inv
      refine (inv.records server.now).mono (fun _ ended => ended) fun id named => ?_
      simpa [cancelIds, ServerState.recordStarts, StartsLoop.cancelIds] using named
  | cancelNotStarted =>
      obtain ⟨ids, current, rfl⟩ := step_cancelNotStarted done
      refine ⟨?_, tracked⟩
      rw [cancelIds, current, List.append_assoc] at inv
      exact (inv.cancels unique).idles rfl
  | giveUp => cases kept
  | cancelGivenUp =>
      obtain ⟨ids, current, rfl⟩ := step_cancelGivenUp done
      have settled := inv.kept
      rw [current] at settled
      cases settled
  | forget =>
      obtain ⟨ids, current, rfl⟩ := step_forget done
      have settled := inv.kept
      rw [current] at settled
      cases settled
  | takeEvents count systemNow invalidJson =>
      exact runInvariant_takeEvents ⟨inv, tracked⟩ done
  | stopWaiting =>
      obtain ⟨_, _, _, current, rfl⟩ := step_stopWaiting done
      refine ⟨inv.mono (fun id ended => ?_) fun _ named => named, tracked⟩
      rw [endedIds, current]
      exact ended
  | commitSucceeded systemNow pick acknowledged =>
      exact runInvariant_commitSucceeded ⟨inv, tracked⟩ jobs done
  | commitResults now pick acknowledged =>
      exact runInvariant_commitResults ⟨inv, tracked⟩ jobs done
  | fetchInProgress systemNow =>
      obtain ⟨last, current, rfl | rfl⟩ := step_fetchInProgress done
      · rw [endedIds, cancelIds, current] at inv
        exact ⟨inv, trivial⟩
      · rw [endedIds, cancelIds, current] at inv
        exact ⟨inv.fetchesInProgress, trivial⟩
  | checkInProgress =>
      obtain ⟨last, now, execution, unchecked, timedOutExecutions, orphaned, current, rfl⟩ :=
        step_checkInProgress done
      rw [endedIds, cancelIds, current] at inv
      refine ⟨inv.checksNext ?_, trivial⟩
      intro id member
      rcases List.mem_append.mp member with results | listed
      · exact .inl (List.mem_append_left _ results)
      rcases orphaned_checkExecution listed with old | new
      · exact .inl (List.mem_append_right _ old)
      · exact .inr new
  | startTimingOut systemNow =>
      exact runInvariant_startTimingOut ⟨inv, tracked⟩ done
  | commitTimedOut now pick acknowledged =>
      exact runInvariant_commitTimedOut ⟨inv, tracked⟩ jobs done
  | cancelTimedOut systemNow =>
      exact runInvariant_cancelTimedOut ⟨inv, tracked⟩ unique done
  | commitOrphaned now pick acknowledged =>
      exact runInvariant_commitOrphaned ⟨inv, tracked⟩ jobs done
  | fetchInProgressFails =>
      obtain ⟨last, current, rfl⟩ := step_fetchInProgressFails done
      rw [endedIds, cancelIds, current] at inv
      exact ⟨inv, trivial⟩
  | giveUpTimeouts =>
      exact runInvariant_giveUpTimeouts ⟨inv, tracked⟩ done

end ServerState

/-- What an executor was assigned is accounted for. -/
def AllAccounted (server : ServerState) : Prop :=
  ∀ executor ∈ server.pool.executors, ∀ execution ∈ executor.assignedExecutions,
    Accounted server.store (server.pool.accepted ++ server.starts.executions) server.cancelIds
      executor.id execution.executionId

/-- With nothing left to be started or cancelled, assigned executions run. -/
theorem AllAccounted.runs {server : ServerState} (accounted : AllAccounted server)
    (none : server.pool.accepted = []) (started : server.starts.executions = [])
    (settled : server.cancelIds = []) {executor : Executor} {execution : ExecutorExecution}
    (present : executor ∈ server.pool.executors)
    (assigned : execution ∈ executor.assignedExecutions) :
    Runs server.store executor.id execution.executionId := by
  have known := accounted executor present execution assigned
  rw [none, started, settled] at known
  cases known with
  | starting start listed same => cases listed
  | running runs => exact runs
  | cancelling named ended => cases named

structure AssignedInvariant (server : ServerState) : Prop where
  budget : BudgetInvariant server
  runs : server.runInvariant

theorem AssignedInvariant.step {server after : ServerState} {action : Action}
    (inv : AssignedInvariant server) (once : action.retriesOnce server)
    (kept : action.givesUp = false) (done : server.step action = some after) :
    AssignedInvariant after where
  budget := inv.budget.step once done
  runs := ServerState.runInvariant_step inv.runs inv.budget.offers inv.budget.jobs kept done

theorem assignedInvariant_of_reaches {server : ServerState}
    (run : Reaches ServerState.step
      (fun server action => action.retriesOnce server ∧ action.givesUp = false)
      .initial server) : AssignedInvariant server :=
  run.invariant (fun _ _ _ inv allowed done => inv.step allowed.1 allowed.2 done)
    ⟨.initial, ServerState.runInvariant_initial⟩

/-- In every run whose batches retry a job through one entry and that gives up
no call, an assigned execution is accounted for: when nothing is left to be
started or cancelled, it is in progress on its executor. -/
theorem assigned_accounted {server : ServerState}
    (run : Reaches ServerState.step
      (fun server action => action.retriesOnce server ∧ action.givesUp = false)
      .initial server) :
    AllAccounted server ∧
      (server.pool.accepted = [] → server.starts.executions = [] → server.cancelIds = [] →
        ∀ executor ∈ server.pool.executors, ∀ execution ∈ executor.assignedExecutions,
          Runs server.store executor.id execution.executionId) := by
  have inv := (assignedInvariant_of_reaches run).runs.1
  have accounted : AllAccounted server := by
    intro executor present execution assigned
    obtain ⟨member, isAccepted⟩ := List.mem_filter.mp assigned
    have held : (executor.id, execution) ∈ server.pool.held :=
      List.mem_flatMap.mpr ⟨executor, present, List.mem_map_of_mem member⟩
    refine (inv.accounted _ held isAccepted).mono ?_ fun _ named => named
    intro start listed
    refine (List.mem_append.mp listed).elim (List.mem_append_left _) fun unsettled => ?_
    exact List.mem_append_right _ (server.starts.unsettled_subset start unsettled)
  exact ⟨accounted, fun none started settled executor present execution assigned =>
    accounted.runs none started settled present assigned⟩

/-- Both executions of the job start on an executor each, then the job is
cancelled. -/
def cancelBoth : List Action :=
  [.connect, .message 2 3 (.capabilities false (some [("type", 2)])), .startPass, .readClock,
    .fetchReady 3, .offer 3 fun id => id, .takeStarts 2, .commitStarts (fun _ => 0) true,
    .recordStarts, .cancelJobs 3 3 (fun _ => 0) {}, .cancelRequested 0]

/-- An executor runs the only execution of a job. -/
theorem assigned_accounted_startAccepted :
    ∃ server, Reaches ServerState.step
        (fun server action => action.retriesOnce server ∧ action.givesUp = false)
        .initial server ∧
      (server.pool.executors.map fun executor => executor.assignedExecutions.length) = [1] ∧
      AllAccounted server := by
  obtain ⟨server, run, count⟩ := exists_reaches_of_execute ServerState.step
    (fun server action => action.retriesOnce server ∧ action.givesUp = false) .initial
    (assigned ++ startAccepted)
    (fun server => (server.pool.executors.map fun executor => executor.assignedExecutions.length)
      == [1]) (by decide)
  exact ⟨server, run, by simpa using count, (assigned_accounted run).1⟩

/-- Nothing is left to be done, and an executor runs what is not in progress. -/
def leftRunning (server : ServerState) : Bool :=
  server.pool.accepted.isEmpty && server.starts.executions.isEmpty && server.cancelIds.isEmpty &&
    server.pool.executors.any fun executor => executor.assignedExecutions.any fun execution =>
      server.store.executions.rows.all fun row =>
        row.id != execution.executionId || row.status != .inProgress

theorem AllAccounted.not_leftRunning {server : ServerState} (accounted : AllAccounted server) :
    leftRunning server = false := by
  rw [Bool.eq_false_iff]
  intro left
  simp only [leftRunning, Bool.and_eq_true, List.isEmpty_iff, List.any_eq_true, List.all_eq_true]
    at left
  obtain ⟨⟨⟨none, started⟩, settled⟩, executor, present, execution, assigned, idle⟩ := left
  obtain ⟨row, member, same, inProgress, _⟩ := accounted.runs none started settled present assigned
  have other := idle row member
  simp [same, inProgress] at other

theorem cancelBoth_leaves_one_running :
    ¬∀ server, Reaches ServerState.step (fun _ action => action.givesUp = false) .initial server →
      AllAccounted server := by
  intro claim
  obtain ⟨server, run, left⟩ := exists_reaches_of_execute ServerState.step
    (fun _ action => action.givesUp = false) .initial (retriedInOneBatch ++ cancelBoth) leftRunning
    (by decide)
  rw [(claim server run).not_leftRunning] at left
  cases left

end Ora.Server
