import Ora.Postgres.Fetch
import Ora.Postgres.Running

/-!
# Executions in progress, batch by batch

A batch leaves out only executions that come after its last one, since every
execution in progress has an executor.  An execution that is in progress stays
so on its executor or is over for good.
-/

namespace Ora.Postgres

open Ora.Backend
open Ora.Library

/-- What does not fit into the first part of a sorted list comes after its last element. -/
theorem getLast?_of_left_out {α : Type} {relation : α → α → Prop} {list : List α} {count : Nat}
    (positive : 0 < count) (sorted : list.Pairwise relation) {x : α} (member : x ∈ list)
    (absent : x ∉ list.take count) : ∃ final ∈ (list.take count).getLast?, relation final x := by
  rw [← List.take_append_drop count list] at member sorted
  have dropped := (List.mem_append.mp member).resolve_left absent
  have nonempty : list.take count ≠ [] := by
    intro empty
    obtain zero | nothing := List.take_eq_nil_iff.mp empty
    · exact absurd zero (Nat.ne_of_gt positive)
    · rw [nothing, List.drop_nil] at dropped
      cases dropped
  refine ⟨_, List.getLast?_eq_getLast_of_ne_nil nonempty, ?_⟩
  exact (List.pairwise_append.mp sorted).2.2 _ (List.getLast_mem nonempty) _ dropped

variable {store after : Store}

/-- Executions in progress have an executor. -/
def Assigned (store : Store) : Prop :=
  ∀ row ∈ store.executions.rows, row.status = .inProgress → ∃ executorId, row.executorId = some executorId

theorem Assigned.step {operation : Operation} (assigned : Assigned store)
    (done : operation.apply store = some after) : Assigned after := by
  intro row member inProgress
  obtain old | ⟨_, _, _, execution, _, _, executor⟩ := inProgress_before done member inProgress
  · exact assigned row old inProgress
  · exact ⟨execution.executorId, executor⟩

/-- An execution in progress stays so, on the same executor, or is over. -/
theorem Runs.stays {executorId : ExecutorId} {id : ExecutionId} {operation : Operation}
    (runs : Runs store executorId id) (issued : Issued store)
    (done : operation.apply store = some after) :
    Runs after executorId id ∨ NotActive after id := by
  have evolves := Evolves.of_apply done
  obtain ⟨row, member, rfl, inProgress, executor⟩ := runs
  have known := issued.executions row member
  by_cases active : ∃ later ∈ after.executions.rows, later.id = row.id ∧ later.active = true
  · obtain ⟨later, present, same, active⟩ := active
    left
    -- the only row with this identifier was not pending, so it still is in progress
    obtain ⟨before, beforeMember, succeeds⟩ := evolves.exists_before present (same ▸ known)
    cases store.executions.eq_of_key beforeMember member (succeeds.id.symm.trans same)
    have status : later.status = .inProgress := by
      refine ((ExecutionRow.active_iff_status later).mp active).resolve_left fun pending => ?_
      have before := succeeds.pending pending
      rw [inProgress] at before
      cases before
    obtain old | ⟨pick, executions, rfl, _⟩ := inProgress_before done present status
    · cases store.executions.eq_of_key old member same
      exact ⟨row, present, rfl, inProgress, executor⟩
    · cases done
      exact Runs.starts ⟨row, member, rfl, inProgress, executor⟩
        (executionsStarted_starts store pick executions)
  · refine .inr ⟨Nat.lt_of_lt_of_le known evolves.next, fun later present same => ?_⟩
    rw [Bool.eq_false_iff]
    exact fun isActive => active ⟨later, present, same, isActive⟩

/-- Executions that are named by a change are over afterwards. -/
theorem notActive_of_named {σ : Type} {status : ExecutionStatus} {executionId : σ → ExecutionId}
    {set : ExecutionRow → σ → ExecutionRow} {source : List σ} {pick : Pick}
    {added : List ExecutionRow} {id : ExecutionId} (final : FinalAssignment status set)
    (next : store.nextUuid ≤ after.nextUuid) (known : id < store.nextUuid)
    (executions : after.executions.rows =
      store.executions.rows.map (finishRow executionId set source pick) ++ added)
    (fresh : ∀ row ∈ added, store.nextUuid ≤ row.id) (named : id ∈ source.map executionId) :
    NotActive after id where
  issued := Nat.lt_of_lt_of_le known next
  active row member same := by
    rw [executions, List.mem_append, List.mem_map] at member
    obtain ⟨before, _, rfl⟩ | new := member
    · rw [(finishRow_finish final before).id_eq] at same
      cases active : before.active with
      | false =>
          rw [(finishRow_finish final before).eq_of_not_active active]
          exact active
      | true =>
          rw [← same] at named
          exact finishRow_of_named final active (List.mem_map.mp named)
    · exact absurd known (Nat.not_lt.mpr (same ▸ fresh row new))

theorem executionsFailed_notActive {pick : Pick} {executions : List FailedExecution}
    {id : ExecutionId} (known : id < store.nextUuid)
    (named : id ∈ executions.map FailedExecution.executionId) :
    NotActive (PostgresBackend.executionsFailed store pick executions) id := by
  obtain ⟨_, _, effect⟩ := executionsFailed_finishes store pick executions
  exact notActive_of_named setFailed_final effect.nextUuid.ge known
    (effect.executions.trans (List.append_nil _).symm) (by simp) named

theorem executionsRetried_notActive {now : Time} {pick : Pick} {executions : List RetriedExecution}
    {id : ExecutionId} (done : PostgresBackend.executionsRetried store now pick executions = some after)
    (known : id < store.nextUuid)
    (named : id ∈ executions.map fun execution => execution.failedExecution.executionId) :
    NotActive after id := by
  obtain ⟨_, effect⟩ := executionsRetried_retries done
  refine notActive_of_named setFailed_final (effect.nextUuid ▸ Nat.le_add_right ..) known
    effect.executions (fun row member => (effect.fresh member).1) ?_
  rwa [List.map_map]

namespace PostgresBackend

/-- The executions in progress after the given one, with their jobs. -/
def allInProgress (store : Store) (last : Option ExecutionId) : List (ExecutionRow × JobRow) :=
  ((executionsWithJobs store).filter fun entry =>
    entry.1.status == .inProgress &&
      last.all fun last => decide (last < entry.1.id)).insertionSort fun first second =>
        first.1.id ≤ second.1.id

theorem allInProgress_sorted (last : Option ExecutionId) :
    (allInProgress store last).Pairwise fun first second => first.1.id < second.1.id := by
  let before (first second : ExecutionRow × JobRow) : Prop := first.1.id ≤ second.1.id
  have total : Std.Total before := ⟨fun first second => Nat.le_total ..⟩
  have transitive : IsTrans (ExecutionRow × JobRow) before := ⟨fun _ _ _ => Nat.le_trans⟩
  have sorted := List.pairwise_insertionSort before ((executionsWithJobs store).filter fun entry =>
    entry.1.status == .inProgress && last.all fun last => decide (last < entry.1.id))
  have distinct : ((allInProgress store last).map fun entry => entry.1.id).Nodup :=
    ((List.perm_insertionSort _ _).map _).nodup_iff.mpr
      (executionsWithJobs_nodup.sublist (List.filter_sublist.map _))
  exact (sorted.and (List.pairwise_map.mp distinct)).imp fun ⟨ordered, other⟩ =>
    Nat.lt_of_le_of_ne ordered other

theorem mem_allInProgress {last : Option ExecutionId} {entry : ExecutionRow × JobRow} :
    entry ∈ allInProgress store last ↔ entry.1 ∈ store.executions.rows ∧
      entry.2 ∈ store.jobs.rows ∧ entry.2.id = entry.1.jobId ∧ entry.1.status = .inProgress ∧
      ∀ previous ∈ last, previous < entry.1.id := by
  rw [allInProgress, List.mem_insertionSort, List.mem_filter, mem_executionsWithJobs]
  simp [Option.all_eq_true, and_assoc]

/-- A batch of executions that all have an executor. -/
theorem inProgressExecutions_eq (assigned : Assigned store) (last : Option ExecutionId) :
    inProgressExecutions store last = ((allInProgress store last).take batchLimit).map fun entry =>
      inProgressExecution store (entry.1.executorId.getD 0) entry := by
  rw [← List.filterMap_eq_map]
  refine List.filterMap_congr fun entry taken => ?_
  obtain ⟨member, _, _, inProgress, _⟩ := mem_allInProgress.mp (List.mem_of_mem_take taken)
  obtain ⟨executorId, executor⟩ := assigned entry.1 member inProgress
  simp [executor]

/-- An execution in progress after the last one is in the batch or after it. -/
theorem inProgressExecutions_complete {last : Option ExecutionId} {row : ExecutionRow}
    (assigned : Assigned store) (member : row ∈ store.executions.rows)
    (inProgress : row.status = .inProgress) (ahead : ∀ previous ∈ last, previous < row.id) :
    (∃ execution ∈ inProgressExecutions store last, ∃ job ∈ store.jobs.rows,
      job.id = row.jobId ∧ row.executorId = some execution.executorId ∧
      execution = inProgressExecution store execution.executorId (row, job)) ∨
    ∃ final ∈ (inProgressExecutions store last).getLast?, final.executionId < row.id := by
  obtain ⟨job, present, same⟩ := store.execution_job row member
  obtain ⟨executorId, executor⟩ := assigned row member inProgress
  have listed : (row, job) ∈ allInProgress store last :=
    mem_allInProgress.mpr ⟨member, present, same, inProgress, ahead⟩
  rw [inProgressExecutions_eq assigned]
  by_cases taken : (row, job) ∈ (allInProgress store last).take batchLimit
  · refine .inl ⟨_, List.mem_map_of_mem taken, job, present, same, ?_⟩
    simp [inProgressExecution, executor]
  · obtain ⟨final, isLast, before⟩ := getLast?_of_left_out (show 0 < batchLimit by decide)
      (allInProgress_sorted last) listed taken
    refine .inr ⟨inProgressExecution store (final.1.executorId.getD 0) final, ?_, before⟩
    rw [List.getLast?_map, Option.mem_map]
    exact ⟨final, isLast, rfl⟩

end PostgresBackend

end Ora.Postgres
