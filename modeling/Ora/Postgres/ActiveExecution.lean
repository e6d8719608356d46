import Ora.Postgres.JobInvariant

/-!
# One active execution per job

A job has one active execution until it becomes inactive and none afterwards,
provided that a job is not retried through several entries of one batch.
`executions_retried` selects the new executions by their job, so that a stale
entry next to a live one adds an execution of its own.
-/

namespace Ora.Postgres

open Ora.Backend
open Ora.Library

/-- The executions of a job with `status < 2`. -/
def activeExecutions (store : Store) (id : JobId) : List ExecutionRow :=
  store.executions.rows.filter fun row => row.jobId == id && row.active

/-- Each job has at most one active execution, and exactly one while it is active. -/
def OneActiveExecution (store : Store) : Prop :=
  ∀ job ∈ store.jobs.rows, (activeExecutions store job.id).length ≤ 1 ∧
    (job.inactiveSince = none ↔ (activeExecutions store job.id).length = 1)

instance (store : Store) : Decidable (OneActiveExecution store) :=
  inferInstanceAs (Decidable (∀ job ∈ store.jobs.rows,
    (activeExecutions store job.id).length ≤ 1 ∧
      (job.inactiveSince = none ↔ (activeExecutions store job.id).length = 1)))

theorem mem_activeExecutions (store : Store) (id : JobId) (row : ExecutionRow) :
    row ∈ activeExecutions store id ↔
      row ∈ store.executions.rows ∧ row.jobId = id ∧ row.active = true := by
  simp [activeExecutions]

/-- A list without repetition whose elements are equal has at most one. -/
theorem length_le_one {α : Type} {rows : List α} (distinct : rows.Nodup)
    (equal : ∀ first ∈ rows, ∀ second ∈ rows, first = second) : rows.length ≤ 1 := by
  match rows with
  | [] => exact Nat.zero_le 1
  | [_] => exact Nat.le_refl 1
  | first :: second :: rest =>
      have different := (List.nodup_cons.mp distinct).1
      rw [equal first (by simp) second (by simp)] at different
      simp at different

theorem JobInvariant.oneActiveExecution {store : Store} (inv : JobInvariant store) :
    OneActiveExecution store := by
  intro job member
  have bound : (activeExecutions store job.id).length ≤ 1 := by
    refine length_le_one (store.executions.unique.of_map.filter _) ?_
    intro first hfirst second hsecond
    obtain ⟨firstMember, firstSame, firstActive⟩ := (mem_activeExecutions ..).mp hfirst
    obtain ⟨secondMember, secondSame, secondActive⟩ := (mem_activeExecutions ..).mp hsecond
    exact inv.active_unique firstMember secondMember firstActive secondActive
      (firstSame.trans secondSame.symm)
  refine ⟨bound, ?_⟩
  rw [inv.running job member]
  constructor
  · rintro ⟨row, present, same, active⟩
    have positive := List.length_pos_of_mem
      ((mem_activeExecutions store job.id row).mpr ⟨present, same, active⟩)
    exact Nat.le_antisymm bound positive
  · intro one
    obtain ⟨row, only⟩ := List.length_eq_one_iff.mp one
    have member : row ∈ activeExecutions store job.id := by simp [only]
    exact ⟨row, (mem_activeExecutions ..).mp member⟩

/-- The executions of a job that a call has created. -/
def createdExecutions (store after : Store) (id : JobId) : List ExecutionRow :=
  after.executions.rows.filter fun row =>
    row.jobId == id && !(store.executions.rows.any fun known => known.id == row.id)

section Retried

variable {store after : Store} {now : Time} {pick : Pick} {executions : List RetriedExecution}
  {added : List ExecutionRow}

theorem Retries.createdExecutions_eq (inv : JobInvariant store)
    {change : ExecutionRow → ExecutionRow} (effect : Retries executions change added store after)
    (id : JobId) :
    createdExecutions store after id = added.filter fun row => row.jobId == id := by
  unfold createdExecutions
  rw [effect.executions, List.filter_append]
  have old : (store.executions.rows.map change).filter (fun row =>
      row.jobId == id && !(store.executions.rows.any fun known => known.id == row.id)) = [] := by
    simp only [List.filter_eq_nil_iff, List.forall_mem_map]
    intro row member
    have known : (store.executions.rows.any fun known => known.id == (change row).id) = true := by
      rw [List.any_eq_true]
      exact ⟨row, member, by rw [(effect.execution row).id_eq]; exact beq_self_eq_true _⟩
    simp [known]
  rw [old, List.nil_append]
  refine List.filter_congr fun row member => ?_
  have unknown : (store.executions.rows.any fun known => known.id == row.id) = false := by
    rw [List.any_eq_false]
    intro known present same
    have before := inv.issuedExecutions known present
    rw [beq_iff_eq.mp same] at before
    exact Nat.not_lt.mpr (effect.fresh member).1 before
  simp [unknown]

/-- Two entries for a job whose active execution one of them names leave it
with two active executions. -/
theorem Retries.not_oneActiveExecution
    (effect : Retries executions (retryRow pick executions) added store after)
    (twice : ¬RetriesOnce store executions) : ¬OneActiveExecution after := by
  intro one
  refine twice (effect.once_iff.mp ?_)
  rw [List.nodup_iff_count_le_one]
  intro id
  by_cases present : id ∈ added.map ExecutionRow.jobId
  · obtain ⟨row, member, rfl⟩ := List.mem_map.mp present
    obtain ⟨job, jobMember, same⟩ := after.execution_job row
      (by rw [effect.executions]; exact List.mem_append_right _ member)
    have bound := (one job jobMember).1
    rw [same] at bound
    refine Nat.le_trans ?_ bound
    have counted : (added.filter fun other => other.jobId == row.jobId && other.active).length =
        (added.map ExecutionRow.jobId).count row.jobId := by
      rw [List.count, List.countP_map, ← List.countP_eq_length_filter]
      refine List.countP_congr fun other otherMember => ?_
      have active := (ExecutionRow.active_iff_status other).mpr
        (.inl (effect.pending other otherMember))
      simp [active]
    rw [← counted, activeExecutions, effect.executions, List.filter_append, List.length_append]
    exact Nat.le_add_left ..
  · rw [List.count_eq_zero_of_not_mem present]
    exact Nat.zero_le 1

end Retried

/-- In every run whose batches retry a job through one entry, each job has at
most one active execution, and one as long as it is active.  A further call of
`executions_retried` keeps this exactly when it meets the condition; it creates
then at most one execution for a job, and only if the job's active execution
was failed by the call. -/
theorem one_active_execution {store : Store}
    (run : Reaches Operation.apply (fun store operation => operation.retriesSound store)
      Store.empty store) :
    OneActiveExecution store ∧
      ∀ now pick executions after,
        CarriesJobs store (executions.map fun execution => execution.failedExecution) →
        PostgresBackend.executionsRetried store now pick executions = some after →
        (OneActiveExecution after ↔ RetriesOnce store executions) ∧
        (RetriesOnce store executions → ∀ id,
          (createdExecutions store after id).length ≤ 1 ∧
          (createdExecutions store after id ≠ [] →
            ∃ row ∈ store.executions.rows, row.jobId = id ∧ row.active = true ∧
              ∃ failed ∈ after.executions.rows, failed.id = row.id ∧ failed.status = .failed)) := by
  have inv := jobInvariant_of_reaches JobInvariant.empty run
  refine ⟨inv.oneActiveExecution, ?_⟩
  intro now pick executions after carries done
  obtain ⟨added, effect⟩ := executionsRetried_retries done
  refine ⟨⟨?_, fun once => (inv.retries effect carries once).oneActiveExecution⟩, ?_⟩
  · intro one
    by_contra twice
    exact effect.not_oneActiveExecution twice one
  · intro once id
    rw [effect.createdExecutions_eq inv]
    refine ⟨?_, ?_⟩
    · have distinct := effect.once_iff.mpr once
      refine length_le_one (distinct.of_map.filter _) ?_
      intro first hfirst second hsecond
      simp only [List.mem_filter, beq_iff_eq] at hfirst hsecond
      exact List.inj_on_of_nodup_map distinct hfirst.1 hsecond.1 (hfirst.2.trans hsecond.2.symm)
    · intro created
      obtain ⟨new, member⟩ := List.exists_mem_of_ne_nil _ created
      simp only [List.mem_filter, beq_iff_eq] at member
      obtain ⟨newMember, rfl⟩ := member
      have settles := (effect.added_iff carries new.jobId).mp (List.mem_map_of_mem newMember)
      obtain ⟨row, present, same, active, inactive⟩ := (settled_iff ..).mp settles
      refine ⟨row, present, same, active, retryRow pick executions row, ?_,
        (effect.execution row).id_eq, (effect.execution row).status_eq active inactive⟩
      rw [effect.executions]
      exact List.mem_append_left _ (List.mem_map_of_mem present)

/-- A job of no schedule, due at the epoch. -/
def plainJob (retries : Nat) : NewJob where
  job :=
    { jobTypeId := "type"
      targetExecutionTime := 0
      inputPayloadJson := "{}"
      labels := []
      timeoutPolicy := ⟨0, .startTime⟩
      retryPolicy := ⟨retries, 0, none, .fixed⟩
      priority := 0 }
  scheduleId := none

/-- A job is added as `0` with the execution `1`, which is retried as `2`. -/
def retriedOnce : List Operation :=
  [.addJobs 0 (fun _ => 0) [plainJob 2] none,
    .executionsRetried 1 (fun _ => 0) [⟨⟨1, 0, 1, "failed"⟩, 1⟩]]

theorem one_active_execution_retriedOnce :
    ∃ store, Reaches Operation.apply (fun store operation => operation.retriesSound store)
        Store.empty store ∧
      store.executions.rows.length = 2 ∧ OneActiveExecution store := by
  obtain ⟨store, run, count⟩ := exists_reaches_of_execute Operation.apply
    (fun store operation => operation.retriesSound store) Store.empty retriedOnce
    (fun store => store.executions.rows.length == 2) (by decide)
  exact ⟨store, run, by simpa using count, (one_active_execution run).1⟩

/-- The stale failure of `1` and the failure of `2` are retried in one batch. -/
def retriedStale : List Operation :=
  retriedOnce ++ [.executionsRetried 2 (fun _ => 0)
    [⟨⟨1, 0, 2, "failed"⟩, 2⟩, ⟨⟨2, 0, 2, "failed"⟩, 2⟩]]

theorem retriedStale_two_active_executions :
    ¬∀ store, Reaches Operation.apply (fun store operation => operation.carriesJobs store)
      Store.empty store → OneActiveExecution store := by
  intro claim
  obtain ⟨store, run, two⟩ := exists_reaches_of_execute Operation.apply
    (fun store operation => operation.carriesJobs store) Store.empty retriedStale
    (fun store => !decide (OneActiveExecution store)) (by decide)
  simp [claim store run] at two

end Ora.Postgres
