import Ora.Postgres.Evolution
import Ora.Postgres.Fetch

/-!
# Retry budgets

The position of an execution among those of its job does not change while the
job is stored.  Operations keep the number of executions of a job within its
retry policy when only executions that have retries left are retried.
-/

namespace Ora.Postgres

open Ora.Backend
open Ora.Library

open PostgresBackend (executionCount)

/-- The number of executions of the job up to this one. -/
def position (store : Store) (row : ExecutionRow) : Nat :=
  (store.executions.rows.filter fun other =>
    other.jobId == row.jobId && decide (other.id ≤ row.id)).length

section Positions

variable {store after : Store} {row : ExecutionRow}

theorem position_le_executionCount (store : Store) (row : ExecutionRow) :
    position store row ≤ executionCount store row.jobId := by
  refine (List.Sublist.length_le ?_)
  rw [← List.filter_filter]
  exact List.filter_sublist.filter _

theorem position_of_latest (latest : ∀ other ∈ store.executions.rows,
    other.jobId = row.jobId → other.id ≤ row.id) :
    position store row = executionCount store row.jobId := by
  refine congrArg List.length (List.filter_congr fun other member => ?_)
  by_cases same : other.jobId = row.jobId
  · simp [same, latest other member same]
  · simp [same]

/-- The latest execution of a job is its active one. -/
theorem JobInvariant.position_of_active (inv : JobInvariant store)
    (member : row ∈ store.executions.rows) (active : row.active = true) :
    position store row = executionCount store row.jobId :=
  position_of_latest fun other present same => inv.latest row member active other present same

theorem Evolves.position (evolves : Evolves store after) (issued : Issued store)
    {before : ExecutionRow} (present : before ∈ store.executions.rows)
    (member : row ∈ after.executions.rows) (id : before.id = row.id)
    (jobId : before.jobId = row.jobId) : position after row = position store before := by
  have distinct : ∀ (store : Store) (p : ExecutionRow → Bool),
      ((store.executions.rows.filter p).map ExecutionRow.id).Nodup := fun store p =>
    store.executions.unique.sublist (List.filter_sublist.map _)
  have same : ((after.executions.rows.filter fun other =>
        other.jobId == row.jobId && decide (other.id ≤ row.id)).map ExecutionRow.id).Perm
      ((store.executions.rows.filter fun other =>
        other.jobId == before.jobId && decide (other.id ≤ before.id)).map ExecutionRow.id) := by
    refine (List.perm_ext_iff_of_nodup (distinct after _) (distinct store _)).mpr fun other => ?_
    simp only [List.mem_map, List.mem_filter, Bool.and_eq_true, beq_iff_eq, decide_eq_true_eq]
    constructor
    · rintro ⟨later, ⟨laterMember, sameJob, bound⟩, rfl⟩
      have known : later.id < store.nextUuid :=
        Nat.lt_of_le_of_lt bound (id ▸ issued.executions before present)
      obtain ⟨old, oldMember, succeeds⟩ := evolves.exists_before laterMember known
      exact ⟨old, ⟨oldMember, by rw [← succeeds.jobId, sameJob, jobId],
        by rw [← succeeds.id, id]; exact bound⟩, succeeds.id.symm⟩
    · rintro ⟨old, ⟨oldMember, sameJob, bound⟩, rfl⟩
      obtain ⟨job, jobMember, sameId⟩ := after.execution_job row member
      obtain ⟨later, laterMember, laterId, laterJob⟩ := evolves.siblings old oldMember
        ⟨job, jobMember, by rw [sameId, sameJob, jobId]⟩
      exact ⟨later,
        ⟨laterMember, by rw [laterJob, sameJob, jobId], by rw [laterId, ← id]; exact bound⟩, laterId⟩
  have length := same.length_eq
  rwa [List.length_map, List.length_map] at length

end Positions

/-- No job has more executions than its retry policy allows. -/
def WithinBudget (store : Store) : Prop :=
  ∀ job ∈ store.jobs.rows, executionCount store job.id ≤ job.retryPolicyJson.retries + 1

/-- The executions that are to be retried have a retry left. -/
def RetriesLeft (store : Store) (executions : List RetriedExecution) : Prop :=
  ∀ execution ∈ executions, ∀ row ∈ store.executions.rows,
    row.id = execution.failedExecution.executionId → ∀ job ∈ store.jobs.rows, job.id = row.jobId →
      position store row ≤ job.retryPolicyJson.retries

def Operation.retriesLeft (store : Store) : Operation → Prop
  | .executionsRetried _ _ executions => RetriesLeft store executions
  | _ => True

namespace WithinBudget

variable {store after : Store}

theorem count_map {rows : List ExecutionRow} {change : ExecutionRow → ExecutionRow}
    (keeps : ∀ row, (change row).jobId = row.jobId) (id : JobId) :
    ((rows.map change).filter fun row => row.jobId == id).length =
      (rows.filter fun row => row.jobId == id).length := by
  rw [List.filter_map, List.length_map]
  exact congrArg List.length (List.filter_congr fun row _ => by simp [keeps])

/-- Jobs keep their policies and get no new execution. -/
theorem of_counts (budget : WithinBudget store)
    (counts : ∀ id, executionCount after id ≤ executionCount store id)
    (jobs : ∀ job ∈ after.jobs.rows, ∃ before ∈ store.jobs.rows, before.id = job.id ∧
      before.retryPolicyJson = job.retryPolicyJson) : WithinBudget after := by
  intro job member
  obtain ⟨before, present, id, policy⟩ := jobs job member
  rw [← id, ← policy]
  exact Nat.le_trans (counts before.id) (budget before present)

theorem finishes {status : ExecutionStatus} {change : ExecutionRow → ExecutionRow}
    {mark : JobRow → JobRow} {free : ScheduleRow → ScheduleRow} (budget : WithinBudget store)
    (effect : Finishes status change mark free store after) : WithinBudget after := by
  refine budget.of_counts (fun id => ?_) fun job member => ?_
  · rw [executionCount, effect.executions, count_map fun row => (effect.execution row).job_eq]
    exact Nat.le_refl _
  · rcases (Evolves.finishes effect).jobs job member with known | fresh
    · exact known
    · rw [effect.nextUuid] at fresh
      exact absurd fresh.2 (Nat.not_lt.mpr fresh.1)

theorem adds {newJobs : List JobRow} {added : List ExecutionRow} {claim : ScheduleRow → ScheduleRow}
    (budget : WithinBudget store) (issued : Issued store)
    (effect : AddsJobs store.nextUuid newJobs added claim store after) : WithinBudget after := by
  have newIds : (newJobs.map JobRow.id).Nodup := by
    have unique := after.jobs.unique
    rw [effect.jobs, List.map_append] at unique
    exact (List.nodup_append.mp unique).2.1
  have addedCount : ∀ id, (added.filter fun row => row.jobId == id).length =
      (newJobs.map JobRow.id).count id := by
    intro id
    rw [← effect.jobIds, List.count, List.countP_map, ← List.countP_eq_length_filter]
    rfl
  intro job member
  rw [effect.jobs, List.mem_append] at member
  rw [executionCount, effect.executions, List.filter_append, List.length_append, addedCount]
  rcases member with old | fresh
  · have unknown : job.id ∉ newJobs.map JobRow.id := by
      intro known
      obtain ⟨other, present, same⟩ := List.mem_map.mp known
      have above := (effect.freshJobs other present).1
      rw [same] at above
      exact Nat.not_lt.mpr above (issued.jobs job old)
    rw [List.count_eq_zero_of_not_mem unknown]
    exact budget job old
  · have none : (store.executions.rows.filter fun row => row.jobId == job.id) = [] := by
      rw [List.filter_eq_nil_iff]
      intro row present same
      obtain ⟨owner, ownerMember, sameId⟩ := store.execution_job row present
      have below := issued.jobs owner ownerMember
      rw [sameId, beq_iff_eq.mp same] at below
      exact Nat.not_lt.mpr (effect.freshJobs job fresh).1 below
    rw [none, List.length_nil, Nat.zero_add]
    exact Nat.le_trans (List.nodup_iff_count_le_one.mp newIds job.id) (Nat.le_add_left ..)

/-- A job is retried once, for its active execution, which is the last one. -/
theorem retries {executions : List RetriedExecution} {pick : Pick} {added : List ExecutionRow}
    (budget : WithinBudget store) (inv : JobInvariant store)
    (effect : Retries executions (retryRow pick executions) added store after)
    (once : RetriesOnce store executions) (left : RetriesLeft store executions) :
    WithinBudget after := by
  have addedCount : ∀ id, (added.filter fun row => row.jobId == id).length =
      (added.map ExecutionRow.jobId).count id := by
    intro id
    rw [List.count, List.countP_map, ← List.countP_eq_length_filter]
    rfl
  intro job member
  rw [effect.jobs] at member
  rw [executionCount, effect.executions, List.filter_append, List.length_append,
    count_map fun row => (effect.execution row).job_eq, addedCount]
  by_cases retried : job.id ∈ added.map ExecutionRow.jobId
  · have once := List.nodup_iff_count_le_one.mp (effect.once_iff.mpr once) job.id
    rw [effect.jobIds, List.mem_filter] at retried
    obtain ⟨row, present, same, active, execution, named, id⟩ :=
      (settled_retryRow_iff pick job.id).mp retried.2
    have bound := left execution named row present id.symm job member same.symm
    rw [inv.position_of_active present active, same] at bound
    exact Nat.add_le_add bound once
  · rw [List.count_eq_zero_of_not_mem retried]
    exact budget job member

theorem deletes (budget : WithinBudget store) (doomed : JobRow → Bool) :
    WithinBudget (store.deleteJobs doomed) := by
  refine budget.of_counts (fun id => ?_) fun job member => ?_
  · exact (List.filter_sublist.filter _).length_le
  · simp only [Store.deleteJobs, Table.delete_rows, List.mem_filter] at member
    exact ⟨job, member.1, rfl, rfl⟩

theorem step {operation : Operation} (budget : WithinBudget store) (inv : JobInvariant store)
    (once : operation.retriesOnce store) (left : operation.retriesLeft store)
    (done : operation.apply store = some after) : WithinBudget after := by
  have issued : Issued store := ⟨inv.issuedExecutions, inv.issuedJobs⟩
  cases operation with
  | addJobs now pick jobs ifNotExists =>
      obtain ⟨⟨_, result⟩, added, rfl⟩ := Option.map_eq_some_iff.mp done
      obtain ⟨_, _, _, effect⟩ := addJobs_adds added
      exact budget.adds issued effect
  | addSchedules now schedules ifNotExists =>
      obtain ⟨⟨_, result⟩, added, rfl⟩ := Option.map_eq_some_iff.mp done
      obtain ⟨_, effect⟩ := addSchedules_adds added
      unfold WithinBudget executionCount
      rw [effect.jobs, effect.executions]
      exact budget
  | stopSchedules now filters =>
      cases done
      exact budget
  | executionsStarted pick executions =>
      cases done
      have effect := executionsStarted_starts store pick executions
      unfold WithinBudget executionCount
      simp only [effect.executions, count_map fun row => (effect.keeps row).2.1, effect.jobs]
      exact budget
  | executionsSucceeded pick executions =>
      cases done
      obtain ⟨_, _, effect⟩ := executionsSucceeded_finishes store pick executions
      exact budget.finishes effect
  | executionsFailed pick executions =>
      cases done
      obtain ⟨_, _, effect⟩ := executionsFailed_finishes store pick executions
      exact budget.finishes effect
  | executionsRetried now pick executions =>
      obtain ⟨_, effect⟩ := executionsRetried_retries done
      exact budget.retries inv effect once left
  | cancelJobs now systemNow pick filters =>
      cases done
      obtain ⟨_, _, _, effect⟩ := cancelJobs_finishes store now systemNow pick filters
      exact budget.finishes effect
  | deleteHistory deleteBatchSize before =>
      cases done
      exact deleteHistory_preserves (fun _ doomed budget _ => budget.deletes doomed)
        (fun _ _ budget _ => budget) (fun _ _ budget => budget) deleteBatchSize before budget

end WithinBudget

end Ora.Postgres
