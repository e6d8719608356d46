import Ora.Postgres.ActiveExecution

/-!
# Finished work is final

Without `delete_history`, an execution with a final status and a job that is
inactive are never changed again, and an inactive job gets no new execution.
-/

namespace Ora.Postgres

open Ora.Backend
open Ora.Library

namespace Operation

/-- No two entries of a retried batch carry the same job. -/
def distinctJobs : Operation → Bool
  | .executionsRetried _ _ executions =>
      decide (executions.map fun execution => execution.failedExecution.jobId).Nodup
  | _ => true

def keepsHistory : Operation → Bool
  | .deleteHistory _ _ => false
  | _ => true

/-- The right jobs in every batch, no job twice in a retried batch, no history deleted. -/
def finalSound (store : Store) (operation : Operation) : Prop :=
  operation.carriesJobs store ∧ operation.distinctJobs = true ∧ operation.keepsHistory = true

instance (store : Store) (operation : Operation) : Decidable (operation.finalSound store) :=
  inferInstanceAs (Decidable (_ ∧ _ ∧ _))

theorem retriesOnce_of_distinctJobs (store : Store) {operation : Operation}
    (distinct : operation.distinctJobs = true) : operation.retriesOnce store := by
  cases operation with
  | executionsRetried now pick executions =>
      intro row _ _ _
      exact List.nodup_iff_count_le_one.mp (of_decide_eq_true distinct) row.jobId
  | _ => trivial

end Operation

/-- Final rows of a store are kept, and inactive jobs get no new execution. -/
structure Frozen (store after : Store) : Prop where
  executions : ∀ row ∈ store.executions.rows, terminal row.status = true →
    row ∈ after.executions.rows
  jobs : ∀ job ∈ store.jobs.rows, job.inactiveSince ≠ none → job ∈ after.jobs.rows
  history : ∀ job ∈ store.jobs.rows, job.inactiveSince ≠ none →
    ∀ row ∈ after.executions.rows, row.jobId = job.id → row ∈ store.executions.rows

namespace Frozen

variable {store middle after : Store}

theorem refl (store : Store) : Frozen store store :=
  ⟨fun _ member _ => member, fun _ member _ => member, fun _ _ _ _ member _ => member⟩

theorem trans (first : Frozen store middle) (second : Frozen middle after) : Frozen store after where
  executions row member isTerminal :=
    second.executions row (first.executions row member isTerminal) isTerminal
  jobs job member inactive := second.jobs job (first.jobs job member inactive) inactive
  history job member inactive row later same :=
    first.history job member inactive row
      (second.history job (first.jobs job member inactive) inactive row later same) same

theorem finishes (inv : JobInvariant store) {status : ExecutionStatus}
    {change : ExecutionRow → ExecutionRow} {mark : JobRow → JobRow}
    {free : ScheduleRow → ScheduleRow} (effect : Finishes status change mark free store after) :
    Frozen store after where
  executions row member isTerminal := by
    have inactive := (ExecutionRow.not_active_iff row).mpr isTerminal
    rw [effect.executions]
    exact List.mem_map.mpr ⟨row, member, (effect.execution row).eq_of_not_active inactive⟩
  jobs job member inactive := by
    have unsettled : settled store change job.id = false := by
      rw [Bool.eq_false_iff]
      exact fun done => inactive (inv.active_of_settled member done)
    rw [effect.jobs]
    exact List.mem_map.mpr ⟨job, member, effect.unmarked job unsettled⟩
  history job member inactive row later same := by
    rw [effect.executions] at later
    obtain ⟨before, present, rfl⟩ := List.mem_map.mp later
    rw [(effect.execution before).job_eq] at same
    rw [(effect.execution before).eq_of_not_active (inv.not_active member inactive present same)]
    exact present

theorem starts (inv : JobInvariant store) {executions : List StartedExecution}
    {change : ExecutionRow → ExecutionRow} (effect : Starts executions change store after) :
    Frozen store after where
  executions row member isTerminal := by
    have inactive := (ExecutionRow.not_active_iff row).mpr isTerminal
    rw [effect.executions]
    exact List.mem_map.mpr ⟨row, member, effect.eq_of_not_active inactive⟩
  jobs job member _ := by
    rw [effect.jobs]
    exact member
  history job member inactive row later same := by
    rw [effect.executions] at later
    obtain ⟨before, present, rfl⟩ := List.mem_map.mp later
    rw [(effect.keeps before).2.1] at same
    rw [effect.eq_of_not_active (inv.not_active member inactive present same)]
    exact present

theorem retries (inv : JobInvariant store) {pick : Pick} {executions : List RetriedExecution}
    {added : List ExecutionRow}
    (effect : Retries executions (retryRow pick executions) added store after)
    (carries : CarriesJobs store (executions.map fun execution => execution.failedExecution)) :
    Frozen store after where
  executions row member isTerminal := by
    have inactive := (ExecutionRow.not_active_iff row).mpr isTerminal
    rw [effect.executions]
    exact List.mem_append_left _
      (List.mem_map.mpr ⟨row, member, (effect.execution row).eq_of_not_active inactive⟩)
  jobs job member _ := by
    rw [effect.jobs]
    exact member
  history job member inactive row later same := by
    rw [effect.executions, List.mem_append, List.mem_map] at later
    obtain ⟨before, present, rfl⟩ | new := later
    · rw [(effect.execution before).job_eq] at same
      rw [(effect.execution before).eq_of_not_active
        (inv.not_active member inactive present same)]
      exact present
    · have done := (effect.added_iff carries row.jobId).mp (List.mem_map_of_mem new)
      rw [same] at done
      exact absurd (inv.active_of_settled member done) inactive

theorem adds (inv : JobInvariant store) {newJobs : List JobRow} {added : List ExecutionRow}
    {claim : ScheduleRow → ScheduleRow}
    (effect : AddsJobs store.nextUuid newJobs added claim store after) : Frozen store after where
  executions row member _ := by
    rw [effect.executions]
    exact List.mem_append_left _ member
  jobs job member _ := by
    rw [effect.jobs]
    exact List.mem_append_left _ member
  history job member _ row later same := by
    rw [effect.executions, List.mem_append] at later
    obtain old | new := later
    · exact old
    · have known := List.mem_map_of_mem (f := ExecutionRow.jobId) new
      rw [effect.jobIds] at known
      obtain ⟨newJob, present, sameJob⟩ := List.mem_map.mp known
      have above := (effect.freshJobs newJob present).1
      rw [sameJob, same] at above
      exact absurd (inv.issuedJobs job member) (Nat.not_lt.mpr above)

theorem congr (jobs : after.jobs = store.jobs) (executions : after.executions = store.executions) :
    Frozen store after := by
  refine ⟨?_, ?_, ?_⟩
  · rw [executions]
    exact fun _ member _ => member
  · rw [jobs]
    exact fun _ member _ => member
  · rw [executions]
    exact fun _ _ _ _ member _ => member

theorem step {operation : Operation} (inv : JobInvariant store)
    (carries : operation.carriesJobs store) (keeps : operation.keepsHistory = true)
    (done : operation.apply store = some after) : Frozen store after := by
  cases operation with
  | addJobs now pick jobs ifNotExists =>
      obtain ⟨⟨_, result⟩, added, rfl⟩ := Option.map_eq_some_iff.mp done
      obtain ⟨_, _, _, effect⟩ := addJobs_adds added
      exact adds inv effect
  | addSchedules now schedules ifNotExists =>
      obtain ⟨⟨_, result⟩, added, rfl⟩ := Option.map_eq_some_iff.mp done
      obtain ⟨_, effect⟩ := addSchedules_adds added
      exact congr effect.jobs effect.executions
  | stopSchedules now filters =>
      cases done
      exact congr rfl rfl
  | executionsStarted pick executions =>
      cases done
      exact starts inv (executionsStarted_starts store pick executions)
  | executionsSucceeded pick executions =>
      cases done
      obtain ⟨_, _, effect⟩ := executionsSucceeded_finishes store pick executions
      exact finishes inv effect
  | executionsFailed pick executions =>
      cases done
      obtain ⟨_, _, effect⟩ := executionsFailed_finishes store pick executions
      exact finishes inv effect
  | executionsRetried now pick executions =>
      obtain ⟨_, effect⟩ := executionsRetried_retries done
      exact retries inv effect carries
  | cancelJobs now systemNow pick filters =>
      cases done
      obtain ⟨_, _, _, effect⟩ := cancelJobs_finishes store now systemNow pick filters
      exact finishes inv effect
  | deleteHistory deleteBatchSize before => cases keeps

end Frozen

/-- From any state of a run on, final executions and inactive jobs stay as they
are, and the stored outcome of an inactive job is that of its latest execution. -/
theorem finished_work_is_final {store after : Store}
    (run : Reaches Operation.apply (fun store operation => operation.finalSound store)
      Store.empty store)
    (later : Reaches Operation.apply (fun store operation => operation.finalSound store)
      store after) :
    Frozen store after ∧ ∀ job ∈ store.jobs.rows, job.inactiveSince ≠ none →
      ∃ row ∈ store.executions.rows, row.jobId = job.id ∧
        (∀ other ∈ store.executions.rows, other.jobId = job.id → other.id ≤ row.id) ∧
        job.inactiveStatus = some row.status := by
  have sound : ∀ (store : Store) (operation : Operation), operation.finalSound store →
      operation.retriesSound store := fun store operation permitted =>
    ⟨permitted.1, operation.retriesOnce_of_distinctJobs store permitted.2.1⟩
  have inv := jobInvariant_of_reaches JobInvariant.empty (run.mono sound)
  refine ⟨?_, ?_⟩
  · refine later.relation Frozen.refl (fun _ _ _ => Frozen.trans) ?_ inv
    intro state operation next inv permitted done
    obtain ⟨carries, once⟩ := sound state operation permitted
    exact ⟨inv.step carries once done, .step inv carries permitted.2.2 done⟩
  · intro job member inactive
    obtain ⟨row, present, same, status, last⟩ := inv.outcome job member inactive
    exact ⟨row, present, same, last, status⟩

/-- The retried job fails for good, a late success changes nothing. -/
theorem finished_work_is_final_retriedOnce :
    ∃ store, Reaches Operation.apply (fun store operation => operation.finalSound store)
        Store.empty store ∧
      store.jobs.rows.map JobRow.inactiveStatus = [some .failed] ∧
      Frozen store (PostgresBackend.executionsSucceeded store (fun _ => 0) [⟨2, 3, "late"⟩]) := by
  obtain ⟨store, run, failed⟩ := exists_reaches_of_execute Operation.apply
    (fun store operation => operation.finalSound store) Store.empty
    (retriedOnce ++ [.executionsFailed (fun _ => 0) [⟨1, 0, 2, "late"⟩, ⟨2, 0, 2, "failed"⟩]])
    (fun store => store.jobs.rows.map JobRow.inactiveStatus == [some .failed]) (by decide)
  have later : Reaches Operation.apply (fun store operation => operation.finalSound store) store
      (PostgresBackend.executionsSucceeded store (fun _ => 0) [⟨2, 3, "late"⟩]) :=
    .single (.executionsSucceeded (fun _ => 0) [⟨2, 3, "late"⟩]) ⟨trivial, rfl, rfl⟩ rfl
  exact ⟨store, run, by simpa using failed, (finished_work_is_final run later).1⟩

end Ora.Postgres
