import Ora.Postgres.Inserts
import Ora.Library.Run

/-!
# Active executions

The latest execution of a job is the only one that can be active, and it is
active as long as the job is.  Operations keep this invariant when the entries
of a batch carry the jobs of their executions and a job that is retried is
named by one entry only.
-/

namespace Ora.Postgres

open Ora.Backend
open Ora.Library

/-- Each entry carries the job its execution belongs to. -/
def CarriesJobs (store : Store) (executions : List FailedExecution) : Prop :=
  ∀ execution ∈ executions, ∀ row ∈ store.executions.rows,
    row.id = execution.executionId → row.jobId = execution.jobId

/-- A job whose active execution is named by an entry is named by no other entry. -/
def RetriesOnce (store : Store) (executions : List RetriedExecution) : Prop :=
  ∀ row ∈ store.executions.rows, row.active = true →
    (∃ execution ∈ executions, execution.failedExecution.executionId = row.id) →
    (executions.map fun execution => execution.failedExecution.jobId).count row.jobId ≤ 1

instance (store : Store) (executions : List FailedExecution) :
    Decidable (CarriesJobs store executions) :=
  inferInstanceAs (Decidable (∀ execution ∈ executions, ∀ row ∈ store.executions.rows,
    row.id = execution.executionId → row.jobId = execution.jobId))

instance (store : Store) (executions : List RetriedExecution) :
    Decidable (RetriesOnce store executions) :=
  inferInstanceAs (Decidable (∀ row ∈ store.executions.rows, row.active = true →
    (∃ execution ∈ executions, execution.failedExecution.executionId = row.id) →
    (executions.map fun execution => execution.failedExecution.jobId).count row.jobId ≤ 1))

namespace Operation

def carriesJobs (store : Store) : Operation → Prop
  | .executionsFailed _ executions => CarriesJobs store executions
  | .executionsRetried _ _ executions =>
      CarriesJobs store (executions.map fun execution => execution.failedExecution)
  | _ => True

def retriesOnce (store : Store) : Operation → Prop
  | .executionsRetried _ _ executions => RetriesOnce store executions
  | _ => True

instance (store : Store) (operation : Operation) : Decidable (operation.carriesJobs store) := by
  cases operation <;> unfold carriesJobs <;> infer_instance

instance (store : Store) (operation : Operation) : Decidable (operation.retriesOnce store) := by
  cases operation <;> unfold retriesOnce <;> infer_instance

end Operation

structure JobInvariant (store : Store) : Prop where
  issuedExecutions : ∀ row ∈ store.executions.rows, row.id < store.nextUuid
  issuedJobs : ∀ job ∈ store.jobs.rows, job.id < store.nextUuid
  running : ∀ job ∈ store.jobs.rows, job.inactiveSince = none ↔
    ∃ row ∈ store.executions.rows, row.jobId = job.id ∧ row.active = true
  latest : ∀ row ∈ store.executions.rows, row.active = true →
    ∀ other ∈ store.executions.rows, other.jobId = row.jobId → other.id ≤ row.id
  outcome : ∀ job ∈ store.jobs.rows, job.inactiveSince ≠ none →
    ∃ row ∈ store.executions.rows, row.jobId = job.id ∧ job.inactiveStatus = some row.status ∧
      ∀ other ∈ store.executions.rows, other.jobId = job.id → other.id ≤ row.id

namespace JobInvariant

variable {store after : Store}

theorem empty : JobInvariant Store.empty where
  issuedExecutions := by simp [Store.empty]
  issuedJobs := by simp [Store.empty]
  running := by simp [Store.empty]
  latest := by simp [Store.empty]
  outcome := by simp [Store.empty]

theorem active_unique (inv : JobInvariant store) {first second : ExecutionRow}
    (hfirst : first ∈ store.executions.rows) (hsecond : second ∈ store.executions.rows)
    (firstActive : first.active = true) (secondActive : second.active = true)
    (same : first.jobId = second.jobId) : first = second := by
  refine store.executions.eq_of_key hfirst hsecond (Nat.le_antisymm ?_ ?_)
  · exact inv.latest second hsecond secondActive first hfirst same
  · exact inv.latest first hfirst firstActive second hsecond same.symm

/-- The executions of an inactive job are not active. -/
theorem not_active (inv : JobInvariant store) {job : JobRow} (hjob : job ∈ store.jobs.rows)
    (inactive : job.inactiveSince ≠ none) {row : ExecutionRow}
    (hrow : row ∈ store.executions.rows) (same : row.jobId = job.id) : row.active = false := by
  rw [Bool.eq_false_iff]
  intro active
  exact inactive ((inv.running job hjob).mpr ⟨row, hrow, same, active⟩)

/-- A job one of whose executions is finished was active. -/
theorem active_of_settled (inv : JobInvariant store) {change : ExecutionRow → ExecutionRow}
    {job : JobRow} (hjob : job ∈ store.jobs.rows) (done : settled store change job.id = true) :
    job.inactiveSince = none := by
  obtain ⟨row, member, same, active, _⟩ := (settled_iff ..).mp done
  exact (inv.running job hjob).mpr ⟨row, member, same, active⟩

/-- All active executions of a settled job are finished. -/
theorem finished_of_settled (inv : JobInvariant store) {change : ExecutionRow → ExecutionRow}
    {id : JobId} (done : settled store change id = true) {row : ExecutionRow}
    (member : row ∈ store.executions.rows) (same : row.jobId = id) (active : row.active = true) :
    (change row).active = false := by
  obtain ⟨other, otherMember, otherSame, otherActive, inactive⟩ := (settled_iff ..).mp done
  rw [inv.active_unique member otherMember active otherActive (same.trans otherSame.symm)]
  exact inactive

/-- Operations that leave the jobs and executions alone. -/
theorem congr (inv : JobInvariant store) (jobs : after.jobs = store.jobs)
    (executions : after.executions = store.executions) (next : store.nextUuid ≤ after.nextUuid) :
    JobInvariant after where
  issuedExecutions row member := by
    rw [executions] at member
    exact Nat.lt_of_lt_of_le (inv.issuedExecutions row member) next
  issuedJobs job member := by
    rw [jobs] at member
    exact Nat.lt_of_lt_of_le (inv.issuedJobs job member) next
  running := by
    rw [jobs, executions]
    exact inv.running
  latest := by
    rw [executions]
    exact inv.latest
  outcome := by
    rw [jobs, executions]
    exact inv.outcome

theorem finishes (inv : JobInvariant store) {status : ExecutionStatus}
    {change : ExecutionRow → ExecutionRow} {mark : JobRow → JobRow}
    {free : ScheduleRow → ScheduleRow} (effect : Finishes status change mark free store after) :
    JobInvariant after := by
  have markId : ∀ job, (mark job).id = job.id := fun job => (effect.mark_keeps job).1
  have kept := fun (row : ExecutionRow) => (effect.execution row).eq_of_active effect.isTerminal
  refine ⟨?_, ?_, ?_, ?_, ?_⟩
  · simp only [effect.executions, effect.nextUuid, List.forall_mem_map]
    intro row member
    rw [(effect.execution row).id_eq]
    exact inv.issuedExecutions row member
  · simp only [effect.jobs, effect.nextUuid, List.forall_mem_map]
    intro job member
    rw [markId]
    exact inv.issuedJobs job member
  · simp only [effect.executions, effect.jobs, List.mem_map, exists_exists_and_eq_and,
      forall_exists_index, and_imp, forall_apply_eq_imp_iff₂]
    intro job member
    rw [markId]
    cases done : settled store change job.id with
    | true =>
        obtain ⟨time, marked⟩ := effect.marked job done
        rw [marked]
        refine iff_of_false (by simp) ?_
        rintro ⟨row, present, same, active⟩
        have finished := kept row active
        rw [finished] at same active
        have inactive := inv.finished_of_settled done present same active
        rw [finished, active] at inactive
        cases inactive
    | false =>
        rw [effect.unmarked job done, inv.running job member]
        constructor
        · rintro ⟨row, present, same, active⟩
          refine ⟨row, present, (effect.execution row).job_eq.trans same, ?_⟩
          by_contra finished
          have settles := (settled_iff store change job.id).mpr
            ⟨row, present, same, active, by simpa using finished⟩
          rw [done] at settles
          cases settles
        · rintro ⟨row, present, same, active⟩
          have unchanged := kept row active
          rw [unchanged] at same active
          exact ⟨row, present, same, active⟩
  · simp only [effect.executions, List.forall_mem_map]
    intro row member active other otherMember same
    have unchanged := kept row active
    rw [unchanged] at active same ⊢
    rw [(effect.execution other).job_eq] at same
    rw [(effect.execution other).id_eq]
    exact inv.latest row member active other otherMember same
  · simp only [effect.executions, effect.jobs, List.mem_map, exists_exists_and_eq_and,
      forall_exists_index, and_imp, forall_apply_eq_imp_iff₂]
    intro job member inactive
    rw [markId]
    cases done : settled store change job.id with
    | true =>
        obtain ⟨time, marked⟩ := effect.marked job done
        obtain ⟨row, present, same, active, finished⟩ := (settled_iff ..).mp done
        refine ⟨row, present, (effect.execution row).job_eq.trans same, ?_, ?_⟩
        · rw [marked, (effect.execution row).status_eq active finished]
        · intro other otherMember otherSame
          rw [(effect.execution other).job_eq] at otherSame
          rw [(effect.execution other).id_eq, (effect.execution row).id_eq]
          exact inv.latest row present active other otherMember (otherSame.trans same.symm)
    | false =>
        rw [effect.unmarked job done] at inactive ⊢
        obtain ⟨row, present, same, status, last⟩ := inv.outcome job member inactive
        have unchanged := (effect.execution row).eq_of_not_active
          (inv.not_active member inactive present same)
        refine ⟨row, present, by rw [unchanged, same], by rw [unchanged, status], ?_⟩
        intro other otherMember otherSame
        rw [(effect.execution other).job_eq] at otherSame
        rw [(effect.execution other).id_eq, (effect.execution row).id_eq]
        exact last other otherMember otherSame

theorem starts (inv : JobInvariant store) {executions : List StartedExecution}
    {change : ExecutionRow → ExecutionRow} (effect : Starts executions change store after) :
    JobInvariant after := by
  refine ⟨?_, ?_, ?_, ?_, ?_⟩
  · simp only [effect.executions, effect.nextUuid, List.forall_mem_map]
    intro row member
    rw [(effect.keeps row).1]
    exact inv.issuedExecutions row member
  · rw [effect.jobs, effect.nextUuid]
    exact inv.issuedJobs
  · simp only [effect.executions, effect.jobs, List.mem_map, exists_exists_and_eq_and, effect.keeps]
    exact inv.running
  · simp only [effect.executions, List.forall_mem_map, effect.keeps]
    exact inv.latest
  · simp only [effect.executions, effect.jobs, List.mem_map, exists_exists_and_eq_and,
      forall_exists_index, and_imp, forall_apply_eq_imp_iff₂, effect.keeps]
    intro job member inactive
    obtain ⟨row, present, same, status, last⟩ := inv.outcome job member inactive
    rw [← effect.eq_of_not_active (inv.not_active member inactive present same)] at status
    exact ⟨row, present, same, status, last⟩

end JobInvariant

section Retried

variable {store after : Store} {now : Time} {pick : Pick} {executions : List RetriedExecution}
  {added : List ExecutionRow}

/-- The jobs that are retried are those whose active execution is named. -/
theorem settled_retryRow_iff (pick : Pick) (id : JobId) :
    settled store (retryRow pick executions) id = true ↔
      ∃ row ∈ store.executions.rows, row.jobId = id ∧ row.active = true ∧
        ∃ execution ∈ executions, execution.failedExecution.executionId = row.id := by
  rw [settled_iff]
  constructor
  · rintro ⟨row, member, same, active, inactive⟩
    refine ⟨row, member, same, active, ?_⟩
    by_contra unnamed
    rw [retryRow, failRow, finishRow_of_not_named, active] at inactive
    · cases inactive
    · intro entry named equal
      obtain ⟨execution, present, rfl⟩ := List.mem_map.mp named
      exact unnamed ⟨execution, present, equal⟩
  · rintro ⟨row, member, same, active, execution, present, named⟩
    exact ⟨row, member, same, active, finishRow_of_named setFailed_final active
      ⟨execution.failedExecution, List.mem_map_of_mem present, named⟩⟩

theorem Retries.added_iff (effect : Retries executions (retryRow pick executions) added store after)
    (carries : CarriesJobs store (executions.map fun execution => execution.failedExecution))
    (id : JobId) :
    id ∈ added.map ExecutionRow.jobId ↔ settled store (retryRow pick executions) id = true := by
  rw [effect.jobIds, List.mem_filter]
  refine ⟨And.right, fun done => ⟨?_, done⟩⟩
  obtain ⟨row, member, same, _, execution, present, named⟩ := (settled_retryRow_iff pick id).mp done
  have carried := carries execution.failedExecution (List.mem_map_of_mem present) row member
    named.symm
  rw [← same, carried]
  exact List.mem_map_of_mem (f := fun execution => execution.failedExecution.jobId) present

/-- Each retried job gets one new execution exactly when it is named once. -/
theorem Retries.once_iff (effect : Retries executions (retryRow pick executions) added store after) :
    (added.map ExecutionRow.jobId).Nodup ↔ RetriesOnce store executions := by
  rw [effect.jobIds, List.nodup_iff_count_le_one]
  constructor
  · intro once row member active named
    have done := (settled_retryRow_iff pick row.jobId).mpr ⟨row, member, rfl, active, named⟩
    have count := once row.jobId
    rwa [List.count_filter done] at count
  · intro once id
    cases done : settled store (retryRow pick executions) id with
    | true =>
        obtain ⟨row, member, rfl, active, named⟩ := (settled_retryRow_iff pick id).mp done
        rw [List.count_filter done]
        exact once row member active named
    | false =>
        rw [List.count_eq_zero_of_not_mem (by simp [done])]
        exact Nat.zero_le 1

theorem Retries.fresh {change : ExecutionRow → ExecutionRow}
    (effect : Retries executions change added store after) {row : ExecutionRow}
    (member : row ∈ added) : store.nextUuid ≤ row.id ∧ row.id < after.nextUuid := by
  rw [effect.nextUuid]
  exact fresh_of_ids effect.ids member

theorem JobInvariant.retries (inv : JobInvariant store)
    (effect : Retries executions (retryRow pick executions) added store after)
    (carries : CarriesJobs store (executions.map fun execution => execution.failedExecution))
    (once : RetriesOnce store executions) : JobInvariant after := by
  have kept := fun (row : ExecutionRow) => (effect.execution row).eq_of_active rfl
  have addedActive : ∀ row ∈ added, row.active = true := fun row member =>
    (ExecutionRow.active_iff_status row).mpr (.inl (effect.pending row member))
  have distinct := effect.once_iff.mpr once
  have settles : ∀ row ∈ added, settled store (retryRow pick executions) row.jobId = true :=
    fun row member => (effect.added_iff carries row.jobId).mp (List.mem_map_of_mem member)
  have next : store.nextUuid ≤ after.nextUuid := by
    rw [effect.nextUuid]
    exact Nat.le_add_right ..
  refine ⟨?_, ?_, ?_, ?_, ?_⟩
  · intro row member
    rw [effect.executions, List.mem_append, List.mem_map] at member
    obtain ⟨before, present, rfl⟩ | new := member
    · rw [(effect.execution before).id_eq]
      exact Nat.lt_of_lt_of_le (inv.issuedExecutions before present) next
    · exact (effect.fresh new).2
  · intro job member
    rw [effect.jobs] at member
    exact Nat.lt_of_lt_of_le (inv.issuedJobs job member) next
  · intro job member
    rw [effect.jobs] at member
    rw [inv.running job member]
    simp only [effect.executions, List.mem_append, List.mem_map]
    constructor
    · rintro ⟨row, present, same, active⟩
      cases done : (retryRow pick executions row).active with
      | true =>
          exact ⟨_, .inl ⟨row, present, rfl⟩, (effect.execution row).job_eq.trans same, done⟩
      | false =>
          have settledJob := (settled_iff store (retryRow pick executions) job.id).mpr
            ⟨row, present, same, active, done⟩
          obtain ⟨new, newMember, newSame⟩ :=
            List.mem_map.mp ((effect.added_iff carries job.id).mpr settledJob)
          exact ⟨new, .inr newMember, newSame, addedActive new newMember⟩
    · rintro ⟨_, ⟨row, present, rfl⟩ | new, same, active⟩
      · rw [kept row active] at same active
        exact ⟨row, present, same, active⟩
      · obtain ⟨row, present, rowSame, rowActive, _⟩ := (settled_iff ..).mp (settles _ new)
        exact ⟨row, present, rowSame.trans same, rowActive⟩
  · intro row member active other otherMember same
    rw [effect.executions, List.mem_append, List.mem_map] at member otherMember
    obtain ⟨before, present, rfl⟩ | new := member
    · have unchanged := kept before active
      rw [unchanged] at active same ⊢
      obtain ⟨otherBefore, otherPresent, rfl⟩ | otherNew := otherMember
      · rw [(effect.execution otherBefore).job_eq] at same
        rw [(effect.execution otherBefore).id_eq]
        exact inv.latest before present active otherBefore otherPresent same
      · -- the job of a new execution has lost its active one
        have finished := inv.finished_of_settled (settles other otherNew) present same.symm active
        rw [unchanged, active] at finished
        cases finished
    · obtain ⟨otherBefore, otherPresent, rfl⟩ | otherNew := otherMember
      · rw [(effect.execution otherBefore).id_eq]
        exact Nat.le_of_lt
          (Nat.lt_of_lt_of_le (inv.issuedExecutions otherBefore otherPresent) (effect.fresh new).1)
      · rw [List.inj_on_of_nodup_map distinct otherNew new same]
  · intro job member inactive
    rw [effect.jobs] at member
    have unsettled : settled store (retryRow pick executions) job.id = false := by
      rw [Bool.eq_false_iff]
      exact fun done => inactive (inv.active_of_settled member done)
    obtain ⟨row, present, same, status, last⟩ := inv.outcome job member inactive
    have unchanged := (effect.execution row).eq_of_not_active
      (inv.not_active member inactive present same)
    rw [effect.executions]
    refine ⟨row, List.mem_append_left _ (List.mem_map.mpr ⟨row, present, unchanged⟩), same, status,
      ?_⟩
    intro other otherMember otherSame
    obtain old | new := List.mem_append.mp otherMember
    · obtain ⟨before, beforePresent, rfl⟩ := List.mem_map.mp old
      rw [(effect.execution before).job_eq] at otherSame
      rw [(effect.execution before).id_eq]
      exact last before beforePresent otherSame
    · have done := settles other new
      rw [otherSame, unsettled] at done
      cases done

end Retried

namespace JobInvariant

variable {store after : Store}

theorem adds (inv : JobInvariant store) {newJobs : List JobRow} {added : List ExecutionRow}
    {claim : ScheduleRow → ScheduleRow}
    (effect : AddsJobs store.nextUuid newJobs added claim store after) : JobInvariant after := by
  have newIds : (newJobs.map JobRow.id).Nodup := by
    have unique := after.jobs.unique
    rw [effect.jobs, List.map_append] at unique
    exact (List.nodup_append.mp unique).2.1
  have issued : ∀ row ∈ store.executions.rows, row.jobId < store.nextUuid := by
    intro row member
    obtain ⟨job, present, same⟩ := store.execution_job row member
    rw [← same]
    exact inv.issuedJobs job present
  have new : ∀ row ∈ added, store.nextUuid ≤ row.jobId := by
    intro row member
    have known := List.mem_map_of_mem (f := ExecutionRow.jobId) member
    rw [effect.jobIds] at known
    obtain ⟨job, present, same⟩ := List.mem_map.mp known
    rw [← same]
    exact (effect.freshJobs job present).1
  refine ⟨?_, ?_, ?_, ?_, ?_⟩
  · intro row member
    rw [effect.executions, List.mem_append] at member
    obtain old | fresh := member
    · exact Nat.lt_of_lt_of_le (inv.issuedExecutions row old) effect.nextUuid
    · exact (effect.fresh row fresh).2
  · intro job member
    rw [effect.jobs, List.mem_append] at member
    obtain old | fresh := member
    · exact Nat.lt_of_lt_of_le (inv.issuedJobs job old) effect.nextUuid
    · exact (effect.freshJobs job fresh).2
  · intro job member
    rw [effect.jobs, List.mem_append] at member
    simp only [effect.executions, List.mem_append]
    obtain old | fresh := member
    · rw [inv.running job old]
      constructor
      · rintro ⟨row, present, facts⟩
        exact ⟨row, .inl present, facts⟩
      · rintro ⟨row, present | fresh, same, active⟩
        · exact ⟨row, present, same, active⟩
        · exact absurd (inv.issuedJobs job old) (Nat.not_lt.mpr (same ▸ new row fresh))
    · have known := List.mem_map_of_mem (f := JobRow.id) fresh
      rw [← effect.jobIds] at known
      obtain ⟨row, present, same⟩ := List.mem_map.mp known
      refine iff_of_true (effect.unfinished job fresh).1 ⟨row, .inr present, same, ?_⟩
      exact (ExecutionRow.active_iff_status row).mpr (.inl (effect.pending row present))
  · intro row member active other otherMember same
    rw [effect.executions, List.mem_append] at member otherMember
    obtain old | fresh := member
    · obtain otherOld | otherFresh := otherMember
      · exact inv.latest row old active other otherOld same
      · exact absurd (issued row old) (Nat.not_lt.mpr (same ▸ new other otherFresh))
    · obtain otherOld | otherFresh := otherMember
      · exact absurd (issued other otherOld) (Nat.not_lt.mpr (same ▸ new row fresh))
      · rw [← effect.jobIds] at newIds
        rw [List.inj_on_of_nodup_map newIds otherFresh fresh same]
  · intro job member inactive
    rw [effect.jobs, List.mem_append] at member
    obtain old | fresh := member
    · obtain ⟨row, present, same, status, last⟩ := inv.outcome job old inactive
      rw [effect.executions]
      refine ⟨row, List.mem_append_left _ present, same, status, ?_⟩
      intro other otherMember otherSame
      obtain otherOld | otherFresh := List.mem_append.mp otherMember
      · exact last other otherOld otherSame
      · exact absurd (inv.issuedJobs job old)
          (Nat.not_lt.mpr (otherSame ▸ new other otherFresh))
    · exact absurd (effect.unfinished job fresh).1 inactive

/-- The executions of a job that remains are not deleted. -/
theorem jobDeleted_eq_false {doomed : JobRow → Bool} {job : JobRow} (hjob : job ∈ store.jobs.rows)
    (kept : doomed job = false) : store.jobDeleted doomed job.id = false := by
  simp only [Store.jobDeleted, List.any_eq_false, Bool.and_eq_true, beq_iff_eq, not_and]
  intro other member gone same
  rw [store.jobs.eq_of_key member hjob same, kept] at gone
  cases gone

theorem deletes (inv : JobInvariant store) (doomed : JobRow → Bool) :
    JobInvariant (store.deleteJobs doomed) := by
  have remaining : ∀ {job}, job ∈ (store.deleteJobs doomed).jobs.rows →
      job ∈ store.jobs.rows ∧ store.jobDeleted doomed job.id = false := by
    intro job member
    simp only [Store.deleteJobs, Table.delete_rows, List.mem_filter, Bool.not_eq_true'] at member
    exact ⟨member.1, jobDeleted_eq_false member.1 member.2⟩
  have executions : ∀ row, row ∈ (store.deleteJobs doomed).executions.rows ↔
      row ∈ store.executions.rows ∧ store.jobDeleted doomed row.jobId = false := by
    intro row
    simp [Store.deleteJobs]
  refine ⟨?_, ?_, ?_, ?_, ?_⟩
  · intro row member
    exact inv.issuedExecutions row ((executions row).mp member).1
  · intro job member
    exact inv.issuedJobs job (remaining member).1
  · intro job member
    obtain ⟨present, kept⟩ := remaining member
    rw [inv.running job present]
    constructor
    · rintro ⟨row, rowMember, same, active⟩
      exact ⟨row, (executions row).mpr ⟨rowMember, by rw [same]; exact kept⟩, same, active⟩
    · rintro ⟨row, rowMember, facts⟩
      exact ⟨row, ((executions row).mp rowMember).1, facts⟩
  · intro row member active other otherMember
    exact inv.latest row ((executions row).mp member).1 active other
      ((executions other).mp otherMember).1
  · intro job member inactive
    obtain ⟨present, kept⟩ := remaining member
    obtain ⟨row, rowMember, same, status, last⟩ := inv.outcome job present inactive
    exact ⟨row, (executions row).mpr ⟨rowMember, by rw [same]; exact kept⟩, same, status,
      fun other otherMember => last other ((executions other).mp otherMember).1⟩

theorem step {operation : Operation} (inv : JobInvariant store)
    (carries : operation.carriesJobs store) (once : operation.retriesOnce store)
    (done : operation.apply store = some after) : JobInvariant after := by
  cases operation with
  | addJobs now pick jobs ifNotExists =>
      obtain ⟨⟨_, result⟩, added, rfl⟩ := Option.map_eq_some_iff.mp done
      obtain ⟨_, _, _, effect⟩ := addJobs_adds added
      exact inv.adds effect
  | addSchedules now schedules ifNotExists =>
      obtain ⟨⟨_, result⟩, added, rfl⟩ := Option.map_eq_some_iff.mp done
      obtain ⟨_, effect⟩ := addSchedules_adds added
      exact inv.congr effect.jobs effect.executions effect.nextUuid
  | stopSchedules now filters =>
      cases done
      exact inv.congr rfl rfl (Nat.le_refl _)
  | executionsStarted pick executions =>
      cases done
      exact inv.starts (executionsStarted_starts store pick executions)
  | executionsSucceeded pick executions =>
      cases done
      obtain ⟨_, _, effect⟩ := executionsSucceeded_finishes store pick executions
      exact inv.finishes effect
  | executionsFailed pick executions =>
      cases done
      obtain ⟨_, _, effect⟩ := executionsFailed_finishes store pick executions
      exact inv.finishes effect
  | executionsRetried now pick executions =>
      obtain ⟨_, effect⟩ := executionsRetried_retries done
      exact inv.retries effect carries once
  | cancelJobs now systemNow pick filters =>
      cases done
      obtain ⟨_, _, _, effect⟩ := cancelJobs_finishes store now systemNow pick filters
      exact inv.finishes effect
  | deleteHistory deleteBatchSize before =>
      cases done
      exact deleteHistory_preserves (fun _ doomed inv _ => inv.deletes doomed)
        (fun _ _ inv _ => inv.congr rfl rfl (Nat.le_refl _))
        (fun _ _ inv => inv.congr rfl rfl (Nat.le_refl _)) deleteBatchSize before inv

end JobInvariant

/-- Operations whose batches carry the right jobs and name a retried job once. -/
def Operation.retriesSound (store : Store) (operation : Operation) : Prop :=
  operation.carriesJobs store ∧ operation.retriesOnce store

instance (store : Store) (operation : Operation) : Decidable (operation.retriesSound store) :=
  inferInstanceAs (Decidable (_ ∧ _))

theorem jobInvariant_of_reaches {start store : Store} (initial : JobInvariant start)
    (run : Reaches Operation.apply (fun store operation => operation.retriesSound store) start store) :
    JobInvariant store :=
  run.invariant (fun _ _ _ inv permitted done => inv.step permitted.1 permitted.2 done) initial

end Ora.Postgres
