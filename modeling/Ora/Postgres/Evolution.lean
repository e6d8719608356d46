import Ora.Postgres.JobInvariant

/-!
# Rows across operations

What every operation keeps, whatever its arguments: new rows get identifiers
that were not issued before, an execution that is not pending or not active
never is again, and the executions of a job are only deleted with the job.
-/

namespace Ora.Postgres

open Ora.Backend
open Ora.Library

/-- The identifiers of all rows were issued. -/
structure Issued (store : Store) : Prop where
  executions : ∀ row ∈ store.executions.rows, row.id < store.nextUuid
  jobs : ∀ job ∈ store.jobs.rows, job.id < store.nextUuid

theorem Issued.empty : Issued .empty := ⟨by simp [Store.empty], by simp [Store.empty]⟩

/-- No execution with the identifier is pending, now or later. -/
structure NotPending (store : Store) (id : ExecutionId) : Prop where
  issued : id < store.nextUuid
  status : ∀ row ∈ store.executions.rows, row.id = id → row.status ≠ .pending

/-- No execution with the identifier is active, now or later. -/
structure NotActive (store : Store) (id : ExecutionId) : Prop where
  issued : id < store.nextUuid
  active : ∀ row ∈ store.executions.rows, row.id = id → row.active = false

/-- What a row keeps: it does not become pending or active. -/
structure Succeeds (before row : ExecutionRow) : Prop where
  id : row.id = before.id
  jobId : row.jobId = before.jobId
  pending : row.status = .pending → before.status = .pending
  active : row.active = true → before.active = true

theorem Succeeds.refl (row : ExecutionRow) : Succeeds row row :=
  ⟨rfl, rfl, fun pending => pending, fun active => active⟩

structure Evolves (store after : Store) : Prop where
  next : store.nextUuid ≤ after.nextUuid
  executions : ∀ row ∈ after.executions.rows,
    (∃ before ∈ store.executions.rows, Succeeds before row) ∨
    store.nextUuid ≤ row.id ∧ row.id < after.nextUuid
  jobs : ∀ job ∈ after.jobs.rows,
    (∃ before ∈ store.jobs.rows, before.id = job.id ∧
      before.retryPolicyJson = job.retryPolicyJson) ∨
    store.nextUuid ≤ job.id ∧ job.id < after.nextUuid
  siblings : ∀ before ∈ store.executions.rows,
    (∃ job ∈ after.jobs.rows, job.id = before.jobId) →
    ∃ row ∈ after.executions.rows, row.id = before.id ∧ row.jobId = before.jobId

namespace Evolves

variable {store after : Store}

theorem congr (jobs : after.jobs = store.jobs) (executions : after.executions = store.executions)
    (next : store.nextUuid ≤ after.nextUuid) : Evolves store after where
  next := next
  executions row member := .inl ⟨row, executions ▸ member, .refl row⟩
  jobs job member := .inl ⟨job, jobs ▸ member, rfl, rfl⟩
  siblings row member _ := ⟨row, executions ▸ member, rfl, rfl⟩

theorem refl (store : Store) : Evolves store store := .congr rfl rfl (Nat.le_refl _)

/-- Rows are changed in place and new ones are appended. -/
theorem of_rows (change : ExecutionRow → ExecutionRow) (added : List ExecutionRow)
    (mark : JobRow → JobRow) (new : List JobRow) (next : store.nextUuid ≤ after.nextUuid)
    (executions : after.executions.rows = store.executions.rows.map change ++ added)
    (keeps : ∀ row, Succeeds row (change row))
    (fresh : ∀ row ∈ added, store.nextUuid ≤ row.id ∧ row.id < after.nextUuid)
    (jobs : after.jobs.rows = store.jobs.rows.map mark ++ new)
    (keepsJobs : ∀ job, (mark job).id = job.id ∧ (mark job).retryPolicyJson = job.retryPolicyJson)
    (freshJobs : ∀ job ∈ new, store.nextUuid ≤ job.id ∧ job.id < after.nextUuid) :
    Evolves store after where
  next := next
  executions row member := by
    rw [executions, List.mem_append, List.mem_map] at member
    rcases member with ⟨before, present, rfl⟩ | added
    · exact .inl ⟨before, present, keeps before⟩
    · exact .inr (fresh row added)
  jobs job member := by
    rw [jobs, List.mem_append, List.mem_map] at member
    rcases member with ⟨before, present, rfl⟩ | added
    · exact .inl ⟨before, present, (keepsJobs before).1.symm, (keepsJobs before).2.symm⟩
    · exact .inr (freshJobs job added)
  siblings before member _ := by
    refine ⟨change before, ?_, (keeps before).id, (keeps before).jobId⟩
    rw [executions]
    exact List.mem_append_left _ (List.mem_map_of_mem member)

theorem rowFinish_succeeds {status : ExecutionStatus} {row final : ExecutionRow}
    (finish : RowFinish status row final) (isTerminal : terminal status = true) :
    Succeeds row final := by
  have same : final.active = true → final = row := finish.eq_of_active isTerminal
  refine ⟨finish.id_eq, finish.job_eq, fun pending => ?_, fun active => ?_⟩
  · have active : final.active = true := (ExecutionRow.active_iff_status final).mpr (.inl pending)
    rw [← same active]
    exact pending
  · rw [← same active]
    exact active

theorem finishes {status : ExecutionStatus} {change : ExecutionRow → ExecutionRow}
    {mark : JobRow → JobRow} {free : ScheduleRow → ScheduleRow}
    (effect : Finishes status change mark free store after) : Evolves store after := by
  refine of_rows change [] mark [] (Nat.le_of_eq effect.nextUuid.symm)
    (by rw [effect.executions, List.append_nil]) ?_ (by simp)
    (by rw [effect.jobs, List.append_nil]) ?_ (by simp)
  · exact fun row => rowFinish_succeeds (effect.execution row) effect.isTerminal
  · intro job
    cases done : settled store change job.id with
    | true =>
        obtain ⟨time, marked⟩ := effect.marked job done
        rw [marked]
        exact ⟨rfl, rfl⟩
    | false =>
        rw [effect.unmarked job done]
        exact ⟨rfl, rfl⟩

theorem starts {executions : List StartedExecution} {change : ExecutionRow → ExecutionRow}
    (effect : Starts executions change store after) : Evolves store after := by
  refine of_rows change [] (fun job => job) []
    (Nat.le_of_eq effect.nextUuid.symm) (by rw [effect.executions, List.append_nil]) ?_ (by simp)
    (by rw [effect.jobs, List.map_id', List.append_nil]) (fun _ => ⟨rfl, rfl⟩) (by simp)
  intro row
  obtain ⟨id, jobId, active⟩ := effect.keeps row
  refine ⟨id, jobId, ?_, fun after => active.symm.trans after⟩
  rcases effect.execution row with kept | ⟨execution, _, startable, changed⟩
  · rw [kept]
    exact fun pending => pending
  · rw [changed, (setStarted_status startable).2]
    exact fun pending => by cases pending

theorem retries {executions : List RetriedExecution} {change : ExecutionRow → ExecutionRow}
    {added : List ExecutionRow} (effect : Retries executions change added store after) :
    Evolves store after := by
  refine of_rows change added (fun job => job) [] ?_ effect.executions ?_
    (fun _ => effect.fresh) (by rw [effect.jobs, List.map_id', List.append_nil])
    (fun _ => ⟨rfl, rfl⟩) (by simp)
  · rw [effect.nextUuid]
    exact Nat.le_add_right ..
  · exact fun row => rowFinish_succeeds (effect.execution row) rfl

theorem adds {newJobs : List JobRow} {added : List ExecutionRow} {claim : ScheduleRow → ScheduleRow}
    (effect : AddsJobs store.nextUuid newJobs added claim store after) : Evolves store after :=
  of_rows (fun row => row) added (fun job => job) newJobs effect.nextUuid
    (by rw [effect.executions, List.map_id']) .refl effect.fresh
    (by rw [effect.jobs, List.map_id']) (fun _ => ⟨rfl, rfl⟩) effect.freshJobs

theorem deletes (evolves : Evolves store after) (doomed : JobRow → Bool) :
    Evolves store (after.deleteJobs doomed) where
  next := evolves.next
  executions row member := by
    simp only [Store.deleteJobs, Table.delete_rows, List.mem_filter] at member
    exact evolves.executions row member.1
  jobs job member := by
    simp only [Store.deleteJobs, Table.delete_rows, List.mem_filter] at member
    exact evolves.jobs job member.1
  siblings before member := by
    rintro ⟨job, present, same⟩
    simp only [Store.deleteJobs, Table.delete_rows, List.mem_filter, Bool.not_eq_true'] at present
    obtain ⟨row, rowMember, id, jobId⟩ := evolves.siblings before member ⟨job, present.1, same⟩
    refine ⟨row, ?_, id, jobId⟩
    have kept := JobInvariant.jobDeleted_eq_false present.1 present.2
    simp only [Store.deleteJobs, Table.delete_rows, List.mem_filter, Bool.not_eq_true']
    refine ⟨rowMember, ?_⟩
    rw [jobId, ← same]
    exact kept

theorem cancels (store : Store) (now systemNow : Time) (pick : Pick) (filters : JobFilters) :
    Evolves store (PostgresBackend.cancelJobs store now systemNow pick filters).1 := by
  obtain ⟨_, _, _, effect⟩ := cancelJobs_finishes store now systemNow pick filters
  exact .finishes effect

/-- What every operation keeps. -/
theorem of_apply {operation : Operation} (done : operation.apply store = some after) :
    Evolves store after := by
  cases operation with
  | addJobs now pick jobs ifNotExists =>
      obtain ⟨⟨_, result⟩, added, rfl⟩ := Option.map_eq_some_iff.mp done
      obtain ⟨_, _, _, effect⟩ := addJobs_adds added
      exact .adds effect
  | addSchedules now schedules ifNotExists =>
      obtain ⟨⟨_, result⟩, added, rfl⟩ := Option.map_eq_some_iff.mp done
      obtain ⟨_, effect⟩ := addSchedules_adds added
      exact .congr effect.jobs effect.executions effect.nextUuid
  | stopSchedules now filters =>
      cases done
      exact .congr rfl rfl (Nat.le_refl _)
  | executionsStarted pick executions =>
      cases done
      exact .starts (executionsStarted_starts store pick executions)
  | executionsSucceeded pick executions =>
      cases done
      obtain ⟨_, _, effect⟩ := executionsSucceeded_finishes store pick executions
      exact .finishes effect
  | executionsFailed pick executions =>
      cases done
      obtain ⟨_, _, effect⟩ := executionsFailed_finishes store pick executions
      exact .finishes effect
  | executionsRetried now pick executions =>
      obtain ⟨_, effect⟩ := executionsRetried_retries done
      exact .retries effect
  | cancelJobs now systemNow pick filters =>
      cases done
      exact .cancels store now systemNow pick filters
  | deleteHistory deleteBatchSize before =>
      cases done
      exact deleteHistory_preserves (P := Evolves store)
        (fun _ doomed evolves _ => evolves.deletes doomed)
        (fun _ _ evolves _ => ⟨evolves.next, evolves.executions, evolves.jobs, evolves.siblings⟩)
        (fun _ _ evolves => ⟨evolves.next, evolves.executions, evolves.jobs, evolves.siblings⟩)
        deleteBatchSize before (.refl store)

theorem issued (evolves : Evolves store after) (before : Issued store) : Issued after where
  executions row member := by
    rcases evolves.executions row member with ⟨old, present, same⟩ | fresh
    · rw [same.id]
      exact Nat.lt_of_lt_of_le (before.executions old present) evolves.next
    · exact fresh.2
  jobs job member := by
    rcases evolves.jobs job member with ⟨old, present, same, _⟩ | fresh
    · rw [← same]
      exact Nat.lt_of_lt_of_le (before.jobs old present) evolves.next
    · exact fresh.2

/-- An execution with an issued identifier was there before. -/
theorem exists_before (evolves : Evolves store after) {row : ExecutionRow}
    (member : row ∈ after.executions.rows) (issued : row.id < store.nextUuid) :
    ∃ before ∈ store.executions.rows, Succeeds before row :=
  (evolves.executions row member).resolve_right fun fresh =>
    absurd issued (Nat.not_lt.mpr fresh.1)

theorem notPending (evolves : Evolves store after) {id : ExecutionId}
    (before : NotPending store id) : NotPending after id where
  issued := Nat.lt_of_lt_of_le before.issued evolves.next
  status row member same pending := by
    obtain ⟨old, present, succeeds⟩ := evolves.exists_before member (same ▸ before.issued)
    exact before.status old present (succeeds.id.symm.trans same) (succeeds.pending pending)

theorem notActive (evolves : Evolves store after) {id : ExecutionId}
    (before : NotActive store id) : NotActive after id where
  issued := Nat.lt_of_lt_of_le before.issued evolves.next
  active row member same := by
    obtain ⟨old, present, succeeds⟩ := evolves.exists_before member (same ▸ before.issued)
    have inactive := before.active old present (succeeds.id.symm.trans same)
    rw [Bool.eq_false_iff] at inactive ⊢
    exact fun active => inactive (succeeds.active active)

end Evolves

/-- Executions that are named by a start are not pending afterwards. -/
theorem executionsStarted_notPending {store : Store} (pick : Pick)
    {executions : List StartedExecution} {execution : StartedExecution}
    (member : execution ∈ executions) (known : execution.executionId < store.nextUuid) :
    NotPending (PostgresBackend.executionsStarted store pick executions).1
      execution.executionId where
  issued := by
    rw [(executionsStarted_starts store pick executions).nextUuid]
    exact known
  status row present same pending := by
    rw [(executionsStarted_starts store pick executions).executions, List.mem_map] at present
    obtain ⟨before, _, rfl⟩ := present
    rcases Table.replaced_cases executions PostgresBackend.startable PostgresBackend.setStarted
      (fun row => pick row.id) before with ⟨unmatched, kept, _⟩ | ⟨entry, _, matching, changed, _⟩
    · rw [kept] at same pending
      have unmatched := unmatched execution member
      simp [PostgresBackend.startable, same, pending] at unmatched
    · rw [changed, (setStarted_status matching).2] at pending
      cases pending

end Ora.Postgres
