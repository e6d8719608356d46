import Ora.Postgres.Effects
import Ora.Postgres.Inserts

/-!
# What the operations announce

After the commit the operations of `PostgresBackend` wake up those who wait for
ready executions and for pending schedules.  Whatever becomes pending is among
what they announce.
-/

namespace Ora.Postgres

open Ora.Backend
open Ora.Library

namespace PostgresBackend

/-- The jobs that `add_jobs` adds. -/
def jobsAdmitted (store : Store) (now : Time) (pick : Pick) (jobs : List NewJob)
    (ifNotExists : Option JobFilters) : List (NewJob × JobId) :=
  if jobs.isEmpty || !(existingJobs store now ifNotExists).isEmpty then
    []
  else
    let (ids, store) := store.nowV7 jobs.length
    admitted (claimSchedules store pick (claims (jobs.zip ids))).2 (jobs.zip ids)

/-- The new executions that `notify_new_executions` is told of. -/
def announced (store : Store) : Operation → List NewExecution
  | .addJobs now pick jobs ifNotExists =>
      (jobsAdmitted store now pick jobs ifNotExists).map fun entry =>
        ⟨entry.2, entry.1.job.targetExecutionTime⟩
  | .executionsRetried _ pick executions =>
      retained (Postgres.executionsFailed store pick
          (executions.map fun execution => execution.failedExecution)).2
        (executions.map fun execution =>
          ⟨execution.failedExecution.jobId, execution.retryExecutionTime⟩)
  | _ => []

theorem setSucceeded_keeps (row : ExecutionRow) (execution : SucceededExecution) :
    (setSucceeded row execution).id = row.id ∧ (setSucceeded row execution).jobId = row.jobId :=
  ⟨rfl, rfl⟩

/-- Whether the waiters for pending schedules are notified. -/
def freesSchedules (store : Store) : Operation → Bool
  | .addSchedules _ schedules ifNotExists =>
      !schedules.isEmpty && (existingSchedules store ifNotExists).isEmpty
  | .executionsSucceeded pick executions =>
      let updated := store.updateExecutionsFrom executions
        (fun row execution => finishable execution.executionId row) setSucceeded
        setSucceeded_keeps pick
      (markJobsInactive updated.1 pick (updated.2.map fun row =>
        (row.1.jobId, systemtimeFromTs (systemtimeToTs row.2.succeededAt))) .succeeded).2
  | .executionsFailed pick executions =>
      let failed := Postgres.executionsFailed store pick executions
      (markJobsInactive failed.1 pick failed.2 .failed).2
  | .cancelJobs now systemNow pick filters =>
      let cancelled := Postgres.cancelJobs store now filters
      (markJobsInactive cancelled.1 pick
        (cancelled.2.map fun job => (job.jobId, systemNow)) .cancelled).2
  | _ => false

variable {store after : Store} {operation : Operation}

theorem addExecutions_rows {now : Time} {executions : List NewExecution}
    (done : addExecutions store now executions = some after) {row : ExecutionRow}
    (member : row ∈ after.executions.rows) :
    row ∈ store.executions.rows ∨ ∃ new ∈ executions,
      row.targetExecutionTime = systemtimeToTs new.targetExecutionTime := by
  unfold addExecutions at done
  split at done
  · cases done
    exact .inl member
  · obtain ⟨rows, _⟩ := Store.insertExecutions?_spec done
    rw [rows, List.mem_append] at member
    obtain known | added := member
    · exact .inl known
    · obtain ⟨⟨id, new⟩, pair, made⟩ := List.mem_filterMap.mp added
      obtain ⟨job, _, rfl⟩ := Option.map_eq_some_iff.mp made
      exact .inr ⟨new, (List.of_mem_zip pair).2, rfl⟩

theorem addJobs_rows {now : Time} {pick : Pick} {jobs : List NewJob}
    {ifNotExists : Option JobFilters} {result : AddedJobs}
    (done : addJobs store now pick jobs ifNotExists = some (after, result)) {row : ExecutionRow}
    (member : row ∈ after.executions.rows) :
    row ∈ store.executions.rows ∨ ∃ entry ∈ jobsAdmitted store now pick jobs ifNotExists,
      row.targetExecutionTime = systemtimeToTs entry.1.job.targetExecutionTime := by
  unfold addJobs at done
  unfold jobsAdmitted
  split at done
  · cases done
    exact .inl member
  split at done
  · cases done
    exact .inl member
  rename_i some_jobs missing
  rw [if_neg (by simp [some_jobs, missing])]
  unfold admitJobs at done
  dsimp only at done ⊢
  obtain ⟨_, _, sameExecutions, _⟩ := claimSchedules_spec (store.nowV7 jobs.length).2 pick
    (claims (jobs.zip (store.nowV7 jobs.length).1))
  split at done
  · cases done
    rw [sameExecutions] at member
    exact .inl member
  · obtain ⟨inserted, insertDone, pair⟩ := Option.map_eq_some_iff.mp done
    cases pair
    obtain ⟨withJobs, jobsDone, insertDone⟩ := Option.bind_eq_some_iff.mp insertDone
    obtain ⟨withLabels, labelsDone, insertDone⟩ := Option.bind_eq_some_iff.mp insertDone
    obtain ⟨_, _, executions, _⟩ := Store.insertJobs?_spec jobsDone
    obtain ⟨_, _, labelExecutions, _⟩ := Store.insertJobLabels?_spec labelsDone
    obtain known | ⟨new, among, target⟩ := addExecutions_rows insertDone member
    · rw [labelExecutions, executions, sameExecutions] at known
      exact .inl known
    · obtain ⟨entry, present, rfl⟩ := List.mem_map.mp among
      exact .inr ⟨entry, present, target⟩

/-- An update that finishes executions makes none pending. -/
theorem finished_rows {status : ExecutionStatus} {change : ExecutionRow → ExecutionRow}
    (isTerminal : terminal status = true) (finish : ∀ row, RowFinish status row (change row))
    {rows : List ExecutionRow} {row : ExecutionRow} (member : row ∈ rows.map change)
    (pending : row.status = .pending) : row ∈ rows := by
  obtain ⟨before, known, rfl⟩ := List.mem_map.mp member
  have active := (ExecutionRow.active_iff_status _).mpr (.inl pending)
  rw [(finish before).eq_of_active isTerminal active]
  exact known

theorem executionsRetried_rows {now : Time} {pick : Pick} {executions : List RetriedExecution}
    (done : executionsRetried store now pick executions = some after) {row : ExecutionRow}
    (member : row ∈ after.executions.rows) (pending : row.status = .pending) :
    row ∈ store.executions.rows ∨ ∃ new ∈ announced store (.executionsRetried now pick executions),
      row.targetExecutionTime = systemtimeToTs new.targetExecutionTime := by
  have failed {row : ExecutionRow} (pending : row.status = .pending)
      (member : row ∈ (Postgres.executionsFailed store pick
        (executions.map fun execution => execution.failedExecution)).1.executions.rows) :
      row ∈ store.executions.rows :=
    finished_rows rfl (finishRow_finish setFailed_final) member pending
  unfold executionsRetried at done
  split at done
  · cases done
    exact .inl member
  dsimp only at done
  split at done
  · cases done
    exact .inl (failed pending member)
  · exact (addExecutions_rows done member).imp (failed pending) id

/-- Whatever is pending after an operation was so before, or is announced. -/
theorem pending_announced (done : operation.apply store = some after) {row : ExecutionRow}
    (member : row ∈ after.executions.rows) (pending : row.status = .pending) :
    row ∈ store.executions.rows ∨ ∃ new ∈ announced store operation,
      row.targetExecutionTime = systemtimeToTs new.targetExecutionTime := by
  cases operation with
  | addJobs now pick jobs ifNotExists =>
      obtain ⟨⟨_, result⟩, added, rfl⟩ := Option.map_eq_some_iff.mp done
      obtain known | ⟨entry, among, target⟩ := addJobs_rows added member
      · exact .inl known
      · exact .inr ⟨_, List.mem_map_of_mem among, target⟩
  | addSchedules now schedules ifNotExists =>
      obtain ⟨⟨_, result⟩, added, rfl⟩ := Option.map_eq_some_iff.mp done
      obtain ⟨_, effect⟩ := addSchedules_adds added
      exact .inl (effect.executions ▸ member)
  | stopSchedules now filters =>
      cases done
      exact .inl member
  | executionsStarted pick executions =>
      cases done
      have effect := executionsStarted_starts store pick executions
      rw [effect.executions] at member
      obtain ⟨before, known, rfl⟩ := List.mem_map.mp member
      obtain kept | ⟨execution, _, startable, changed⟩ := effect.execution before
      · rw [kept]
        exact .inl known
      · rw [changed, (setStarted_status startable).2] at pending
        cases pending
  | executionsSucceeded pick executions =>
      cases done
      obtain ⟨_, _, effect⟩ := executionsSucceeded_finishes store pick executions
      rw [effect.executions] at member
      exact .inl (finished_rows effect.isTerminal effect.execution member pending)
  | executionsFailed pick executions =>
      cases done
      obtain ⟨_, _, effect⟩ := executionsFailed_finishes store pick executions
      rw [effect.executions] at member
      exact .inl (finished_rows effect.isTerminal effect.execution member pending)
  | executionsRetried now pick executions => exact executionsRetried_rows done member pending
  | cancelJobs now systemNow pick filters =>
      cases done
      obtain ⟨_, _, _, effect⟩ := cancelJobs_finishes store now systemNow pick filters
      rw [effect.executions] at member
      exact .inl (finished_rows effect.isTerminal effect.execution member pending)
  | deleteHistory deleteBatchSize before =>
      cases done
      refine .inl (deleteHistory_preserves
        (P := fun after => ∀ row ∈ after.executions.rows, row ∈ store.executions.rows)
        (fun _ _ kept _ row member => kept row (List.mem_filter.mp member).1)
        (fun _ _ kept _ => kept) (fun _ _ kept => kept) deleteBatchSize before
        (fun _ member => member) row member)

/-- Active and without an active job. -/
def waitsForJob (row : ScheduleRow) : Prop :=
  row.stoppedAt = none ∧ row.activeJobId = none

theorem markJobsInactive_pending {pick : Pick} {jobs : List (JobId × Time)}
    {status : ExecutionStatus} {row : ScheduleRow}
    (member : row ∈ (markJobsInactive store pick jobs status).1.schedules.rows)
    (waits : waitsForJob row) :
    row ∈ store.schedules.rows ∨ (markJobsInactive store pick jobs status).2 = true := by
  unfold markJobsInactive at member ⊢
  split at member
  · exact .inl member
  · rename_i some_jobs
    rw [if_neg some_jobs]
    obtain ⟨before, known, rfl⟩ := List.mem_map.mp member
    by_cases among : activeJobAmong jobs before = true
    · exact .inr (List.any_eq_true.mpr ⟨before, known, among⟩)
    · rw [freeSchedule, if_neg among]
      exact .inl known

theorem cancelJobs_schedules (store : Store) (now : Time) (filters : JobFilters) :
    (Postgres.cancelJobs store now filters).1.schedules = store.schedules := by
  unfold Postgres.cancelJobs
  split <;> rfl

/-- Whatever waits for a job after an operation did so before, or the waiters are
notified. -/
theorem waiting_announced (done : operation.apply store = some after) {row : ScheduleRow}
    (member : row ∈ after.schedules.rows) (waits : waitsForJob row) :
    row ∈ store.schedules.rows ∨ freesSchedules store operation = true := by
  cases operation with
  | addJobs now pick jobs ifNotExists =>
      obtain ⟨⟨_, result⟩, added, rfl⟩ := Option.map_eq_some_iff.mp done
      obtain ⟨_, _, _, effect⟩ := addJobs_adds added
      rw [effect.schedules] at member
      obtain ⟨before, known, rfl⟩ := List.mem_map.mp member
      obtain kept | ⟨_, _, _, _, _, claimed⟩ := effect.claims before known
      · rw [kept]
        exact .inl known
      · rw [claimed] at waits
        cases waits.2
  | addSchedules now schedules ifNotExists =>
      obtain ⟨⟨_, result⟩, added, rfl⟩ := Option.map_eq_some_iff.mp done
      unfold addSchedules at added
      split at added
      · cases added
        exact .inl member
      split at added
      · cases added
        exact .inl member
      rename_i some_schedules missing
      have none_exists : (existingSchedules store ifNotExists).isEmpty = true := by
        simpa using missing
      exact .inr (by simp [freesSchedules, some_schedules, none_exists])
  | stopSchedules now filters =>
      cases done
      obtain ⟨before, known, rfl⟩ := List.mem_map.mp member
      by_cases named : (selectScheduleIds store
          { filters with statuses := some [.active] }).contains before.id = true
      · rw [stopRow, if_pos named] at waits
        cases waits.1
      · rw [stopRow, if_neg named]
        exact .inl known
  | executionsStarted pick executions =>
      cases done
      have effect := executionsStarted_starts store pick executions
      exact .inl (effect.schedules ▸ member)
  | executionsSucceeded pick executions =>
      cases done
      unfold executionsSucceeded at member
      split at member
      · exact .inl member
      · exact markJobsInactive_pending member waits
  | executionsFailed pick executions =>
      cases done
      unfold executionsFailed at member
      split at member
      · exact .inl member
      · exact markJobsInactive_pending member waits
  | executionsRetried now pick executions =>
      obtain ⟨_, effect⟩ := executionsRetried_retries done
      exact .inl (effect.schedules ▸ member)
  | cancelJobs now systemNow pick filters =>
      cases done
      rw [← cancelJobs_schedules store now filters]
      exact markJobsInactive_pending member waits
  | deleteHistory deleteBatchSize before =>
      cases done
      exact .inl (deleteHistory_preserves
        (P := fun after => ∀ row ∈ after.schedules.rows, row ∈ store.schedules.rows)
        (fun _ _ kept _ => kept) (fun _ _ kept _ row member => kept row (List.mem_filter.mp member).1)
        (fun _ _ kept => kept) deleteBatchSize before (fun _ member => member) row member)

end PostgresBackend

end Ora.Postgres
