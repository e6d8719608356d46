import Ora.Postgres.Effects

/-!
# Effects of adding rows

Retried executions, added jobs and added schedules.  New rows carry the next
identifiers, in the order of the entries they are made for.
-/

namespace Ora.Postgres

open Ora.Backend
open Ora.Library

/-- Executions are appended for the entries, in order. -/
structure AddsExecutions (new : List NewExecution) (added : List ExecutionRow)
    (store after : Store) : Prop where
  pending : ∀ row ∈ added, row.status = .pending
  ids : added.map ExecutionRow.id = List.range' store.nextUuid added.length
  jobIds : added.map ExecutionRow.jobId = new.map NewExecution.jobId
  executions : after.executions.rows = store.executions.rows ++ added
  jobs : after.jobs = store.jobs
  schedules : after.schedules = store.schedules
  nextUuid : after.nextUuid = store.nextUuid + added.length

/-- New rows have identifiers that no row had before. -/
theorem fresh_of_ids {rows : List ExecutionRow} {first : Uuid}
    (ids : rows.map ExecutionRow.id = List.range' first rows.length) {row : ExecutionRow}
    (member : row ∈ rows) : first ≤ row.id ∧ row.id < first + rows.length := by
  have inside : row.id ∈ List.range' first rows.length := by
    rw [← ids]
    exact List.mem_map_of_mem member
  simpa [List.mem_range'_1] using inside

theorem newExecutionRows_spec (store : Store) (now : Time) (ids : List ExecutionId)
    {executions : List NewExecution} (length : ids.length = executions.length)
    (exist : ∀ execution ∈ executions, ∃ job ∈ store.jobs.rows, job.id = execution.jobId) :
    (newExecutionRows store now ids executions).map ExecutionRow.id = ids ∧
      (newExecutionRows store now ids executions).map ExecutionRow.jobId =
        executions.map NewExecution.jobId ∧
      ∀ row ∈ newExecutionRows store now ids executions, row.status = .pending := by
  induction ids generalizing executions with
  | nil =>
      obtain rfl := List.eq_nil_of_length_eq_zero length.symm
      simp [newExecutionRows]
  | cons id ids ih =>
      cases executions with
      | nil => simp at length
      | cons execution executions =>
          obtain ⟨job, member, same⟩ := exist execution (List.mem_cons_self ..)
          have found : store.jobs.find? execution.jobId = some job :=
            (Table.find?_eq_some_iff _ _ _).mpr ⟨member, same⟩
          obtain ⟨restIds, restJobs, restPending⟩ := ih (by simpa using length)
            fun other later => exist other (List.mem_cons_of_mem _ later)
          have split : newExecutionRows store now (id :: ids) (execution :: executions) =
              newExecutionRow now id job execution.targetExecutionTime ::
                newExecutionRows store now ids executions := by
            simp [newExecutionRows, found]
          rw [split]
          refine ⟨?_, ?_, ?_⟩
          · rw [List.map_cons, restIds]
            rfl
          · rw [List.map_cons, List.map_cons, restJobs, ← same]
            rfl
          · intro row inside
            obtain rfl | later := List.mem_cons.mp inside
            · exact newExecutionRow_status ..
            · exact restPending row later

theorem addExecutions_adds {store after : Store} {now : Time} {executions : List NewExecution}
    (exist : ∀ execution ∈ executions, ∃ job ∈ store.jobs.rows, job.id = execution.jobId)
    (done : addExecutions store now executions = some after) :
    ∃ added, AddsExecutions executions added store after := by
  cases executions with
  | nil =>
      cases done
      exact ⟨[], ⟨by simp, rfl, rfl, (List.append_nil _).symm, rfl, rfl, rfl⟩⟩
  | cons first rest =>
      obtain ⟨rows, jobs, schedules, next⟩ := Store.insertExecutions?_spec done
      obtain ⟨ids, jobIds, pending⟩ := newExecutionRows_spec
        (store.nowV7 (first :: rest).length).2 now
        (List.range' store.nextUuid (first :: rest).length) List.length_range' exist
      have count := congrArg List.length ids
      rw [List.length_map, List.length_range'] at count
      exact ⟨_, ⟨pending, by rw [ids, count], jobIds, rows, jobs, schedules, by rw [count]; exact next⟩⟩

/-- New executions of existing jobs are always added. -/
theorem addExecutions_isSome {store : Store} (now : Time) {executions : List NewExecution}
    (issued : ∀ row ∈ store.executions.rows, row.id < store.nextUuid)
    (exist : ∀ execution ∈ executions, ∃ job ∈ store.jobs.rows, job.id = execution.jobId) :
    ∃ after, addExecutions store now executions = some after := by
  cases executions with
  | nil => exact ⟨store, rfl⟩
  | cons first rest =>
      have length : (List.range' store.nextUuid (first :: rest).length).length =
          (first :: rest).length := List.length_range'
      obtain ⟨ids, jobIds, _⟩ := newExecutionRows_spec (store.nowV7 (first :: rest).length).2 now
        _ length exist
      refine Store.insertExecutions?_isSome (store.nowV7 (first :: rest).length).2
        (newExecutionRows (store.nowV7 (first :: rest).length).2 now
          (List.range' store.nextUuid (first :: rest).length) (first :: rest)) ?_ ?_
      · rw [List.map_append, ids, List.nodup_append]
        refine ⟨store.executions.unique, List.nodup_range', ?_⟩
        intro known old fresh new same
        obtain ⟨row, member, rfl⟩ := List.mem_map.mp old
        have before := issued row member
        have after := (List.mem_range'_1.mp new).1
        exact absurd (same ▸ before) (Nat.not_lt.mpr after)
      · intro row member
        have known := List.mem_map_of_mem (f := ExecutionRow.jobId) member
        rw [jobIds] at known
        obtain ⟨execution, entry, same⟩ := List.mem_map.mp known
        rw [← same]
        exact exist execution entry

/-- Executions are failed and a new one is added for each entry whose job was
waiting for a failed one. -/
structure Retries (retried : List RetriedExecution) (change : ExecutionRow → ExecutionRow)
    (added : List ExecutionRow) (store after : Store) : Prop where
  execution : ∀ row, RowFinish .failed row (change row)
  pending : ∀ row ∈ added, row.status = .pending
  ids : added.map ExecutionRow.id = List.range' store.nextUuid added.length
  jobIds : added.map ExecutionRow.jobId =
    (retried.map fun execution => execution.failedExecution.jobId).filter
      (settled store change)
  executions : after.executions.rows = store.executions.rows.map change ++ added
  jobs : after.jobs = store.jobs
  schedules : after.schedules = store.schedules
  nextUuid : after.nextUuid = store.nextUuid + added.length

/-- The change made by a call that retries executions. -/
abbrev retryRow (pick : Pick) (executions : List RetriedExecution) : ExecutionRow → ExecutionRow :=
  failRow pick (executions.map fun execution => execution.failedExecution)

theorem retained_jobIds (store : Store) (pick : Pick) (executions : List RetriedExecution) :
    (PostgresBackend.retained (Postgres.executionsFailed store pick
        (executions.map fun execution => execution.failedExecution)).2
        (executions.map fun execution =>
          ⟨execution.failedExecution.jobId, execution.retryExecutionTime⟩)).map
      NewExecution.jobId =
      (executions.map fun execution => execution.failedExecution.jobId).filter
        (settled store (retryRow pick executions)) := by
  have same : ∀ id, ((Postgres.executionsFailed store pick
      (executions.map fun execution => execution.failedExecution)).2.any fun job => job.1 == id) =
      settled store (retryRow pick executions) id := by
    intro id
    rw [Bool.eq_iff_iff, ← executionsFailed_jobs]
    simp
  simp only [PostgresBackend.retained, same]
  rw [List.filter_map, List.filter_map, List.map_map]
  rfl

/-- An execution is retried only for a job that exists. -/
theorem retained_exist (store : Store) (pick : Pick) (executions : List FailedExecution)
    (new : List NewExecution) :
    ∀ execution ∈ PostgresBackend.retained (Postgres.executionsFailed store pick executions).2 new,
      ∃ job ∈ (Postgres.executionsFailed store pick executions).1.jobs.rows,
        job.id = execution.jobId := by
  intro execution member
  have failed := (List.mem_filter.mp member).2
  have done : settled store (failRow pick executions) execution.jobId = true := by
    rw [← executionsFailed_jobs]
    simpa using failed
  obtain ⟨row, present, same, _⟩ := (settled_iff ..).mp done
  rw [← same]
  exact store.execution_job row present

theorem executionsRetried_retries {store after : Store} {now : Time} {pick : Pick}
    {executions : List RetriedExecution}
    (done : PostgresBackend.executionsRetried store now pick executions = some after) :
    ∃ added, Retries executions (retryRow pick executions) added store after := by
  cases executions with
  | nil =>
      cases done
      refine ⟨[], ⟨finishRow_finish setFailed_final, by simp, rfl, rfl, ?_, rfl, rfl, rfl⟩⟩
      rw [List.append_nil]
      exact (List.map_id' _).symm
  | cons first rest =>
      have jobIds := retained_jobIds store pick (first :: rest)
      unfold PostgresBackend.executionsRetried at done
      rw [if_neg (by simp)] at done
      simp only at done
      split at done
      · rename_i nothing
        rw [List.isEmpty_iff] at nothing
        rw [nothing] at jobIds
        cases done
        exact ⟨[], ⟨finishRow_finish setFailed_final, by simp, rfl, jobIds, (List.append_nil _).symm, rfl, rfl,
          rfl⟩⟩
      · obtain ⟨added, adds⟩ := addExecutions_adds (retained_exist store pick _ _) done
        exact ⟨added, ⟨finishRow_finish setFailed_final, adds.pending, adds.ids, adds.jobIds.trans jobIds,
          adds.executions, adds.jobs, adds.schedules, adds.nextUuid⟩⟩

/-- Jobs are appended with one pending execution each, those of a schedule only
when the schedule was free and is theirs now.  Their identifiers start at `first`. -/
structure AddsJobs (first : Uuid) (newJobs : List JobRow) (added : List ExecutionRow)
    (claim : ScheduleRow → ScheduleRow) (store after : Store) : Prop where
  unfinished : ∀ job ∈ newJobs, job.inactiveSince = none ∧ job.inactiveStatus = none
  freshJobs : ∀ job ∈ newJobs, first ≤ job.id ∧ job.id < after.nextUuid
  pending : ∀ row ∈ added, row.status = .pending
  fresh : ∀ row ∈ added, first ≤ row.id ∧ row.id < after.nextUuid
  jobIds : added.map ExecutionRow.jobId = newJobs.map JobRow.id
  claimed : ∀ job ∈ newJobs, ∀ id, job.scheduleId = some id →
    ∃ row ∈ store.schedules.rows, row.id = id ∧ row.stoppedAt = none ∧ row.activeJobId = none ∧
      claim row = { row with activeJobId := some job.id }
  claims : ∀ row ∈ store.schedules.rows, claim row = row ∨
    ∃ job ∈ newJobs, job.scheduleId = some row.id ∧ row.stoppedAt = none ∧
      row.activeJobId = none ∧ claim row = { row with activeJobId := some job.id }
  executions : after.executions.rows = store.executions.rows ++ added
  jobs : after.jobs.rows = store.jobs.rows ++ newJobs
  schedules : after.schedules.rows = store.schedules.rows.map claim
  nextUuid : first ≤ after.nextUuid

theorem AddsJobs.nothing (store : Store) :
    AddsJobs store.nextUuid [] [] (fun row => row) store store where
  unfinished := by simp
  freshJobs := by simp
  pending := by simp
  fresh := by simp
  jobIds := rfl
  claimed := by simp
  claims _ _ := .inl rfl
  executions := (List.append_nil _).symm
  jobs := (List.append_nil _).symm
  schedules := (List.map_id' _).symm
  nextUuid := Nat.le_refl _

open PostgresBackend

theorem claimable_iff (row : ScheduleRow) (claim : JobId × ScheduleId) :
    claimable row claim = true ↔
      row.id = claim.2 ∧ row.stoppedAt = none ∧ row.activeJobId = none := by
  simp [claimable, and_assoc]

/-- The claimed schedules, also when no job names one. -/
theorem claimSchedules_spec (store : Store) (pick : Pick) (source : List (JobId × ScheduleId)) :
    (claimSchedules store pick source).1.schedules.rows =
        store.schedules.rows.map (claimRow pick source) ∧
      (claimSchedules store pick source).1.jobs = store.jobs ∧
      (claimSchedules store pick source).1.executions = store.executions ∧
      (claimSchedules store pick source).1.nextUuid = store.nextUuid := by
  cases source with
  | nil => exact ⟨(List.map_id' _).symm, rfl, rfl, rfl⟩
  | cons _ _ => exact ⟨rfl, rfl, rfl, rfl⟩

/-- A job whose claim is returned has claimed a free schedule. -/
theorem claimed_of_returned {store : Store} {pick : Pick} {source : List (JobId × ScheduleId)}
    {job : JobId} (returned : job ∈ (claimSchedules store pick source).2) :
    ∃ row ∈ store.schedules.rows, (job, row.id) ∈ source ∧ row.stoppedAt = none ∧
      row.activeJobId = none ∧ claimRow pick source row = { row with activeJobId := some job } := by
  cases source with
  | nil => simp [claimSchedules] at returned
  | cons first rest =>
      obtain ⟨result, updated, rfl⟩ := List.mem_map.mp returned
      obtain ⟨row, member, updated⟩ := List.mem_filterMap.mp updated
      obtain ⟨_, _, unmatched⟩ | ⟨claim, present, matching, changed, result'⟩ :=
        Table.replaced_cases (first :: rest) claimable setActiveJob (fun row => pick row.id) row
      · simp [unmatched] at updated
      · rw [result', Option.some.injEq] at updated
        subst updated
        obtain ⟨same, running, free⟩ := (claimable_iff _ _).mp matching
        refine ⟨row, member, ?_, running, free, changed⟩
        rw [same]
        exact present

/-- A schedule is left alone or claimed by a job whose claim is returned. -/
theorem claimRow_cases {store : Store} (pick : Pick) (source : List (JobId × ScheduleId))
    {row : ScheduleRow} (member : row ∈ store.schedules.rows) :
    claimRow pick source row = row ∨ ∃ job ∈ (claimSchedules store pick source).2,
      (job, row.id) ∈ source ∧ row.stoppedAt = none ∧ row.activeJobId = none ∧
        claimRow pick source row = { row with activeJobId := some job } := by
  obtain ⟨_, kept, _⟩ | ⟨claim, present, matching, changed, result⟩ :=
    Table.replaced_cases source claimable setActiveJob (fun row => pick row.id) row
  · exact .inl kept
  · obtain ⟨same, running, free⟩ := (claimable_iff _ _).mp matching
    refine .inr ⟨claim.1, ?_, by rw [same]; exact present, running, free, changed⟩
    cases source with
    | nil => simp at present
    | cons first rest =>
        exact List.mem_map.mpr ⟨_, List.mem_filterMap.mpr ⟨row, member, result⟩, rfl⟩

theorem mem_claims {jobs : List (NewJob × JobId)} {job : JobId} {schedule : ScheduleId} :
    (job, schedule) ∈ claims jobs ↔
      ∃ entry ∈ jobs, entry.2 = job ∧ entry.1.scheduleId = some schedule := by
  simp only [claims, List.mem_filterMap, Option.map_eq_some_iff]
  constructor
  · rintro ⟨entry, member, found, same, pair⟩
    cases pair
    exact ⟨entry, member, rfl, same⟩
  · rintro ⟨entry, member, rfl, same⟩
    exact ⟨entry, member, schedule, same, rfl⟩

/-- The rows inserted for the admitted jobs. -/
theorem insertNewJobs_spec {store after : Store} {now : Time} {jobs : List (NewJob × JobId)}
    (done : insertNewJobs store now jobs = some after) :
    after.jobs.rows = store.jobs.rows ++ jobs.map (newJobRow now) ∧
      after.schedules = store.schedules ∧
      ∃ added : List ExecutionRow, after.executions.rows = store.executions.rows ++ added ∧
        (∀ row ∈ added, row.status = .pending) ∧
        added.map ExecutionRow.jobId = jobs.map Prod.snd ∧
        added.map ExecutionRow.id = List.range' store.nextUuid added.length ∧
        after.nextUuid = store.nextUuid + added.length := by
  obtain ⟨withJobs, jobsDone, done⟩ := Option.bind_eq_some_iff.mp done
  obtain ⟨withLabels, labelsDone, done⟩ := Option.bind_eq_some_iff.mp done
  obtain ⟨jobRows, schedules, executions, next⟩ := Store.insertJobs?_spec jobsDone
  obtain ⟨labelJobs, labelSchedules, labelExecutions, labelNext⟩ :=
    Store.insertJobLabels?_spec labelsDone
  have exist : ∀ execution ∈ jobs.map fun entry : NewJob × JobId =>
      (⟨entry.2, entry.1.job.targetExecutionTime⟩ : NewExecution),
      ∃ job ∈ withLabels.jobs.rows, job.id = execution.jobId := by
    intro execution member
    obtain ⟨entry, present, rfl⟩ := List.mem_map.mp member
    rw [labelJobs, jobRows]
    exact ⟨newJobRow now entry, List.mem_append_right _ (List.mem_map_of_mem present), rfl⟩
  obtain ⟨added, adds⟩ := addExecutions_adds exist done
  refine ⟨by rw [adds.jobs, labelJobs, jobRows], by rw [adds.schedules, labelSchedules, schedules],
    added, by rw [adds.executions, labelExecutions, executions], adds.pending, ?_, ?_, ?_⟩
  · rw [adds.jobIds, List.map_map]
    rfl
  · rw [adds.ids, labelNext, next]
  · rw [adds.nextUuid, labelNext, next]

/-- The schedule of an admitted job was running without a job, and is claimed for it. -/
theorem claimed_of_admitted (store : Store) (pick : Pick) {jobs : List (NewJob × JobId)}
    (distinct : (jobs.map Prod.snd).Nodup) :
    ∀ entry ∈ admitted (claimSchedules store pick (claims jobs)).2 jobs, ∀ id,
      entry.1.scheduleId = some id →
      ∃ row ∈ store.schedules.rows, row.id = id ∧ row.stoppedAt = none ∧ row.activeJobId = none ∧
        claimRow pick (claims jobs) row = { row with activeJobId := some entry.2 } := by
  intro entry member id scheduled
  obtain ⟨present, admission⟩ := List.mem_filter.mp member
  have returned : entry.2 ∈ (claimSchedules store pick (claims jobs)).2 := by
    simpa [scheduled] using admission
  obtain ⟨row, rowMember, source, running, free, changed⟩ := claimed_of_returned returned
  obtain ⟨other, otherMember, sameId, schedule⟩ := mem_claims.mp source
  -- the identifiers are distinct, so the claim is the job's own
  obtain rfl := List.inj_on_of_nodup_map distinct otherMember present sameId
  rw [scheduled] at schedule
  exact ⟨row, rowMember, (Option.some.inj schedule).symm, running, free, changed⟩

/-- A schedule is left alone or claimed for an admitted job. -/
theorem claimRow_admitted (store : Store) (pick : Pick) (jobs : List (NewJob × JobId)) :
    ∀ row ∈ store.schedules.rows, claimRow pick (claims jobs) row = row ∨
      ∃ entry ∈ admitted (claimSchedules store pick (claims jobs)).2 jobs,
        entry.1.scheduleId = some row.id ∧ row.stoppedAt = none ∧ row.activeJobId = none ∧
        claimRow pick (claims jobs) row = { row with activeJobId := some entry.2 } := by
  intro row member
  obtain kept | ⟨id, returned, source, running, free, changed⟩ :=
    claimRow_cases pick (claims jobs) member
  · exact .inl kept
  · obtain ⟨entry, entryMember, rfl, schedule⟩ := mem_claims.mp source
    exact .inr ⟨entry, List.mem_filter.mpr ⟨entryMember, by simp [returned]⟩, schedule, running,
      free, changed⟩

/-- Jobs with new and distinct identifiers are admitted as their claims allow. -/
theorem admitJobs_adds {store after : Store} {now : Time} {pick : Pick}
    {jobs : List (NewJob × JobId)} {result : AddedJobs} {first : Uuid}
    (distinct : (jobs.map Prod.snd).Nodup)
    (fresh : ∀ entry ∈ jobs, first ≤ entry.2 ∧ entry.2 < store.nextUuid)
    (reserved : first ≤ store.nextUuid)
    (done : admitJobs store now pick jobs = some (after, result)) :
    ∃ newJobs added claim, AddsJobs first newJobs added claim store after := by
  obtain ⟨schedules, sameJobs, sameExecutions, sameNext⟩ :=
    claimSchedules_spec store pick (claims jobs)
  have claimed := claimed_of_admitted store pick distinct
  have claims' := claimRow_admitted store pick jobs
  have freshNew : ∀ entry ∈ admitted (claimSchedules store pick (claims jobs)).2 jobs,
      first ≤ entry.2 ∧ entry.2 < store.nextUuid :=
    fun entry member => fresh entry (List.mem_filter.mp member).1
  unfold admitJobs at done
  simp only at done
  generalize admitted (claimSchedules store pick (claims jobs)).2 jobs = new at *
  split at done
  · rename_i nothing
    rw [List.isEmpty_iff] at nothing
    subst nothing
    cases done
    exact ⟨[], [], claimRow pick (claims jobs),
      { unfinished := by simp
        freshJobs := by simp
        pending := by simp
        fresh := by simp
        jobIds := rfl
        claimed := by simp
        claims := by simpa using claims'
        executions := by rw [sameExecutions, List.append_nil]
        jobs := by rw [sameJobs, List.append_nil]
        schedules := schedules
        nextUuid := by rw [sameNext]; exact reserved }⟩
  · obtain ⟨inserted, insertDone, pair⟩ := Option.map_eq_some_iff.mp done
    cases pair
    obtain ⟨jobRows, schedulesKept, added, executions, pending, jobIds, ids, next⟩ :=
      insertNewJobs_spec insertDone
    rw [sameNext] at ids next
    exact ⟨new.map (newJobRow now), added, claimRow pick (claims jobs),
      { unfinished := fun job member => by
          obtain ⟨entry, _, rfl⟩ := List.mem_map.mp member
          exact ⟨rfl, rfl⟩
        freshJobs := fun job member => by
          obtain ⟨entry, present, rfl⟩ := List.mem_map.mp member
          obtain ⟨above, below⟩ := freshNew entry present
          exact ⟨above, next ▸ Nat.lt_add_right _ below⟩
        pending := pending
        fresh := fun row member => by
          obtain ⟨above, below⟩ := fresh_of_ids ids member
          exact ⟨Nat.le_trans reserved above, next ▸ below⟩
        jobIds := by
          rw [jobIds, List.map_map]
          rfl
        claimed := fun job member id scheduled => by
          obtain ⟨entry, present, rfl⟩ := List.mem_map.mp member
          exact claimed entry present id scheduled
        claims := fun row member =>
          (claims' row member).imp_right fun ⟨entry, present, facts⟩ =>
            ⟨newJobRow now entry, List.mem_map_of_mem present, facts⟩
        executions := by rw [executions, sameExecutions]
        jobs := by rw [jobRows, sameJobs]
        schedules := by rw [schedulesKept, schedules]
        nextUuid := by rw [next]; exact Nat.le_add_right_of_le reserved }⟩

/-- What adding jobs does, also when none is admitted. -/
theorem addJobs_adds {store after : Store} {now : Time} {pick : Pick} {jobs : List NewJob}
    {ifNotExists : Option JobFilters} {result : AddedJobs}
    (done : addJobs store now pick jobs ifNotExists = some (after, result)) :
    ∃ newJobs added claim, AddsJobs store.nextUuid newJobs added claim store after := by
  unfold addJobs at done
  split at done
  · cases done
    exact ⟨_, _, _, .nothing store⟩
  split at done
  · cases done
    exact ⟨_, _, _, .nothing store⟩
  have length : jobs.length = (List.range' store.nextUuid jobs.length).length := by simp
  obtain ⟨newJobs, added, claim, adds⟩ := @admitJobs_adds (store.nowV7 jobs.length).2 after now pick _
    result store.nextUuid (by rw [List.map_snd_zip length.ge]; exact List.nodup_range')
    (fun entry member => List.mem_range'_1.mp (List.of_mem_zip member).2)
    (Nat.le_add_right ..) done
  exact ⟨newJobs, added, claim, ⟨adds.unfinished, adds.freshJobs, adds.pending, adds.fresh,
    adds.jobIds, adds.claimed, adds.claims, adds.executions, adds.jobs, adds.schedules,
    adds.nextUuid⟩⟩

/-- Free schedules are appended. -/
structure AddsSchedules (new : List ScheduleRow) (store after : Store) : Prop where
  free : ∀ row ∈ new, row.activeJobId = none
  fresh : ∀ row ∈ new, store.nextUuid ≤ row.id ∧ row.id < after.nextUuid
  schedules : after.schedules.rows = store.schedules.rows ++ new
  jobs : after.jobs = store.jobs
  executions : after.executions = store.executions
  nextUuid : store.nextUuid ≤ after.nextUuid

theorem AddsSchedules.nothing (store : Store) : AddsSchedules [] store store :=
  ⟨by simp, by simp, (List.append_nil _).symm, rfl, rfl, Nat.le_refl _⟩

theorem addSchedules_adds {store after : Store} {now : Time} {schedules : List ScheduleDefinition}
    {ifNotExists : Option ScheduleFilters} {result : AddedSchedules}
    (done : addSchedules store now schedules ifNotExists = some (after, result)) :
    ∃ new, AddsSchedules new store after := by
  unfold addSchedules at done
  split at done
  · cases done
    exact ⟨[], .nothing store⟩
  split at done
  · cases done
    exact ⟨[], .nothing store⟩
  split at done
  · cases done
  obtain ⟨withRows, rowsDone, done⟩ := Option.bind_eq_some_iff.mp done
  obtain ⟨withLabels, labelsDone, pair⟩ := Option.map_eq_some_iff.mp done
  cases pair
  obtain ⟨rows, jobs, executions, next⟩ := Store.insertSchedules?_spec rowsDone
  obtain ⟨labelRows, labelJobs, labelExecutions, labelNext⟩ :=
    Store.insertScheduleLabels?_spec labelsDone
  refine ⟨_, ⟨?_, ?_, by rw [labelRows, rows], by rw [labelJobs, jobs],
    by rw [labelExecutions, executions], ?_⟩⟩
  · intro row member
    obtain ⟨entry, _, rfl⟩ := List.mem_map.mp member
    rfl
  · intro row member
    obtain ⟨entry, present, rfl⟩ := List.mem_map.mp member
    rw [labelNext, next]
    exact List.mem_range'_1.mp (List.of_mem_zip present).2
  · rw [labelNext, next]
    exact Nat.le_add_right ..

end Ora.Postgres
