import Ora.Postgres.Operations
import Mathlib.Data.List.Range

/-!
# Effects of the operations

What each operation does to the rows of executions, jobs and schedules.  The
invariants of the store are derived from these effects, without the statements
that produce them.
-/

namespace Ora.Postgres

open Ora.Backend
open Ora.Library

/-- A row that is left alone or finished with the given status. -/
inductive RowFinish (status : ExecutionStatus) (row : ExecutionRow) : ExecutionRow → Prop where
  | kept : RowFinish status row row
  | finished {final : ExecutionRow} (active : row.active = true) (id : final.id = row.id)
      (job : final.jobId = row.jobId) (outcome : final.status = status) :
      RowFinish status row final

namespace RowFinish

variable {status : ExecutionStatus} {row final : ExecutionRow}

theorem id_eq (finish : RowFinish status row final) : final.id = row.id := by
  cases finish with
  | kept => rfl
  | finished _ id _ _ => exact id

theorem job_eq (finish : RowFinish status row final) : final.jobId = row.jobId := by
  cases finish with
  | kept => rfl
  | finished _ _ job _ => exact job

theorem eq_of_not_active (finish : RowFinish status row final) (inactive : row.active = false) :
    final = row := by
  cases finish with
  | kept => rfl
  | finished active _ _ _ => simp [inactive] at active

theorem eq_of_active (finish : RowFinish status row final) (isTerminal : terminal status = true)
    (active : final.active = true) : final = row := by
  cases finish with
  | kept => rfl
  | finished _ _ _ same =>
      have inactive := (ExecutionRow.not_active_iff final).mpr (by rw [same]; exact isTerminal)
      simp [inactive] at active

theorem status_eq (finish : RowFinish status row final) (before : row.active = true)
    (after : final.active = false) : final.status = status := by
  cases finish with
  | kept => simp [before] at after
  | finished _ _ _ same => exact same

theorem trans {last : ExecutionRow} (first : RowFinish status row final)
    (second : RowFinish status final last) (isTerminal : terminal status = true) :
    RowFinish status row last := by
  cases first with
  | kept => exact second
  | finished active id job same =>
      have inactive := (ExecutionRow.not_active_iff final).mpr (by rw [same]; exact isTerminal)
      rw [second.eq_of_not_active inactive]
      exact .finished active id job same

end RowFinish

/-- Whether an active execution of the job is finished by a change. -/
def settled (store : Store) (change : ExecutionRow → ExecutionRow) (id : JobId) : Bool :=
  store.executions.rows.any fun row => row.jobId == id && row.active && !(change row).active

theorem settled_iff (store : Store) (change : ExecutionRow → ExecutionRow) (id : JobId) :
    settled store change id = true ↔
      ∃ row ∈ store.executions.rows, row.jobId = id ∧ row.active = true ∧
        (change row).active = false := by
  simp [settled, and_assoc]

theorem settled_id (store : Store) (id : JobId) : settled store (fun row => row) id = false := by
  simp only [settled, List.any_eq_false, Bool.and_eq_true, beq_iff_eq, Bool.not_eq_true', not_and,
    Bool.not_eq_false]
  intro row _ same
  exact same.2

/-- Executions are finished, their jobs become inactive and the schedules of
these jobs free. -/
structure Finishes (status : ExecutionStatus) (change : ExecutionRow → ExecutionRow)
    (mark : JobRow → JobRow) (free : ScheduleRow → ScheduleRow) (store after : Store) : Prop where
  isTerminal : terminal status = true
  execution : ∀ row, RowFinish status row (change row)
  marked : ∀ row, settled store change row.id = true →
    ∃ time, mark row = { row with inactiveSince := some time, inactiveStatus := some status }
  unmarked : ∀ row, settled store change row.id = false → mark row = row
  freed : ∀ row id, row.activeJobId = some id → settled store change id = true →
    free row = { row with activeJobId := none }
  unfreed : ∀ row, (∀ id, row.activeJobId = some id → settled store change id = false) →
    free row = row
  executions : after.executions.rows = store.executions.rows.map change
  jobs : after.jobs.rows = store.jobs.rows.map mark
  schedules : after.schedules.rows = store.schedules.rows.map free
  nextUuid : after.nextUuid = store.nextUuid

theorem Finishes.nothing {status : ExecutionStatus} (isTerminal : terminal status = true)
    (store : Store) : Finishes status (fun row => row) (fun row => row) (fun row => row) store store where
  isTerminal := isTerminal
  execution _ := .kept
  marked row finished := by simp [settled_id] at finished
  unmarked _ _ := rfl
  freed _ id _ finished := by simp [settled_id] at finished
  unfreed _ _ := rfl
  executions := (List.map_id' _).symm
  jobs := (List.map_id' _).symm
  schedules := (List.map_id' _).symm
  nextUuid := rfl

namespace Finishes

variable {status : ExecutionStatus} {change : ExecutionRow → ExecutionRow}
  {mark : JobRow → JobRow} {free : ScheduleRow → ScheduleRow} {store after : Store}

theorem mark_keeps (effect : Finishes status change mark free store after) (job : JobRow) :
    (mark job).id = job.id ∧ (mark job).scheduleId = job.scheduleId := by
  cases done : settled store change job.id with
  | true =>
      obtain ⟨time, marked⟩ := effect.marked job done
      rw [marked]
      exact ⟨rfl, rfl⟩
  | false =>
      rw [effect.unmarked job done]
      exact ⟨rfl, rfl⟩

/-- A job that is active afterwards is left alone. -/
theorem mark_active (effect : Finishes status change mark free store after) {job : JobRow}
    (active : (mark job).inactiveSince = none) :
    mark job = job ∧ settled store change job.id = false := by
  cases done : settled store change job.id with
  | true =>
      obtain ⟨time, marked⟩ := effect.marked job done
      rw [marked] at active
      cases active
  | false => exact ⟨effect.unmarked job done, rfl⟩

/-- A schedule keeps its job unless the job is settled. -/
theorem free_keeps (effect : Finishes status change mark free store after) (row : ScheduleRow) :
    (free row).id = row.id ∧ ∀ id, (free row).activeJobId = some id ↔
      row.activeJobId = some id ∧ settled store change id = false := by
  cases claimed : row.activeJobId with
  | none =>
      rw [effect.unfreed row (by simp [claimed])]
      simp [claimed]
  | some id =>
      cases done : settled store change id with
      | true =>
          rw [effect.freed row id claimed done]
          refine ⟨rfl, fun other => ⟨by simp, ?_⟩⟩
          rintro ⟨same, running⟩
          rw [← Option.some.inj same, done] at running
          cases running
      | false =>
          have kept : free row = row := effect.unfreed row fun other same => by
            rw [claimed, Option.some.injEq] at same
            rw [← same, done]
          rw [kept, claimed]
          refine ⟨rfl, fun other => ⟨fun same => ⟨same, ?_⟩, And.left⟩⟩
          rw [← Option.some.inj same, done]

end Finishes

/-- The rows after jobs are marked, also when there is none to mark. -/
theorem markJobsInactive_spec (store : Store) (pick : Pick) (jobs : List (JobId × Time))
    (status : ExecutionStatus) :
    (markJobsInactive store pick jobs status).1.executions = store.executions ∧
      (markJobsInactive store pick jobs status).1.jobs.rows =
        store.jobs.rows.map (markJobRow pick jobs status) ∧
      (markJobsInactive store pick jobs status).1.schedules.rows =
        store.schedules.rows.map (freeSchedule jobs) ∧
      (markJobsInactive store pick jobs status).1.nextUuid = store.nextUuid := by
  cases jobs with
  | nil =>
      refine ⟨rfl, ?_, ?_, rfl⟩
      · exact (List.map_id' _).symm
      · exact (List.map_id' _).symm
  | cons _ _ => exact ⟨rfl, rfl, rfl, rfl⟩

theorem markJobRow_of_mem (pick : Pick) {jobs : List (JobId × Time)} (status : ExecutionStatus)
    {row : JobRow} (member : row.id ∈ jobs.map Prod.fst) :
    ∃ time, markJobRow pick jobs status row =
      { row with inactiveSince := some time, inactiveStatus := some status } := by
  obtain ⟨job, present, same⟩ := List.mem_map.mp member
  obtain ⟨unmatched, _, _⟩ | ⟨entry, _, _, marked, _⟩ := Table.replaced_cases jobs
    (fun row job => row.id == job.1) (setInactive status) (fun row => pick row.id) row
  · simpa [same] using unmatched job present
  · exact ⟨systemtimeToTs entry.2, marked⟩

theorem markJobRow_of_not_mem (pick : Pick) {jobs : List (JobId × Time)} (status : ExecutionStatus)
    {row : JobRow} (absent : row.id ∉ jobs.map Prod.fst) : markJobRow pick jobs status row = row := by
  obtain ⟨_, kept, _⟩ | ⟨entry, member, matching, _, _⟩ := Table.replaced_cases jobs
    (fun row job => row.id == job.1) (setInactive status) (fun row => pick row.id) row
  · exact kept
  · rw [beq_iff_eq] at matching
    exact absurd (matching ▸ List.mem_map_of_mem member) absent

theorem activeJobAmong_iff (jobs : List (JobId × Time)) (row : ScheduleRow) :
    activeJobAmong jobs row = true ↔ ∃ id ∈ jobs.map Prod.fst, row.activeJobId = some id := by
  simp [activeJobAmong]

/-- Jobs that are marked after their executions were finished. -/
theorem Finishes.of_marked {status : ExecutionStatus} {change : ExecutionRow → ExecutionRow}
    {store changed : Store} (pick : Pick) {jobs : List (JobId × Time)}
    (isTerminal : terminal status = true) (execution : ∀ row, RowFinish status row (change row))
    (executions : changed.executions.rows = store.executions.rows.map change)
    (others : changed.jobs = store.jobs ∧ changed.schedules = store.schedules ∧
      changed.nextUuid = store.nextUuid)
    (finished : ∀ id, id ∈ jobs.map Prod.fst ↔ settled store change id = true) :
    Finishes status change (markJobRow pick jobs status) (freeSchedule jobs) store
      (markJobsInactive changed pick jobs status).1 := by
  obtain ⟨sameExecutions, jobRows, scheduleRows, sameNext⟩ :=
    markJobsInactive_spec changed pick jobs status
  refine
    { isTerminal := isTerminal
      execution := execution
      marked := fun row done => markJobRow_of_mem pick status ((finished row.id).mpr done)
      unmarked := fun row unmarked => markJobRow_of_not_mem pick status fun member => by
        simp [(finished row.id).mp member] at unmarked
      freed := ?_
      unfreed := ?_
      executions := by rw [sameExecutions, executions]
      jobs := by rw [jobRows, others.1]
      schedules := by rw [scheduleRows, others.2.1]
      nextUuid := by rw [sameNext, others.2.2] }
  · intro row id active done
    have among := (activeJobAmong_iff jobs row).mpr ⟨id, (finished id).mpr done, active⟩
    simp [freeSchedule, among]
  · intro row running
    have among : activeJobAmong jobs row = false := by
      rw [Bool.eq_false_iff]
      intro found
      obtain ⟨id, member, active⟩ := (activeJobAmong_iff jobs row).mp found
      simpa [running id active] using (finished id).mp member
    simp [freeSchedule, among]

section Update

variable {σ : Type}

/-- An assignment that gives an active execution its final status. -/
structure FinalAssignment (status : ExecutionStatus) (set : ExecutionRow → σ → ExecutionRow) :
    Prop where
  isTerminal : terminal status = true
  keeps : ∀ row entry, (set row entry).id = row.id ∧ (set row entry).jobId = row.jobId
  outcome : ∀ row entry, row.active = true → (set row entry).status = status

/-- The change made by an update of active executions. -/
def finishRow (executionId : σ → ExecutionId) (set : ExecutionRow → σ → ExecutionRow)
    (source : List σ) (pick : Pick) : ExecutionRow → ExecutionRow :=
  Table.replaced source (fun row entry => finishable (executionId entry) row) set
    fun row => pick row.id

variable {status : ExecutionStatus} {executionId : σ → ExecutionId}
  {set : ExecutionRow → σ → ExecutionRow} {source : List σ} {pick : Pick} {row : ExecutionRow}

theorem finishable_iff (executionId : ExecutionId) (row : ExecutionRow) :
    finishable executionId row = true ↔ executionId = row.id ∧ row.active = true := by
  simp [finishable]

theorem finishRow_finish (final : FinalAssignment status set) (row : ExecutionRow) :
    RowFinish status row (finishRow executionId set source pick row) := by
  obtain ⟨_, kept, _⟩ | ⟨entry, _, matching, changed, _⟩ := Table.replaced_cases source
    (fun row entry => finishable (executionId entry) row) set (fun row => pick row.id) row
  · rw [finishRow, kept]
    exact .kept
  · rw [finishRow, changed]
    have active := ((finishable_iff _ _).mp matching).2
    exact .finished active (final.keeps row entry).1 (final.keeps row entry).2
      (final.outcome row entry active)

/-- A named active execution is finished. -/
theorem finishRow_of_named (final : FinalAssignment status set) (active : row.active = true)
    (named : ∃ entry ∈ source, executionId entry = row.id) :
    (finishRow executionId set source pick row).active = false := by
  obtain ⟨entry, member, same⟩ := named
  obtain ⟨unmatched, _, _⟩ | ⟨picked, _, _, changed, _⟩ := Table.replaced_cases source
    (fun row entry => finishable (executionId entry) row) set (fun row => pick row.id) row
  · simpa [finishable, same, active] using unmatched entry member
  · rw [finishRow, changed, ExecutionRow.not_active_iff, final.outcome row picked active]
    exact final.isTerminal

theorem finishRow_of_not_named (unnamed : ∀ entry ∈ source, executionId entry ≠ row.id) :
    finishRow executionId set source pick row = row := by
  obtain ⟨_, kept, _⟩ | ⟨entry, member, matching, _, _⟩ := Table.replaced_cases source
    (fun row entry => finishable (executionId entry) row) set (fun row => pick row.id) row
  · exact kept
  · exact absurd ((finishable_iff _ _).mp matching).1 (unnamed entry member)

/-- The jobs returned by the update are those whose execution it finished. -/
theorem returned_jobs (executionId : σ → ExecutionId) (final : FinalAssignment status set)
    (store : Store) (time : σ → Time) (id : JobId) :
    id ∈ ((store.updateExecutionsFrom source
        (fun row entry => finishable (executionId entry) row) set final.keeps pick).2.map
          fun row => (row.1.jobId, time row.2)).map Prod.fst ↔
      settled store (finishRow executionId set source pick) id = true := by
  simp only [settled_iff, Store.updateExecutionsFrom, List.map_map, List.mem_map,
    List.mem_filterMap, Function.comp_apply]
  constructor
  · rintro ⟨result, ⟨row, member, updated⟩, rfl⟩
    obtain ⟨_, _, unmatched⟩ | ⟨entry, present, matching, _, changed⟩ := Table.replaced_cases source
      (fun row entry => finishable (executionId entry) row) set (fun row => pick row.id) row
    · simp [unmatched] at updated
    · rw [changed, Option.some.injEq] at updated
      subst updated
      obtain ⟨same, active⟩ := (finishable_iff _ _).mp matching
      exact ⟨row, member, (final.keeps row entry).2.symm, active,
        finishRow_of_named final active ⟨entry, present, same⟩⟩
  · rintro ⟨row, member, rfl, active, inactive⟩
    obtain ⟨_, kept, _⟩ | ⟨entry, _, _, _, changed⟩ := Table.replaced_cases source
      (fun row entry => finishable (executionId entry) row) set (fun row => pick row.id) row
    · rw [finishRow, kept] at inactive
      simp [active] at inactive
    · exact ⟨(set row entry, entry), ⟨row, member, changed⟩, (final.keeps row entry).2⟩

end Update

theorem setSucceeded_final : FinalAssignment .succeeded PostgresBackend.setSucceeded where
  isTerminal := rfl
  keeps _ _ := ⟨rfl, rfl⟩
  outcome _ _ _ := by simp [PostgresBackend.setSucceeded, ExecutionRow.status]

theorem setFailed_final : FinalAssignment .failed setFailed where
  isTerminal := rfl
  keeps _ _ := ⟨rfl, rfl⟩
  outcome row _ active := by
    simp [setFailed, ExecutionRow.status, ((ExecutionRow.active_iff row).mp active).1]

theorem cancelRow_of_not_selected (ids : List JobId) (now : Time) {row : ExecutionRow}
    (unselected : ¬cancelSelected ids row = true) : cancelRow ids now row = row := by
  simp [cancelRow, unselected]

theorem cancelRow_finish (ids : List JobId) (now : Time) (row : ExecutionRow) :
    RowFinish .cancelled row (cancelRow ids now row) := by
  unfold cancelRow
  split
  · rename_i selected
    have active : row.active = true := by simp_all [cancelSelected]
    obtain ⟨notSucceeded, notFailed, _⟩ := (ExecutionRow.active_iff row).mp active
    refine .finished active rfl rfl ?_
    simp [ExecutionRow.status, notSucceeded, notFailed]
  · exact .kept

theorem cancelRow_not_active (ids : List JobId) (now : Time) {row : ExecutionRow}
    (selected : cancelSelected ids row = true) : (cancelRow ids now row).active = false := by
  rw [Bool.eq_false_iff]
  intro active
  have cancelled := ((ExecutionRow.active_iff _).mp active).2.2
  simp [cancelRow, selected] at cancelled

/-- The change made by a call that fails executions. -/
abbrev failRow (pick : Pick) (executions : List FailedExecution) : ExecutionRow → ExecutionRow :=
  finishRow FailedExecution.executionId setFailed executions pick

/-- The jobs returned are those whose active execution was failed. -/
theorem executionsFailed_jobs (store : Store) (pick : Pick) (executions : List FailedExecution)
    (id : JobId) :
    id ∈ (Postgres.executionsFailed store pick executions).2.map Prod.fst ↔
      settled store (failRow pick executions) id = true :=
  returned_jobs FailedExecution.executionId setFailed_final store
    (fun execution => systemtimeFromTs (systemtimeToTs execution.failedAt)) id

theorem executionsSucceeded_finishes (store : Store) (pick : Pick)
    (executions : List SucceededExecution) :
    ∃ mark free, Finishes .succeeded
      (finishRow SucceededExecution.executionId PostgresBackend.setSucceeded executions pick)
      mark free store (PostgresBackend.executionsSucceeded store pick executions) := by
  cases executions with
  | nil => exact ⟨_, _, .nothing rfl store⟩
  | cons first rest =>
      exact ⟨_, _, .of_marked pick rfl (finishRow_finish setSucceeded_final) rfl ⟨rfl, rfl, rfl⟩
        (returned_jobs SucceededExecution.executionId setSucceeded_final store fun execution =>
          systemtimeFromTs (systemtimeToTs execution.succeededAt))⟩

theorem executionsFailed_finishes (store : Store) (pick : Pick)
    (executions : List FailedExecution) :
    ∃ mark free, Finishes .failed (failRow pick executions) mark free store
      (PostgresBackend.executionsFailed store pick executions) := by
  cases executions with
  | nil => exact ⟨_, _, .nothing rfl store⟩
  | cons first rest =>
      exact ⟨_, _, .of_marked pick rfl (finishRow_finish setFailed_final) rfl ⟨rfl, rfl, rfl⟩
        (executionsFailed_jobs store pick (first :: rest))⟩

theorem firstPerJob_jobs (rows : List CancelledJob) (seen : List JobId) (id : JobId) :
    id ∈ (firstPerJob seen rows).map CancelledJob.jobId ↔
      id ∉ seen ∧ id ∈ rows.map CancelledJob.jobId := by
  induction rows generalizing seen with
  | nil => simp [firstPerJob]
  | cons row rest ih =>
      unfold firstPerJob
      split
      · rename_i known
        have member : row.jobId ∈ seen := by simpa using known
        rw [ih, List.map_cons, List.mem_cons]
        constructor
        · rintro ⟨fresh, later⟩
          exact ⟨fresh, .inr later⟩
        · rintro ⟨fresh, rfl | later⟩
          · exact absurd member fresh
          · exact ⟨fresh, later⟩
      · rename_i unknown
        have fresh : row.jobId ∉ seen := by simpa using unknown
        rw [List.map_cons, List.mem_cons, ih, List.map_cons, List.mem_cons, List.mem_cons]
        constructor
        · rintro (rfl | ⟨other, later⟩)
          · exact ⟨fresh, .inl rfl⟩
          · exact ⟨fun member => other (.inr member), .inr later⟩
        · rintro ⟨unseen, rfl | later⟩
          · exact .inl rfl
          · by_cases same : id = row.jobId
            · exact .inl same
            · exact .inr ⟨by simp [same, unseen], later⟩

theorem cancelRound_jobs (store : Store) (now : Time) (filters : JobFilters) (id : JobId) :
    id ∈ (cancelRound store now filters).2.map CancelledJob.jobId ↔
      ∃ row ∈ store.executions.rows, row.jobId = id ∧
        cancelSelected (selectJobIds store now filters) row = true := by
  simp [cancelRound, and_comm, and_left_comm]

/-- The change made by cancelling the jobs of two rounds. -/
def cancelTwice (first second : List JobId) (now : Time) (row : ExecutionRow) : ExecutionRow :=
  cancelRow second now (cancelRow first now row)

theorem cancelTwice_finish (first second : List JobId) (now : Time) (row : ExecutionRow) :
    RowFinish .cancelled row (cancelTwice first second now row) :=
  (cancelRow_finish first now row).trans (cancelRow_finish second now _) rfl

theorem cancelTwice_settled (store : Store) (first second : List JobId) (now : Time) (id : JobId) :
    settled store (cancelTwice first second now) id = true ↔
      (∃ row ∈ store.executions.rows, row.jobId = id ∧ cancelSelected first row = true) ∨
        ∃ row ∈ store.executions.rows, row.jobId = id ∧
          cancelSelected second (cancelRow first now row) = true := by
  rw [settled_iff]
  constructor
  · rintro ⟨row, member, same, active, inactive⟩
    by_cases selected : cancelSelected first row = true
    · exact .inl ⟨row, member, same, selected⟩
    · refine .inr ⟨row, member, same, ?_⟩
      by_contra unselected
      rw [cancelTwice, cancelRow_of_not_selected second now unselected,
        cancelRow_of_not_selected first now selected] at inactive
      simp [active] at inactive
  · rintro (⟨row, member, same, selected⟩ | ⟨row, member, same, selected⟩)
    · have gone := cancelRow_not_active first now selected
      refine ⟨row, member, same, by simp_all [cancelSelected], ?_⟩
      rw [cancelTwice, (cancelRow_finish second now _).eq_of_not_active gone]
      exact gone
    · have active : (cancelRow first now row).active = true := by simp_all [cancelSelected]
      refine ⟨row, member, same, ?_, cancelRow_not_active second now selected⟩
      rw [← (cancelRow_finish first now row).eq_of_active rfl active]
      exact active

/-- The jobs of both rounds are selected by the narrowed filters. -/
theorem cancelJobs_cancels (store : Store) (now systemNow : Time) (pick : Pick)
    (filters : JobFilters) {statuses : List ExecutionStatus}
    (cancelled : cancelStatuses filters = some statuses) :
    let narrowed := { filters with executionStatuses := some statuses }
    let change := cancelTwice (selectJobIds store now narrowed)
      (selectJobIds (cancelRound store now narrowed).1 now narrowed) now
    ∃ mark free, Finishes .cancelled change mark free store
      (PostgresBackend.cancelJobs store now systemNow pick filters).1 := by
  unfold PostgresBackend.cancelJobs Postgres.cancelJobs
  rw [cancelled]
  dsimp only
  generalize { filters with executionStatuses := some statuses } = narrowed
  refine ⟨_, _, .of_marked pick rfl (cancelTwice_finish _ _ now) ?_ ⟨rfl, rfl, rfl⟩ ?_⟩
  · simp [cancelRound, Store.modifyExecutions, cancelTwice]
  · intro id
    rw [cancelTwice_settled, List.map_map,
      show (Prod.fst ∘ fun job : CancelledJob => (job.jobId, systemNow)) = CancelledJob.jobId
        from rfl, firstPerJob_jobs, List.map_append, List.mem_append, cancelRound_jobs,
      cancelRound_jobs]
    simp [cancelRound, Store.modifyExecutions, (cancelRow_keeps _ now _).2]

theorem cancelJobs_nothing (store : Store) (now systemNow : Time) (pick : Pick)
    {filters : JobFilters} (finished : cancelStatuses filters = none) :
    PostgresBackend.cancelJobs store now systemNow pick filters = (store, []) := by
  unfold PostgresBackend.cancelJobs Postgres.cancelJobs
  rw [finished]
  rfl

theorem cancelJobs_finishes (store : Store) (now systemNow : Time) (pick : Pick)
    (filters : JobFilters) :
    ∃ change mark free, Finishes .cancelled change mark free store
      (PostgresBackend.cancelJobs store now systemNow pick filters).1 := by
  cases cancelled : cancelStatuses filters with
  | none =>
      rw [cancelJobs_nothing store now systemNow pick cancelled]
      exact ⟨_, _, _, .nothing rfl store⟩
  | some statuses => exact ⟨_, cancelJobs_cancels store now systemNow pick filters cancelled⟩

/-- Pending executions and those in progress are started, nothing else changes. -/
structure Starts (executions : List StartedExecution) (change : ExecutionRow → ExecutionRow)
    (store after : Store) : Prop where
  execution : ∀ row, change row = row ∨ ∃ execution ∈ executions,
    PostgresBackend.startable row execution = true ∧
      change row = PostgresBackend.setStarted row execution
  executions : after.executions.rows = store.executions.rows.map change
  jobs : after.jobs = store.jobs
  schedules : after.schedules = store.schedules
  nextUuid : after.nextUuid = store.nextUuid

theorem executionsStarted_starts (store : Store) (pick : Pick)
    (executions : List StartedExecution) :
    Starts executions
      (Table.replaced executions PostgresBackend.startable PostgresBackend.setStarted
        fun row => pick row.id)
      store (PostgresBackend.executionsStarted store pick executions).1 := by
  cases executions with
  | nil => exact ⟨fun _ => .inl rfl, (List.map_id' _).symm, rfl, rfl, rfl⟩
  | cons first rest =>
      refine ⟨fun row => ?_, rfl, rfl, rfl, rfl⟩
      obtain ⟨_, kept, _⟩ | ⟨entry, member, matching, changed, _⟩ := Table.replaced_cases
        (first :: rest) PostgresBackend.startable PostgresBackend.setStarted
          (fun row => pick row.id) row
      · exact .inl kept
      · exact .inr ⟨entry, member, matching, changed⟩

/-- A started row was active and is in progress. -/
theorem setStarted_status {row : ExecutionRow} {execution : StartedExecution}
    (startable : PostgresBackend.startable row execution = true) :
    row.active = true ∧ (PostgresBackend.setStarted row execution).status = .inProgress := by
  have active : row.active = true := by
    rw [ExecutionRow.active_iff_status]
    simp only [PostgresBackend.startable, Bool.and_eq_true, Bool.or_eq_true, beq_iff_eq] at startable
    exact startable.2.imp id And.left
  obtain ⟨notSucceeded, notFailed, notCancelled⟩ := (ExecutionRow.active_iff row).mp active
  refine ⟨active, ?_⟩
  simp [PostgresBackend.setStarted, ExecutionRow.status, notSucceeded, notFailed, notCancelled]

namespace Starts

variable {executions : List StartedExecution} {change : ExecutionRow → ExecutionRow}
  {store after : Store}

theorem keeps (starts : Starts executions change store after) (row : ExecutionRow) :
    (change row).id = row.id ∧ (change row).jobId = row.jobId ∧
      (change row).active = row.active := by
  obtain kept | ⟨execution, _, startable, changed⟩ := starts.execution row
  · rw [kept]
    exact ⟨rfl, rfl, rfl⟩
  · obtain ⟨active, status⟩ := setStarted_status startable
    rw [changed]
    refine ⟨rfl, rfl, ?_⟩
    rw [active, ExecutionRow.active_iff_status]
    exact .inr status

theorem eq_of_not_active (starts : Starts executions change store after) {row : ExecutionRow}
    (inactive : row.active = false) : change row = row := by
  obtain kept | ⟨execution, _, startable, _⟩ := starts.execution row
  · exact kept
  · simp [(setStarted_status startable).1] at inactive

end Starts

/-- Only rows with a time are selected for deletion. -/
theorem oldest_timed {ρ : Type} {key : ρ → Uuid} (table : Table key) {time : ρ → Option Time}
    {before : Time} {limit : Nat} {row : ρ}
    (selected : key row ∈ PostgresBackend.oldest table.rows time key before limit)
    (member : row ∈ table.rows) : time row ≠ none := by
  obtain ⟨entry, taken, same⟩ := List.mem_map.mp selected
  have sorted := List.mem_of_mem_take taken
  rw [List.mem_insertionSort] at sorted
  obtain ⟨other, otherMember, timed⟩ := List.mem_filterMap.mp sorted
  cases since : time other with
  | none => simp [since] at timed
  | some at_ =>
      have sameRow : other = row := by
        refine table.eq_of_key otherMember member ?_
        rw [since] at timed
        simp only [Option.ite_none_right_eq_some, Option.some.injEq] at timed
        rw [← same, ← timed.2]
      simp [← sameRow, since]

/-- What deleting inactive jobs, stopped schedules and job types preserves,
deleting history preserves. -/
theorem deleteHistory_preserves {P : Store → Prop}
    (jobs : ∀ store doomed, P store →
      (∀ row ∈ store.jobs.rows, doomed row = true → row.inactiveSince ≠ none) →
      P (store.deleteJobs doomed))
    (schedules : ∀ store doomed, P store →
      (∀ row ∈ store.schedules.rows, doomed row = true → row.stoppedAt ≠ none) →
      P (store.deleteSchedules doomed))
    (jobTypes : ∀ store table, P store → P (store.updateJobTypes table))
    {store : Store} (deleteBatchSize : Nat) (before : Time) (holds : P store) :
    P (PostgresBackend.deleteHistory store deleteBatchSize before) := by
  refine jobTypes _ _ ?_
  generalize store.jobs.rows.length + store.schedules.rows.length + 1 = fuel
  induction fuel generalizing store with
  | zero => exact holds
  | succ fuel ih =>
      have jobBatch : P (PostgresBackend.deleteJobBatch store before deleteBatchSize).1 :=
        jobs store _ holds fun row member doomed =>
          oldest_timed store.jobs (by simpa using doomed) member
      have scheduleBatch : P (PostgresBackend.deleteScheduleBatch
          (PostgresBackend.deleteJobBatch store before deleteBatchSize).1 before
          deleteBatchSize).1 :=
        schedules _ _ jobBatch fun row member doomed =>
          oldest_timed (Store.schedules _) (by simpa using doomed) member
      simp only [PostgresBackend.deleteBatches]
      split
      · exact scheduleBatch
      · exact ih scheduleBatch

end Ora.Postgres
