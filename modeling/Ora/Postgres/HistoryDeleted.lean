import Ora.Postgres.ActiveExecution

/-!
# Deleted history

`delete_history` deletes batches of jobs and schedules until a pass finds
none.  Whatever the size of the batches, what is left is the store without the
rows from before the cut-off and the rows that depend on them.
-/

namespace Ora.Postgres

open Ora.Backend
open Ora.Library
open PostgresBackend (oldest deleteJobBatch deleteScheduleBatch deleteBatches deleteJobTypes
  deleteHistory jobTypeUnused)

/-- Whether a job became inactive, or a schedule stopped, before the cut-off. -/
def expired (before : Time) (since : Option Time) : Bool :=
  since.any fun since => decide (since < before)

/-- `DELETE FROM ora.job_type` for the types that nothing refers to. -/
def jobTypeReferred (jobs : List JobRow) (schedules : List ScheduleRow) (row : JobTypeRow) : Bool :=
  (jobs.any fun job => job.jobTypeId == row.id) ||
    schedules.any fun schedule => schedule.jobTemplateJobTypeId == row.id

/-- The store without the history before the cut-off. -/
structure HistoryDeleted (before : Time) (store after : Store) : Prop where
  jobs : after.jobs.rows = store.jobs.rows.filter fun job => !expired before job.inactiveSince
  executions : after.executions.rows = store.executions.rows.filter fun row =>
    !store.jobs.rows.any fun job => expired before job.inactiveSince && job.id == row.jobId
  jobLabels : after.jobLabels.rows = store.jobLabels.rows.filter fun label =>
    !store.jobs.rows.any fun job => expired before job.inactiveSince && job.id == label.jobId
  schedules : after.schedules.rows = store.schedules.rows.filter fun schedule =>
    !expired before schedule.stoppedAt
  scheduleLabels : after.scheduleLabels.rows = store.scheduleLabels.rows.filter fun label =>
    !store.schedules.rows.any fun schedule =>
      expired before schedule.stoppedAt && schedule.id == label.scheduleId
  jobTypes : after.jobTypes.rows =
    store.jobTypes.rows.filter (jobTypeReferred after.jobs.rows after.schedules.rows)
  nextUuid : after.nextUuid = store.nextUuid

/-- The loop of `delete_history`, if it ends within the passes. -/
def deletePasses : Nat → Store → Time → Nat → Option Store
  | 0, _, _, _ => none
  | passes + 1, store, before, limit =>
      let jobs := deleteJobBatch store before limit
      let schedules := deleteScheduleBatch jobs.1 before limit
      if jobs.2 + schedules.2 = 0 then
        some schedules.1
      else
        deletePasses passes schedules.1 before limit

theorem expired_iff {before : Time} {since : Option Time} :
    expired before since = true ↔ ∃ time, since = some time ∧ time < before := by
  cases since with
  | none => simp [expired]
  | some time => simp [expired]

section Batch

variable {ρ : Type} {rows : List ρ} {time : ρ → Option Time} {key : ρ → Uuid} {before : Time}
  {limit : Nat}

/-- The rows of a batch are from before the cut-off. -/
theorem mem_oldest {id : Uuid} (selected : id ∈ oldest rows time key before limit) :
    ∃ row ∈ rows, key row = id ∧ expired (systemtimeToTs before) (time row) = true := by
  obtain ⟨entry, taken, rfl⟩ := List.mem_map.mp selected
  have sorted := List.mem_of_mem_take taken
  rw [List.mem_insertionSort] at sorted
  obtain ⟨row, member, timed⟩ := List.mem_filterMap.mp sorted
  refine ⟨row, member, ?_⟩
  cases since : time row with
  | none =>
      rw [since] at timed
      cases timed
  | some stopped =>
      rw [since] at timed
      simp only [Option.ite_none_right_eq_some, Option.some.injEq] at timed
      obtain ⟨earlier, rfl⟩ := timed
      exact ⟨rfl, decide_eq_true earlier⟩

/-- An empty batch means that there are no such rows. -/
theorem not_expired_of_oldest_eq_nil (positive : 0 < limit)
    (empty : oldest rows time key before limit = []) {row : ρ} (member : row ∈ rows) :
    expired (systemtimeToTs before) (time row) = false := by
  by_contra expires
  rw [Bool.not_eq_false, expired_iff] at expires
  obtain ⟨stopped, since, earlier⟩ := expires
  rw [oldest, List.map_eq_nil_iff, List.take_eq_nil_iff] at empty
  obtain zero | sorted := empty
  · exact absurd zero (Nat.ne_of_gt positive)
  · refine List.eq_nil_iff_forall_not_mem.mp sorted (stopped, key row)
      ((List.mem_insertionSort _).mpr (List.mem_filterMap.mpr ⟨row, member, ?_⟩))
    rw [since]
    exact if_pos earlier

end Batch

section Trimmed

variable {before : Time} {limit : Nat} {store middle after : Store}

/-- The identifiers of the rows that stay. -/
def stays {ρ : Type} (rows : List ρ) (time : ρ → Option Time) (key : ρ → Uuid) (before : Time)
    (id : Uuid) : Bool :=
  (rows.filter fun row => !expired before (time row)).any fun row => key row == id

/-- Only rows that do not stay were deleted. -/
structure Trimmed (before : Time) (store after : Store) : Prop where
  jobs : (after.jobs.rows.filter fun job => !expired before job.inactiveSince) =
    store.jobs.rows.filter fun job => !expired before job.inactiveSince
  executions :
    (after.executions.rows.filter fun row =>
      stays store.jobs.rows JobRow.inactiveSince JobRow.id before row.jobId) =
    store.executions.rows.filter fun row =>
      stays store.jobs.rows JobRow.inactiveSince JobRow.id before row.jobId
  jobLabels :
    (after.jobLabels.rows.filter fun label =>
      stays store.jobs.rows JobRow.inactiveSince JobRow.id before label.jobId) =
    store.jobLabels.rows.filter fun label =>
      stays store.jobs.rows JobRow.inactiveSince JobRow.id before label.jobId
  schedules : (after.schedules.rows.filter fun schedule => !expired before schedule.stoppedAt) =
    store.schedules.rows.filter fun schedule => !expired before schedule.stoppedAt
  scheduleLabels :
    (after.scheduleLabels.rows.filter fun label =>
      stays store.schedules.rows ScheduleRow.stoppedAt ScheduleRow.id before label.scheduleId) =
    store.scheduleLabels.rows.filter fun label =>
      stays store.schedules.rows ScheduleRow.stoppedAt ScheduleRow.id before label.scheduleId
  jobTypes : after.jobTypes = store.jobTypes
  nextUuid : after.nextUuid = store.nextUuid

/-- A filter that implies another one is not changed by it. -/
theorem filter_filter_of_imp {α : Type} {rows : List α} {kept present : α → Bool}
    (implies : ∀ row ∈ rows, kept row = true → present row = true) :
    (rows.filter present).filter kept = rows.filter kept := by
  rw [List.filter_filter]
  refine List.filter_congr fun row member => ?_
  cases keeps : kept row with
  | false => rfl
  | true => rw [implies row member keeps, Bool.and_self]

/-- The row of an identifier that stays is not expired. -/
theorem not_expired_of_stays {ρ : Type} {key : ρ → Uuid} (table : Table key)
    {time : ρ → Option Time} {row : ρ} (member : row ∈ table.rows) {id : Uuid}
    (kept : stays table.rows time key before id = true) (same : key row = id) :
    expired before (time row) = false := by
  obtain ⟨other, found, named⟩ := List.any_eq_true.mp kept
  obtain ⟨present, stays⟩ := List.mem_filter.mp found
  rw [table.eq_of_key member present (same.trans (beq_iff_eq.mp named).symm)]
  rwa [Bool.not_eq_true'] at stays

section Doomed

variable {ρ : Type} {key : ρ → Uuid} (table : Table key) {time : ρ → Option Time}
  {doomed : ρ → Bool}
  (expires : ∀ row ∈ table.rows, doomed row = true → expired before (time row) = true)
include expires

/-- Rows that are not expired are not deleted, -/
theorem not_doomed {row : ρ} (member : row ∈ table.rows)
    (kept : (!expired before (time row)) = true) : (!doomed row) = true := by
  rw [Bool.not_eq_true'] at kept ⊢
  cases gone : doomed row with
  | false => rfl
  | true => exact absurd (expires row member gone) (by simp [kept])

/-- nor is the row of an identifier that stays. -/
theorem not_doomed_of_stays {id : Uuid} (kept : stays table.rows time key before id = true) :
    (!table.rows.any fun row => doomed row && key row == id) = true := by
  rw [Bool.not_eq_true', List.any_eq_false]
  intro row member both
  obtain ⟨gone, same⟩ := Bool.and_eq_true_iff.mp both
  have expiredRow := expires row member gone
  rw [not_expired_of_stays table member kept (beq_iff_eq.mp same)] at expiredRow
  cases expiredRow

end Doomed

theorem stays_eq_not_any {ρ : Type} {key : ρ → Uuid} (table : Table key)
    {time : ρ → Option Time} {id : Uuid} (present : ∃ row ∈ table.rows, key row = id) :
    stays table.rows time key before id =
      !table.rows.any fun row => expired before (time row) && key row == id := by
  obtain ⟨row, member, named⟩ := present
  rw [Bool.eq_iff_iff, Bool.not_eq_true', List.any_eq_false]
  constructor
  · intro kept other found both
    obtain ⟨expires, same⟩ := Bool.and_eq_true_iff.mp both
    rw [not_expired_of_stays table found kept (beq_iff_eq.mp same)] at expires
    cases expires
  · intro none
    refine List.any_eq_true.mpr ⟨row, List.mem_filter.mpr ⟨member, ?_⟩, beq_iff_eq.mpr named⟩
    rw [Bool.not_eq_true']
    by_contra expires
    rw [Bool.not_eq_false] at expires
    exact none row member (Bool.and_eq_true_iff.mpr ⟨expires, beq_iff_eq.mpr named⟩)

namespace Trimmed

theorem refl (before : Time) (store : Store) : Trimmed before store store :=
  ⟨rfl, rfl, rfl, rfl, rfl, rfl, rfl⟩

theorem trans (first : Trimmed before store middle) (second : Trimmed before middle after) :
    Trimmed before store after := by
  have jobIds : ∀ id, stays middle.jobs.rows JobRow.inactiveSince JobRow.id before id =
      stays store.jobs.rows JobRow.inactiveSince JobRow.id before id := by
    intro id
    unfold stays
    rw [first.jobs]
  have scheduleIds : ∀ id,
      stays middle.schedules.rows ScheduleRow.stoppedAt ScheduleRow.id before id =
        stays store.schedules.rows ScheduleRow.stoppedAt ScheduleRow.id before id := by
    intro id
    unfold stays
    rw [first.schedules]
  have executions := second.executions
  have jobLabels := second.jobLabels
  have scheduleLabels := second.scheduleLabels
  simp only [jobIds, scheduleIds] at executions jobLabels scheduleLabels
  exact ⟨second.jobs.trans first.jobs, executions.trans first.executions,
    jobLabels.trans first.jobLabels, second.schedules.trans first.schedules,
    scheduleLabels.trans first.scheduleLabels, second.jobTypes.trans first.jobTypes,
    second.nextUuid.trans first.nextUuid⟩

theorem deletesJobs {doomed : JobRow → Bool}
    (expires : ∀ job ∈ store.jobs.rows, doomed job = true →
      expired before job.inactiveSince = true) : Trimmed before store (store.deleteJobs doomed) := by
  have dependents : ∀ id, stays store.jobs.rows JobRow.inactiveSince JobRow.id before id = true →
      (!store.jobDeleted doomed id) = true := fun _ kept =>
    not_doomed_of_stays store.jobs expires kept
  refine ⟨?_, ?_, ?_, rfl, rfl, rfl, rfl⟩
  · exact filter_filter_of_imp fun _ member kept => not_doomed store.jobs expires member kept
  · exact filter_filter_of_imp fun row _ => dependents row.jobId
  · exact filter_filter_of_imp fun label _ => dependents label.jobId

theorem deletesSchedules {doomed : ScheduleRow → Bool}
    (expires : ∀ row ∈ store.schedules.rows, doomed row = true →
      expired before row.stoppedAt = true) :
    Trimmed before store (store.deleteSchedules doomed) := by
  refine ⟨rfl, rfl, rfl, ?_, ?_, rfl, rfl⟩
  · exact filter_filter_of_imp fun _ member kept => not_doomed store.schedules expires member kept
  · exact filter_filter_of_imp fun _ _ kept => not_doomed_of_stays store.schedules expires kept

end Trimmed

/-- A row of a batch is expired. -/
theorem expired_of_contains {ρ : Type} {key : ρ → Uuid} (table : Table key)
    {time : ρ → Option Time} {row : ρ} (member : row ∈ table.rows)
    (doomed : (oldest table.rows time key before limit).contains (key row) = true) :
    expired (systemtimeToTs before) (time row) = true := by
  obtain ⟨other, present, same, expires⟩ := mem_oldest (List.contains_iff_mem.mp doomed)
  rwa [table.eq_of_key member present same.symm]

theorem deleteJobBatch_trims (store : Store) (before : Time) (limit : Nat) :
    Trimmed (systemtimeToTs before) store (deleteJobBatch store before limit).1 :=
  .deletesJobs fun _ member => expired_of_contains store.jobs member

theorem deleteScheduleBatch_trims (store : Store) (before : Time) (limit : Nat) :
    Trimmed (systemtimeToTs before) store (deleteScheduleBatch store before limit).1 :=
  .deletesSchedules fun _ member => expired_of_contains store.schedules member

/-- A batch that is not empty deletes a row. -/
theorem delete_length_lt {ρ : Type} {key : ρ → Uuid} (table : Table key)
    {time : ρ → Option Time} (found : oldest table.rows time key before limit ≠ []) :
    (table.delete fun row =>
      (oldest table.rows time key before limit).contains (key row)).rows.length <
        table.rows.length := by
  obtain ⟨id, selected⟩ := List.exists_mem_of_ne_nil _ found
  obtain ⟨row, member, rfl, _⟩ := mem_oldest selected
  refine List.length_filter_lt_length_iff_exists.mpr ⟨row, member, ?_⟩
  dsimp only
  rw [List.contains_iff_mem.mpr selected]
  decide

theorem delete_length_le {ρ : Type} {key : ρ → Uuid} (table : Table key) (doomed : ρ → Bool) :
    (table.delete doomed).rows.length ≤ table.rows.length :=
  List.length_filter_le ..

/-- With more passes than rows the loop ends, and no expired row is left. -/
theorem deletePasses_ends (positive : 0 < limit) {passes : Nat}
    (enough : store.jobs.rows.length + store.schedules.rows.length < passes) :
    ∃ after, deletePasses passes store before limit = some after ∧
      deleteBatches passes store before limit = after ∧
      Trimmed (systemtimeToTs before) store after ∧
      (∀ job ∈ after.jobs.rows, expired (systemtimeToTs before) job.inactiveSince = false) ∧
      ∀ row ∈ after.schedules.rows, expired (systemtimeToTs before) row.stoppedAt = false := by
  induction passes generalizing store with
  | zero => omega
  | succ passes ih =>
      have trims := (deleteJobBatch_trims store before limit).trans
        (deleteScheduleBatch_trims (deleteJobBatch store before limit).1 before limit)
      unfold deletePasses deleteBatches
      dsimp only
      split
      · rename_i none
        have noJobs := List.eq_nil_of_length_eq_zero (Nat.eq_zero_of_add_eq_zero_right none)
        have noSchedules := List.eq_nil_of_length_eq_zero (Nat.eq_zero_of_add_eq_zero_left none)
        refine ⟨_, rfl, rfl, trims, fun job member => ?_, fun row member => ?_⟩
        · exact not_expired_of_oldest_eq_nil positive noJobs (List.mem_of_mem_filter member)
        · exact not_expired_of_oldest_eq_nil positive noSchedules (List.mem_of_mem_filter member)
      · rename_i some
        have shorter : (deleteScheduleBatch (deleteJobBatch store before limit).1 before
            limit).1.jobs.rows.length +
            (deleteScheduleBatch (deleteJobBatch store before limit).1 before
              limit).1.schedules.rows.length <
            store.jobs.rows.length + store.schedules.rows.length := by
          by_cases noJobs : oldest store.jobs.rows JobRow.inactiveSince JobRow.id before limit = []
          · have found : oldest store.schedules.rows ScheduleRow.stoppedAt ScheduleRow.id before
                limit ≠ [] := by
              intro noSchedules
              refine some ?_
              unfold deleteJobBatch deleteScheduleBatch
              dsimp only [Store.deleteJobs]
              rw [noJobs, noSchedules]
              rfl
            exact Nat.add_lt_add_of_le_of_lt (delete_length_le store.jobs _)
              (delete_length_lt store.schedules found)
          · exact Nat.add_lt_add_of_lt_of_le (delete_length_lt store.jobs noJobs)
              (delete_length_le store.schedules _)
        obtain ⟨after, ends, batches, trimmed, jobs, schedules⟩ :=
          ih (Nat.lt_of_lt_of_le shorter (Nat.le_of_lt_succ enough))
        exact ⟨after, ends, batches, trims.trans trimmed, jobs, schedules⟩

theorem stays_of_not_expired {ρ : Type} {rows : List ρ} {time : ρ → Option Time} {key : ρ → Uuid}
    (kept : ∀ row ∈ rows, expired before (time row) = false) {id : Uuid}
    (present : ∃ row ∈ rows, key row = id) : stays rows time key before id = true := by
  obtain ⟨row, member, named⟩ := present
  refine List.any_eq_true.mpr ⟨row, List.mem_filter.mpr ⟨member, ?_⟩, beq_iff_eq.mpr named⟩
  rw [kept row member]
  rfl

/-- The rows that depend on the rows that stay. -/
theorem dependents_eq {ρ σ : Type} {key : ρ → Uuid} (table : Table key) {time : ρ → Option Time}
    {rows left : List σ} {parent : σ → Uuid}
    (referenced : ∀ row ∈ rows, ∃ other ∈ table.rows, key other = parent row)
    (remaining : ∀ row ∈ left, stays table.rows time key before (parent row) = true)
    (trimmed : (left.filter fun row => stays table.rows time key before (parent row)) =
      rows.filter fun row => stays table.rows time key before (parent row)) :
    left = rows.filter fun row =>
      !table.rows.any fun other => expired before (time other) && key other == parent row := by
  rw [List.filter_eq_self.mpr remaining] at trimmed
  rw [trimmed]
  exact List.filter_congr fun row member => stays_eq_not_any table (referenced row member)

theorem rows_eq {ρ : Type} {rows left : List ρ} {time : ρ → Option Time}
    (kept : ∀ row ∈ left, expired before (time row) = false)
    (trimmed : (left.filter fun row => !expired before (time row)) =
      rows.filter fun row => !expired before (time row)) :
    left = rows.filter fun row => !expired before (time row) := by
  rw [← trimmed]
  refine (List.filter_eq_self.mpr fun row member => ?_).symm
  rw [kept row member]
  rfl

theorem jobTypeReferred_eq (store : Store) (row : JobTypeRow) :
    jobTypeReferred store.jobs.rows store.schedules.rows row = !jobTypeUnused store row := by
  unfold jobTypeReferred jobTypeUnused
  rw [Bool.not_and, Bool.not_not, Bool.not_not]

/-- Once nothing before the cut-off is left, exactly the history is deleted. -/
theorem Trimmed.historyDeleted (trimmed : Trimmed before store after)
    (jobs : ∀ job ∈ after.jobs.rows, expired before job.inactiveSince = false)
    (schedules : ∀ row ∈ after.schedules.rows, expired before row.stoppedAt = false) :
    HistoryDeleted before store (deleteJobTypes after) := by
  have jobIds : ∀ id, (∃ job ∈ after.jobs.rows, job.id = id) →
      stays store.jobs.rows JobRow.inactiveSince JobRow.id before id = true := by
    intro id present
    have kept := stays_of_not_expired jobs present
    unfold stays at kept ⊢
    rwa [← trimmed.jobs]
  have scheduleIds : ∀ id, (∃ row ∈ after.schedules.rows, row.id = id) →
      stays store.schedules.rows ScheduleRow.stoppedAt ScheduleRow.id before id = true := by
    intro id present
    have kept := stays_of_not_expired schedules present
    unfold stays at kept ⊢
    rwa [← trimmed.schedules]
  exact
    { jobs := rows_eq jobs trimmed.jobs
      executions := dependents_eq store.jobs store.execution_job
        (fun row member => jobIds row.jobId (after.execution_job row member)) trimmed.executions
      jobLabels := dependents_eq store.jobs store.jobLabel_job
        (fun label member => jobIds label.jobId (after.jobLabel_job label member)) trimmed.jobLabels
      schedules := rows_eq schedules trimmed.schedules
      scheduleLabels := dependents_eq store.schedules store.scheduleLabel_schedule
        (fun label member => scheduleIds label.scheduleId (after.scheduleLabel_schedule label member))
        trimmed.scheduleLabels
      jobTypes := by
        change after.jobTypes.rows.filter _ = _
        rw [trimmed.jobTypes]
        exact List.filter_congr fun row _ => (jobTypeReferred_eq after row).symm
      nextUuid := trimmed.nextUuid }

/-- An active job keeps its row with its executions and labels. -/
def JobKept (store after : Store) (job : JobRow) : Prop :=
  job ∈ after.jobs.rows ∧
    (∀ row ∈ store.executions.rows, row.jobId = job.id → row ∈ after.executions.rows) ∧
    ∀ label ∈ store.jobLabels.rows, label.jobId = job.id → label ∈ after.jobLabels.rows

theorem HistoryDeleted.jobKept (deleted : HistoryDeleted before store after) {job : JobRow}
    (member : job ∈ store.jobs.rows) (running : job.inactiveSince = none) :
    JobKept store after job := by
  have kept : ∀ id, id = job.id →
      (!store.jobs.rows.any fun other => expired before other.inactiveSince && other.id == id) =
        true := by
    rintro _ rfl
    rw [Bool.not_eq_true', List.any_eq_false]
    intro other present both
    obtain ⟨expires, same⟩ := Bool.and_eq_true_iff.mp both
    rw [store.jobs.eq_of_key present member (beq_iff_eq.mp same), running] at expires
    cases expires
  refine ⟨?_, fun row present same => ?_, fun label present same => ?_⟩
  · rw [deleted.jobs, List.mem_filter, running]
    exact ⟨member, rfl⟩
  · rw [deleted.executions]
    exact List.mem_filter.mpr ⟨present, kept row.jobId same⟩
  · rw [deleted.jobLabels]
    exact List.mem_filter.mpr ⟨present, kept label.jobId same⟩

/-- Deleting history ends, deletes exactly what was over before the cut-off, and keeps
whatever is active. -/
def DeletesHistory (store : Store) (deleteBatchSize : Nat) (before cutOff : Time) : Prop :=
  (∃ passes after, deletePasses passes store before deleteBatchSize = some after ∧
    deleteHistory store deleteBatchSize before = deleteJobTypes after) ∧
  HistoryDeleted cutOff store (deleteHistory store deleteBatchSize before) ∧
  (∀ job ∈ store.jobs.rows,
    (∃ row ∈ store.executions.rows, row.jobId = job.id ∧ row.active = true) →
    JobKept store (deleteHistory store deleteBatchSize before) job) ∧
  ∀ schedule ∈ store.schedules.rows, schedule.stoppedAt = none →
    schedule ∈ (deleteHistory store deleteBatchSize before).schedules.rows

/-- One of two jobs is cancelled. -/
def oneCancelled (cancelledAt : Time) : List Operation :=
  [.addJobs 0 (fun _ => 0) [plainJob 0, plainJob 0] none,
    .cancelJobs 1000 cancelledAt (fun _ => 0) { jobIds := some [0] }]

end Trimmed

end Ora.Postgres
