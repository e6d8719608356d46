import Ora.Postgres.JobInvariant
import Ora.Postgres.ListingPages

/-!
# The meaning of filters

What a filter denotes, field by field, and that the queries select what the
filter denotes once the bounds of its time ranges are read as the queries read
them.  `bound` is how a bound is read.
-/

namespace Ora.Postgres

open Ora.Backend
open Ora.Library

/-- An inactive job has a final status, an active job an active execution. -/
structure StatusesStored (store : Store) : Prop where
  inactive : ∀ job ∈ store.jobs.rows, ∀ status, job.inactiveStatus = some status →
    terminal status = true
  active : ∀ job ∈ store.jobs.rows, job.inactiveStatus = none →
    ∃ row ∈ store.executions.rows, row.jobId = job.id ∧ row.active = true
  unmarked : ∀ job ∈ store.jobs.rows, job.inactiveSince = none → job.inactiveStatus = none

namespace StatusesStored

variable {store after : Store}

theorem empty : StatusesStored Store.empty where
  inactive := by simp [Store.empty]
  active := by simp [Store.empty]
  unmarked := by simp [Store.empty]

theorem congr (stored : StatusesStored store) (jobs : after.jobs = store.jobs)
    (executions : after.executions = store.executions) : StatusesStored after := by
  refine ⟨?_, ?_, ?_⟩
  · rw [jobs]
    exact stored.inactive
  · rw [jobs, executions]
    exact stored.active
  · rw [jobs]
    exact stored.unmarked

theorem finishes (stored : StatusesStored store) {status : ExecutionStatus}
    {change : ExecutionRow → ExecutionRow} {mark : JobRow → JobRow}
    {free : ScheduleRow → ScheduleRow} (effect : Finishes status change mark free store after) :
    StatusesStored after := by
  refine ⟨?_, ?_, ?_⟩
  · simp only [effect.jobs, List.forall_mem_map]
    intro job member other marked
    cases done : settled store change job.id with
    | true =>
        obtain ⟨time, same⟩ := effect.marked job done
        rw [same] at marked
        rw [← Option.some.inj marked]
        exact effect.isTerminal
    | false =>
        rw [effect.unmarked job done] at marked
        exact stored.inactive job member other marked
  · simp only [effect.jobs, effect.executions, List.mem_map, exists_exists_and_eq_and,
      forall_exists_index, and_imp, forall_apply_eq_imp_iff₂]
    intro job member unmarked
    cases done : settled store change job.id with
    | true =>
        obtain ⟨time, same⟩ := effect.marked job done
        rw [same] at unmarked
        cases unmarked
    | false =>
        rw [effect.unmarked job done] at unmarked ⊢
        obtain ⟨row, present, same, active⟩ := stored.active job member unmarked
        refine ⟨row, present, (effect.execution row).job_eq.trans same, ?_⟩
        by_contra finished
        have settles := (settled_iff store change job.id).mpr
          ⟨row, present, same, active, by simpa using finished⟩
        rw [done] at settles
        cases settles
  · simp only [effect.jobs, List.forall_mem_map]
    intro job member unfinished
    have unfinished : (mark job).inactiveSince = none := unfinished
    have kept := (effect.mark_active unfinished).1
    rw [kept] at unfinished ⊢
    exact stored.unmarked job member unfinished

theorem starts (stored : StatusesStored store) {executions : List StartedExecution}
    {change : ExecutionRow → ExecutionRow} (effect : Starts executions change store after) :
    StatusesStored after := by
  refine ⟨?_, ?_, ?_⟩
  · rw [effect.jobs]
    exact stored.inactive
  · simp only [effect.jobs, effect.executions, List.mem_map, exists_exists_and_eq_and, effect.keeps]
    exact stored.active
  · rw [effect.jobs]
    exact stored.unmarked

theorem retries (stored : StatusesStored store) {pick : Pick} {executions : List RetriedExecution}
    {added : List ExecutionRow}
    (effect : Retries executions (retryRow pick executions) added store after)
    (carries : CarriesJobs store (executions.map fun execution => execution.failedExecution)) :
    StatusesStored after := by
  refine ⟨?_, ?_, by rw [effect.jobs]; exact stored.unmarked⟩
  · rw [effect.jobs]
    exact stored.inactive
  · rw [effect.jobs, effect.executions]
    intro job member unmarked
    obtain ⟨row, present, same, active⟩ := stored.active job member unmarked
    cases kept : (retryRow pick executions row).active with
    | true =>
        exact ⟨_, List.mem_append_left _ (List.mem_map_of_mem present),
          (effect.execution row).job_eq.trans same, kept⟩
    | false =>
        have done := (settled_iff store (retryRow pick executions) job.id).mpr
          ⟨row, present, same, active, kept⟩
        obtain ⟨new, newMember, newSame⟩ :=
          List.mem_map.mp ((effect.added_iff carries job.id).mpr done)
        exact ⟨new, List.mem_append_right _ newMember, newSame,
          (ExecutionRow.active_iff_status new).mpr (.inl (effect.pending new newMember))⟩

theorem adds (stored : StatusesStored store) {first : Uuid} {newJobs : List JobRow}
    {added : List ExecutionRow} {claim : ScheduleRow → ScheduleRow}
    (effect : AddsJobs first newJobs added claim store after) : StatusesStored after := by
  refine ⟨?_, ?_, ?_⟩
  · intro job member status marked
    rw [effect.jobs, List.mem_append] at member
    obtain old | new := member
    · exact stored.inactive job old status marked
    · rw [(effect.unfinished job new).2] at marked
      cases marked
  · intro job member unmarked
    rw [effect.jobs, List.mem_append] at member
    rw [effect.executions]
    obtain old | new := member
    · obtain ⟨row, present, facts⟩ := stored.active job old unmarked
      exact ⟨row, List.mem_append_left _ present, facts⟩
    · have known := List.mem_map_of_mem (f := JobRow.id) new
      rw [← effect.jobIds] at known
      obtain ⟨row, present, same⟩ := List.mem_map.mp known
      exact ⟨row, List.mem_append_right _ present, same,
        (ExecutionRow.active_iff_status row).mpr (.inl (effect.pending row present))⟩
  · intro job member unfinished
    rw [effect.jobs, List.mem_append] at member
    obtain old | new := member
    · exact stored.unmarked job old unfinished
    · exact (effect.unfinished job new).2

theorem deletes (stored : StatusesStored store) (doomed : JobRow → Bool) :
    StatusesStored (store.deleteJobs doomed) := by
  refine ⟨fun job member => stored.inactive job (List.mem_filter.mp member).1, ?_,
    fun job member => stored.unmarked job (List.mem_filter.mp member).1⟩
  intro job member unmarked
  obtain ⟨present, kept⟩ := List.mem_filter.mp member
  obtain ⟨row, rowMember, same, active⟩ := stored.active job present unmarked
  refine ⟨row, List.mem_filter.mpr ⟨rowMember, ?_⟩, same, active⟩
  show (!store.jobDeleted doomed row.jobId) = true
  simp only [same, JobInvariant.jobDeleted_eq_false present (by simpa using kept), Bool.not_false]

theorem step (stored : StatusesStored store) {operation : Operation}
    (carries : operation.carriesJobs store) (done : operation.apply store = some after) :
    StatusesStored after := by
  cases operation with
  | addJobs now pick jobs ifNotExists =>
      obtain ⟨⟨_, result⟩, added, rfl⟩ := Option.map_eq_some_iff.mp done
      obtain ⟨_, _, _, effect⟩ := addJobs_adds added
      exact stored.adds effect
  | addSchedules now schedules ifNotExists =>
      obtain ⟨⟨_, result⟩, added, rfl⟩ := Option.map_eq_some_iff.mp done
      obtain ⟨_, effect⟩ := addSchedules_adds added
      exact stored.congr effect.jobs effect.executions
  | stopSchedules now filters =>
      cases done
      exact stored.congr rfl rfl
  | executionsStarted pick executions =>
      cases done
      exact stored.starts (executionsStarted_starts store pick executions)
  | executionsSucceeded pick executions =>
      cases done
      obtain ⟨_, _, effect⟩ := executionsSucceeded_finishes store pick executions
      exact stored.finishes effect
  | executionsFailed pick executions =>
      cases done
      obtain ⟨_, _, effect⟩ := executionsFailed_finishes store pick executions
      exact stored.finishes effect
  | executionsRetried now pick executions =>
      obtain ⟨_, effect⟩ := executionsRetried_retries done
      exact stored.retries effect carries
  | cancelJobs now systemNow pick filters =>
      cases done
      obtain ⟨_, _, _, effect⟩ := cancelJobs_finishes store now systemNow pick filters
      exact stored.finishes effect
  | deleteHistory deleteBatchSize before =>
      cases done
      exact deleteHistory_preserves (fun _ doomed stored _ => stored.deletes doomed)
        (fun _ _ stored _ => stored.congr rfl rfl) (fun _ _ stored => stored.congr rfl rfl)
        deleteBatchSize before stored

end StatusesStored

theorem statusesStored_of_reaches {store : Store}
    (run : Reaches Operation.apply (fun store operation => operation.carriesJobs store)
      Store.empty store) : StatusesStored store :=
  run.invariant (fun _ _ _ stored carries done => stored.step carries done) .empty

/-- Membership in a list, if one is given. -/
def Among {α : Type} (allowed : Option (List α)) (value : α) : Prop :=
  ∀ values ∈ allowed, value ∈ values

def AmongNullable {α : Type} (allowed : Option (List α)) (value : Option α) : Prop :=
  ∀ values ∈ allowed, ∃ present ∈ value, present ∈ values

def InRange (bound : Time → Time) (range : Option TimeRange) (time : Time) : Prop :=
  ∀ given ∈ range, (∀ start ∈ given.start, bound start ≤ time) ∧
    ∀ stop ∈ given.stop, time < bound stop

/-- `value_in` takes precedence over `value`. -/
def LabelDenoted (filter : LabelFilter) (key value : String) : Prop :=
  key = filter.key ∧
    match filter.valueIn with
    | some values => value ∈ values
    | none => ∀ expected ∈ filter.value, value = expected

/-- The reasons narrow down the pending executions. -/
def HasStatus (store : Store) (now : Time) (reasons : Option (List ExecutionPendingReason))
    (job : JobRow) (status : ExecutionStatus) : Prop :=
  job.inactiveStatus = some status ∨
    job.inactiveStatus = none ∧ ∃ row ∈ store.executions.rows, row.jobId = job.id ∧
      row.active = true ∧ row.status = status ∧
      (status = .pending → ∀ allowed ∈ reasons, ∃ reason ∈ pendingReason now row, reason ∈ allowed)

/-- Everything a job filter asks for, apart from the times. -/
structure JobConditions (store : Store) (now : Time) (filters : JobFilters) (job : JobRow) : Prop where
  jobIds : Among filters.jobIds job.id
  jobTypeIds : Among filters.jobTypeIds job.jobTypeId
  executions : filters.executionIds.isSome = true ∨ filters.executorIds.isSome = true →
    ∃ row ∈ store.executions.rows, row.jobId = job.id ∧ Among filters.executionIds row.id ∧
      AmongNullable filters.executorIds row.executorId
  executionStatuses : filters.executionStatuses.isSome = true ∨ filters.pendingReasons.isSome = true →
    ∃ status ∈ filters.executionStatuses.getD [.pending],
      HasStatus store now filters.pendingReasons job status
  pendingReasons : filters.pendingReasons ≠ some []
  labels : ∀ filter ∈ filters.labels.getD [], ∃ label ∈ store.jobLabels.rows,
    label.jobId = job.id ∧ LabelDenoted filter label.labelKey label.labelValue
  scheduleIds : AmongNullable filters.scheduleIds job.scheduleId
  minPriority : ∀ least ∈ filters.minPriority, least ≤ job.priority
  maxPriority : ∀ greatest ∈ filters.maxPriority, job.priority ≤ greatest

structure JobTimes (bound : Time → Time) (filters : JobFilters) (job : JobRow) : Prop where
  targetExecutionTime : InRange bound filters.targetExecutionTime job.targetExecutionTime
  createdAt : InRange bound filters.createdAt job.createdAt

/-- Everything a schedule filter asks for, apart from the times. -/
structure ScheduleConditions (store : Store) (filters : ScheduleFilters) (row : ScheduleRow) :
    Prop where
  scheduleIds : Among filters.scheduleIds row.id
  jobTypeIds : Among filters.jobTypeIds row.jobTemplateJobTypeId
  statuses : Among filters.statuses (if row.stoppedAt.isSome then .stopped else .active)
  labels : ∀ filter ∈ filters.labels.getD [], ∃ label ∈ store.scheduleLabels.rows,
    label.scheduleId = row.id ∧ LabelDenoted filter label.labelKey label.labelValue

theorem anyOf_iff {α : Type} [DecidableEq α] {allowed : Option (List α)} {value : α} :
    anyOf allowed value = true ↔ Among allowed value := by
  cases allowed <;> simp [anyOf, Among]

theorem anyOfNullable_iff {α : Type} [DecidableEq α] {allowed : Option (List α)}
    {value : Option α} : anyOfNullable allowed value = true ↔ AmongNullable allowed value := by
  cases allowed <;> simp [anyOfNullable, AmongNullable, Option.any_eq_true]

theorem withinRange_iff {range : Option TimeRange} {time : Time} :
    withinRange range time = true ↔ InRange systemtimeToTs range time := by
  cases range <;> simp [withinRange, InRange, Option.all_eq_true]

theorem labelMatches_iff {filter : LabelFilter} {key value : String} :
    labelMatches filter key value = true ↔ LabelDenoted filter key value := by
  unfold labelMatches LabelDenoted
  cases filter.valueIn <;> simp [Option.all_eq_true]

section Statuses

variable {store : Store} {now : Time} {job : JobRow}

/-- The inactive values of a status filter, as its shortcuts use them. -/
theorem inactiveValues_spec (statuses : List ExecutionStatus) {status : ExecutionStatus}
    (finished : terminal status = true) :
    let values := inactiveStatuses.filter fun status => statuses.contains status
    values.contains status = statuses.contains status ∧
      (values.isEmpty = true → statuses.contains status = false) ∧
      ((values.length == inactiveStatuses.length) = true → statuses.contains status = true) := by
  have listed : status ∈ inactiveStatuses := by
    cases status <;> simp_all [terminal, inactiveStatuses]
  refine ⟨?_, ?_, ?_⟩
  · simp [listed, List.contains_eq_mem, List.mem_filter]
  · intro empty
    have dropped := List.filter_eq_nil_iff.mp (List.isEmpty_iff.mp empty) status listed
    simpa using dropped
  · intro full
    exact List.length_filter_eq_length_iff.mp (beq_iff_eq.mp full) status listed

/-- The shortcuts of the status filter only leave out conditions. -/
theorem statusFilter_eq
    (inactive : ∀ status, job.inactiveStatus = some status → terminal status = true)
    (statuses : Option (List ExecutionStatus)) (reasons : Option (List ExecutionPendingReason)) :
    statusFilter store now statuses reasons job =
      let statuses := statuses.getD [.pending]
      let scheduled := statuses.contains .pending && reasons.all fun reasons => reasons.contains .scheduled
      let ready := statuses.contains .pending && reasons.all fun reasons => reasons.contains .ready
      let inProgress := statuses.contains .inProgress
      match job.inactiveStatus with
      | some status => statuses.contains status
      | none => (scheduled && ready && inProgress) ||
          store.executions.rows.any fun row => row.jobId == job.id &&
            ((pendingCondition now scheduled ready).toList ++
              (inProgressCondition inProgress).toList).any fun condition => condition row := by
  unfold statusFilter
  generalize statuses.getD [.pending] = statuses
  cases marked : job.inactiveStatus with
  | some status =>
      obtain ⟨same, empty, full⟩ :=
        inactiveValues_spec statuses (inactive status marked)
      simp only [Option.isNone_some, Option.isSome_some, Bool.false_and, Option.any_some, same]
      grind
  | none =>
      simp only [Option.isNone_none, Option.isSome_none, Bool.true_and, Option.any_none]
      generalize (statuses.contains .pending &&
        reasons.all fun reasons => reasons.contains .scheduled) = scheduled
      generalize (statuses.contains .pending &&
        reasons.all fun reasons => reasons.contains .ready) = ready
      generalize statuses.contains .inProgress = inProgress
      generalize ((pendingCondition now scheduled ready).toList ++
        (inProgressCondition inProgress).toList) = conditions
      have unmatched : conditions.isEmpty = true → (store.executions.rows.any fun row =>
          row.jobId == job.id && conditions.any fun condition => condition row) = false := by
        intro empty
        simp [List.isEmpty_iff.mp empty]
      grind

theorem pendingCondition_iff {scheduled ready : Bool} {row : ExecutionRow} :
    ((pendingCondition now scheduled ready).toList.any fun condition => condition row) = true ↔
      row.status = .pending ∧
        (if now < row.targetExecutionTime then scheduled else ready) = true := by
  cases scheduled <;> cases ready <;> simp [pendingCondition]

theorem inProgressCondition_iff {inProgress : Bool} {row : ExecutionRow} :
    ((inProgressCondition inProgress).toList.any fun condition => condition row) = true ↔
      row.status = .inProgress ∧ inProgress = true := by
  cases inProgress <;> simp [inProgressCondition]

/-- The reasons of a pending execution, as the status filter looks them up. -/
theorem reasonAllowed_iff {reasons : Option (List ExecutionPendingReason)} {row : ExecutionRow}
    (pending : row.status = .pending) :
    (if now < row.targetExecutionTime then
        reasons.all fun reasons => reasons.contains .scheduled
      else
        reasons.all fun reasons => reasons.contains .ready) = true ↔
      ∀ allowed ∈ reasons, ∃ reason ∈ pendingReason now row, reason ∈ allowed := by
  unfold pendingReason
  rw [if_pos pending]
  split <;> simp [Option.all_eq_true]

theorem statusFilter_iff
    (inactive : ∀ status, job.inactiveStatus = some status → terminal status = true)
    (active : job.inactiveStatus = none →
      ∃ row ∈ store.executions.rows, row.jobId = job.id ∧ row.active = true)
    (statuses : Option (List ExecutionStatus)) (reasons : Option (List ExecutionPendingReason)) :
    statusFilter store now statuses reasons job = true ↔
      ∃ status ∈ statuses.getD [.pending], HasStatus store now reasons job status := by
  rw [statusFilter_eq inactive]
  generalize statuses.getD [.pending] = statuses
  cases marked : job.inactiveStatus with
  | some status => simp [HasStatus, marked]
  | none =>
      dsimp only
      rw [Bool.or_eq_true, List.any_eq_true]
      simp only [Bool.or_eq_true, Bool.and_eq_true, beq_iff_eq, List.any_append,
        pendingCondition_iff, inProgressCondition_iff]
      constructor
      · rintro (⟨⟨⟨pending, scheduled⟩, _, ready⟩, inProgress⟩ | ⟨row, present, same, found⟩)
        · obtain ⟨row, present, same, active⟩ := active marked
          obtain status | status := (ExecutionRow.active_iff_status row).mp active
          · refine ⟨.pending, List.contains_iff_mem.mp pending,
              .inr ⟨marked, row, present, same, active, status, fun _ => ?_⟩⟩
            refine (reasonAllowed_iff status).mp ?_
            split
            · exact scheduled
            · exact ready
          · exact ⟨.inProgress, List.contains_iff_mem.mp inProgress,
              .inr ⟨marked, row, present, same, active, status, by simp⟩⟩
        · obtain ⟨status, allowed⟩ | ⟨status, inProgress⟩ := found
          · have both : ExecutionStatus.pending ∈ statuses ∧
                ∀ allowed ∈ reasons, ∃ reason ∈ pendingReason now row, reason ∈ allowed := by
              rw [← reasonAllowed_iff status]
              split at allowed <;> simp_all
            exact ⟨.pending, both.1, .inr ⟨marked, row, present, same,
              (ExecutionRow.active_iff_status row).mpr (.inl status), status, fun _ => both.2⟩⟩
          · exact ⟨.inProgress, List.contains_iff_mem.mp inProgress, .inr ⟨marked, row, present,
              same, (ExecutionRow.active_iff_status row).mpr (.inr status), status, by simp⟩⟩
      · rintro ⟨status, chosen, stated | ⟨_, row, present, same, active, rfl, reason⟩⟩
        · rw [marked] at stated
          cases stated
        · refine .inr ⟨row, present, same, ?_⟩
          obtain status | status := (ExecutionRow.active_iff_status row).mp active
          · have allowed := (reasonAllowed_iff status).mpr (reason status)
            rw [status] at chosen
            refine .inl ⟨status, ?_⟩
            split at allowed <;> simp_all
          · rw [status] at chosen
            exact .inr ⟨status, List.contains_iff_mem.mpr chosen⟩

end Statuses

section Selection

variable {store : Store} {now : Time}

theorem executionsMatch_iff {filters : JobFilters} {job : JobRow} :
    executionsMatch store filters job = true ↔
      (filters.executionIds.isSome = true ∨ filters.executorIds.isSome = true →
        ∃ row ∈ store.executions.rows, row.jobId = job.id ∧ Among filters.executionIds row.id ∧
          AmongNullable filters.executorIds row.executorId) := by
  simp only [executionsMatch, executionMatches, Bool.or_eq_true, Bool.not_eq_true',
    Bool.or_eq_false_iff, List.any_eq_true, Bool.and_eq_true, beq_iff_eq, anyOf_iff,
    anyOfNullable_iff]
  cases filters.executionIds <;> cases filters.executorIds <;> simp

theorem queriedJobs_iff (stored : StatusesStored store) {filters : JobFilters}
    (reasons : filters.pendingReasons ≠ some []) (job : JobRow) :
    job ∈ queriedJobs store now filters ↔ job ∈ store.jobs.rows ∧
      JobConditions store now filters job ∧ JobTimes systemtimeToTs filters job := by
  unfold queriedJobs
  rw [List.mem_filter]
  refine and_congr_right fun member => ?_
  have statuses : ((if filters.executionStatuses.isSome || filters.pendingReasons.isSome then
        statusFilter store now filters.executionStatuses filters.pendingReasons job
      else true) = true) ↔
      (filters.executionStatuses.isSome = true ∨ filters.pendingReasons.isSome = true →
        ∃ status ∈ filters.executionStatuses.getD [.pending],
          HasStatus store now filters.pendingReasons job status) := by
    rw [← statusFilter_iff (stored.inactive job member) (stored.active job member),
      ← Bool.or_eq_true]
    split <;> simp_all
  simp only [jobMatches, Bool.and_eq_true, executionsMatch_iff, statuses, anyOf_iff,
    anyOfNullable_iff, withinRange_iff, List.all_eq_true, List.any_eq_true, beq_iff_eq,
    labelMatches_iff, Option.all_eq_true, decide_eq_true_eq, and_assoc]
  constructor
  · rintro ⟨executions, ids, types, target, created, status, labels, schedules, least, greatest⟩
    exact ⟨⟨ids, types, executions, status, reasons, labels, schedules, least, greatest⟩,
      ⟨target, created⟩⟩
  · rintro ⟨conditions, times⟩
    exact ⟨conditions.executions, conditions.jobIds, conditions.jobTypeIds,
      times.targetExecutionTime, times.createdAt, conditions.executionStatuses, conditions.labels,
      conditions.scheduleIds, conditions.minPriority, conditions.maxPriority⟩

theorem mem_selectJobIds (stored : StatusesStored store) {filters : JobFilters}
    (reasons : filters.pendingReasons ≠ some []) {job : JobRow} (member : job ∈ store.jobs.rows) :
    job.id ∈ selectJobIds store now filters ↔
      JobConditions store now filters job ∧ JobTimes systemtimeToTs filters job := by
  rw [(selectJobIds_spec store now filters).2]
  constructor
  · rintro ⟨other, queried, same⟩
    obtain ⟨present, denoted⟩ := (queriedJobs_iff stored reasons other).mp queried
    rwa [store.jobs.eq_of_key present member same] at denoted
  · exact fun denoted => ⟨job, (queriedJobs_iff stored reasons job).mpr ⟨member, denoted⟩, rfl⟩

theorem scheduleStatusMatches_iff {statuses : Option (List ScheduleStatus)} {row : ScheduleRow} :
    scheduleStatusMatches statuses row = true ↔
      Among statuses (if row.stoppedAt.isSome then .stopped else .active) := by
  cases statuses with
  | none => simp [scheduleStatusMatches, Among]
  | some statuses =>
      unfold scheduleStatusMatches Among
      cases row.stoppedAt <;> cases active : statuses.contains .active <;>
        cases stopped : statuses.contains .stopped <;> simp_all

theorem mem_selectScheduleIds {filters : ScheduleFilters} {row : ScheduleRow}
    (member : row ∈ store.schedules.rows) :
    row.id ∈ selectScheduleIds store filters ↔ ScheduleConditions store filters row ∧
      InRange systemtimeToTs filters.createdAt row.createdAt := by
  have matching : scheduleMatches store filters row = true ↔
      ScheduleConditions store filters row ∧
        InRange systemtimeToTs filters.createdAt row.createdAt := by
    simp only [scheduleMatches, Bool.and_eq_true, anyOf_iff, withinRange_iff, List.all_eq_true,
      List.any_eq_true, beq_iff_eq, labelMatches_iff, scheduleStatusMatches_iff, and_assoc]
    constructor
    · rintro ⟨ids, types, created, labels, statuses⟩
      exact ⟨⟨ids, types, statuses, labels⟩, created⟩
    · rintro ⟨conditions, created⟩
      exact ⟨conditions.scheduleIds, conditions.jobTypeIds, created, conditions.labels,
        conditions.statuses⟩
  rw [← matching, selectScheduleIds, List.mem_dedup, List.mem_map]
  constructor
  · rintro ⟨other, selected, same⟩
    obtain ⟨present, found⟩ := List.mem_filter.mp selected
    rwa [store.schedules.eq_of_key present member same] at found
  · exact fun found => ⟨row, List.mem_filter.mpr ⟨member, found⟩, rfl⟩

end Selection

end Ora.Postgres
