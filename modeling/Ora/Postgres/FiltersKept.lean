import Ora.Postgres.FilterMeaning
import Ora.Proto.Conversions
import Ora.Proto.RoundTrip

/-!
# The filters of the client

A filter of the client library crosses the wire before it selects rows.  It
keeps its meaning unless one of its lists is empty, one of its times is compared
as another one or, for stopping schedules, its statuses are replaced.
-/

namespace Ora.Postgres

open Ora.Backend
open Ora.Library
open Ora.Proto (Conversions given withoutEmptyLists withoutEmptyScheduleLists receivedJobFilters
  receivedScheduleFilters invalidJobType reasonsWithoutPending)

def JobDenoted (store : Store) (now : Time) (filters : JobFilters) (job : JobRow) : Prop :=
  JobConditions store now filters job ∧ JobTimes id filters job

def ScheduleDenoted (store : Store) (filters : ScheduleFilters) (row : ScheduleRow) : Prop :=
  ScheduleConditions store filters row ∧ InRange id filters.createdAt row.createdAt

/-- The row of the job and its executions are left as they are. -/
structure JobUntouched (store after : Store) (job : JobRow) : Prop where
  kept : job ∈ after.jobs.rows
  executions : ∀ row, row.jobId = job.id →
    (row ∈ after.executions.rows ↔ row ∈ store.executions.rows)

/-- The decoded filters select the denoted jobs, and cancelling jobs leaves the others alone. -/
def JobFiltersKept (conversions : Conversions) (store : Store) (now systemNow : Time) (pick : Pick)
    (filters : JobFilters) : Prop :=
  match Proto.Server.jobFilters conversions (Proto.Client.jobFilters conversions filters) with
  | .error _ => True
  | .ok received =>
      (∀ job ∈ store.jobs.rows,
        job.id ∈ selectJobIds store now received ↔ JobDenoted store now filters job) ∧
      ∀ job ∈ store.jobs.rows, ¬JobDenoted store now filters job →
        JobUntouched store (PostgresBackend.cancelJobs store now systemNow pick received).1 job

/-- The decoded filters select the denoted schedules, and stopping schedules
leaves the others alone. -/
def ScheduleFiltersKept (conversions : Conversions) (store : Store) (now : Time)
    (filters : ScheduleFilters) : Prop :=
  match Proto.Server.scheduleFilters conversions
      (Proto.Client.scheduleFilters conversions filters) with
  | .error _ => True
  | .ok received =>
      (∀ row ∈ store.schedules.rows,
        row.id ∈ selectScheduleIds store received ↔ ScheduleDenoted store filters row) ∧
      ∀ row ∈ store.schedules.rows, ¬ScheduleDenoted store filters row →
        row ∈ (stopSchedules store now received).1.schedules.rows

def hasEmptyList (filters : JobFilters) : Bool :=
  filters.jobIds == some [] || filters.jobTypeIds == some [] || filters.executorIds == some [] ||
    filters.executionIds == some [] || filters.executionStatuses == some [] ||
    filters.scheduleIds == some [] || filters.pendingReasons == some []

def hasEmptyScheduleList (filters : ScheduleFilters) : Bool :=
  filters.scheduleIds == some [] || filters.jobTypeIds == some [] || filters.statuses == some []

/-- The filter is rejected, or no stored job tells the empty lists from absent
ones or the given times from those that are read. -/
def JobFiltersHold (store : Store) (now : Time) (filters : JobFilters) : Prop :=
  invalidJobType filters.jobTypeIds = true ∨ reasonsWithoutPending filters = true ∨
    ∀ job ∈ store.jobs.rows, JobConditions store now (withoutEmptyLists filters) job →
      if hasEmptyList filters then
        ¬JobTimes systemtimeToTs filters job
      else
        (JobTimes systemtimeToTs filters job ↔ JobTimes id filters job)

/-- As for jobs, and no active schedule meets the conditions beside statuses
that exclude it. -/
def ScheduleFiltersHold (store : Store) (filters : ScheduleFilters) : Prop :=
  invalidJobType filters.jobTypeIds = true ∨
    (∀ row ∈ store.schedules.rows,
      ScheduleConditions store (withoutEmptyScheduleLists filters) row →
      if hasEmptyScheduleList filters then
        ¬InRange systemtimeToTs filters.createdAt row.createdAt
      else
        (InRange systemtimeToTs filters.createdAt row.createdAt ↔
          InRange id filters.createdAt row.createdAt)) ∧
    ∀ row ∈ store.schedules.rows, row.stoppedAt = none →
      ScheduleConditions store { withoutEmptyScheduleLists filters with statuses := none } row →
      InRange systemtimeToTs filters.createdAt row.createdAt →
      Among (given filters.statuses) .active

section Received

variable {store : Store} {now : Time}

theorem labelDenoted_sent {filter : LabelFilter} {key value : String} :
    LabelDenoted (Proto.sentLabel filter) key value ↔ LabelDenoted filter key value := by
  unfold LabelDenoted Proto.sentLabel
  cases filter.valueIn <;> rfl

/-- The labels of a received filter ask for the same. -/
theorem labels_received (labels : Option (List LabelFilter)) (condition : LabelFilter → Prop)
    (same : ∀ filter, condition (Proto.sentLabel filter) ↔ condition filter) :
    (∀ filter ∈ ((given labels).map fun filters => filters.map Proto.sentLabel).getD [],
      condition filter) ↔ ∀ filter ∈ (given labels).getD [], condition filter := by
  cases given labels with
  | none => simp
  | some filters => simp [same]

theorem jobConditions_received {filters : JobFilters} {job : JobRow} :
    JobConditions store now (receivedJobFilters filters) job ↔
      JobConditions store now (withoutEmptyLists filters) job := by
  have labels := labels_received filters.labels
    (fun filter => ∃ label ∈ store.jobLabels.rows, label.jobId = job.id ∧
      LabelDenoted filter label.labelKey label.labelValue)
    fun filter => by simp only [labelDenoted_sent]
  constructor
  · exact fun met => { met with labels := labels.mp met.labels }
  · exact fun met => { met with labels := labels.mpr met.labels }

theorem scheduleConditions_received {filters : ScheduleFilters} {row : ScheduleRow} :
    ScheduleConditions store (receivedScheduleFilters filters) row ↔
      ScheduleConditions store (withoutEmptyScheduleLists filters) row := by
  have labels := labels_received filters.labels
    (fun filter => ∃ label ∈ store.scheduleLabels.rows, label.scheduleId = row.id ∧
      LabelDenoted filter label.labelKey label.labelValue)
    fun filter => by simp only [labelDenoted_sent]
  constructor
  · exact fun met => { met with labels := labels.mp met.labels }
  · exact fun met => { met with labels := labels.mpr met.labels }

/-- Labels are conditions only where there are some. -/
theorem given_getD {α : Type} (list : Option (List α)) : (given list).getD [] = list.getD [] := by
  cases list with
  | none => rfl
  | some values => cases values <;> rfl

theorem not_among_nil {α : Type} {list : Option (List α)} (empty : list = some []) (value : α) :
    ¬Among list value := by
  simp [Among, empty]

theorem not_amongNullable_nil {α : Type} {list : Option (List α)} (empty : list = some [])
    (value : Option α) : ¬AmongNullable list value := by
  simp [AmongNullable, empty]

/-- An empty list matches nothing. -/
theorem not_jobConditions_of_empty {filters : JobFilters} {job : JobRow}
    (empty : hasEmptyList filters = true) : ¬JobConditions store now filters job := by
  intro met
  simp only [hasEmptyList, Bool.or_eq_true, beq_iff_eq] at empty
  obtain (((((ids | types) | executors) | executions) | statuses) | schedules) | reasons := empty
  · exact not_among_nil ids _ met.jobIds
  · exact not_among_nil types _ met.jobTypeIds
  · obtain ⟨row, _, _, _, among⟩ := met.executions (.inr (by simp [executors]))
    exact not_amongNullable_nil executors _ among
  · obtain ⟨row, _, _, among, _⟩ := met.executions (.inl (by simp [executions]))
    exact not_among_nil executions _ among
  · obtain ⟨status, member, _⟩ := met.executionStatuses (.inl (by simp [statuses]))
    simp [statuses] at member
  · exact not_amongNullable_nil schedules _ met.scheduleIds
  · exact met.pendingReasons reasons

theorem not_scheduleConditions_of_empty {filters : ScheduleFilters} {row : ScheduleRow}
    (empty : hasEmptyScheduleList filters = true) : ¬ScheduleConditions store filters row := by
  intro met
  simp only [hasEmptyScheduleList, Bool.or_eq_true, beq_iff_eq] at empty
  obtain (ids | types) | statuses := empty
  · exact not_among_nil ids _ met.scheduleIds
  · exact not_among_nil types _ met.jobTypeIds
  · exact not_among_nil statuses _ met.statuses

theorem jobConditions_withoutEmpty {filters : JobFilters} {job : JobRow}
    (full : hasEmptyList filters = false) :
    JobConditions store now (withoutEmptyLists filters) job ↔
      JobConditions store now filters job := by
  simp only [hasEmptyList, Bool.or_eq_false_iff, beq_eq_false_iff_ne, and_assoc] at full
  obtain ⟨ids, types, executors, executions, statuses, schedules, reasons⟩ := full
  have same : withoutEmptyLists filters = { filters with labels := given filters.labels } := by
    simp only [withoutEmptyLists, Proto.given_of_ne ids, Proto.given_of_ne types,
      Proto.given_of_ne executors, Proto.given_of_ne executions, Proto.given_of_ne statuses,
      Proto.given_of_ne schedules, Proto.given_of_ne reasons]
  rw [same]
  constructor
  · exact fun met => { met with labels := given_getD filters.labels ▸ met.labels }
  · exact fun met => { met with labels := (given_getD filters.labels).symm ▸ met.labels }

theorem scheduleConditions_withoutEmpty {filters : ScheduleFilters} {row : ScheduleRow}
    (full : hasEmptyScheduleList filters = false) :
    ScheduleConditions store (withoutEmptyScheduleLists filters) row ↔
      ScheduleConditions store filters row := by
  simp only [hasEmptyScheduleList, Bool.or_eq_false_iff, beq_eq_false_iff_ne, and_assoc] at full
  obtain ⟨ids, types, statuses⟩ := full
  have same : withoutEmptyScheduleLists filters =
      { filters with labels := given filters.labels } := by
    simp only [withoutEmptyScheduleLists, Proto.given_of_ne ids, Proto.given_of_ne types,
      Proto.given_of_ne statuses]
  rw [same]
  constructor
  · exact fun met => { met with labels := given_getD filters.labels ▸ met.labels }
  · exact fun met => { met with labels := (given_getD filters.labels).symm ▸ met.labels }

end Received

section Cancelling

variable {store : Store} {now : Time} {filters : JobFilters}

/-- With fewer active executions no other job has a status. -/
theorem statusFilter_fewer {after : Store} {statuses : Option (List ExecutionStatus)}
    {reasons : Option (List ExecutionPendingReason)} {job : JobRow}
    (fewer : ∀ row ∈ after.executions.rows, row.active = true → row ∈ store.executions.rows)
    (selected : statusFilter after now statuses reasons job = true) :
    statusFilter store now statuses reasons job = true := by
  unfold statusFilter at selected ⊢
  revert selected
  generalize statuses.getD [.pending] = statuses
  dsimp only
  generalize (statuses.contains .pending &&
    reasons.all fun reasons => reasons.contains .scheduled) = scheduled
  generalize (statuses.contains .pending &&
    reasons.all fun reasons => reasons.contains .ready) = ready
  generalize statuses.contains .inProgress = inProgress
  have remaining : (after.executions.rows.any fun row => row.jobId == job.id &&
        ((pendingCondition now scheduled ready).toList ++
          (inProgressCondition inProgress).toList).any fun condition => condition row) = true →
      (store.executions.rows.any fun row => row.jobId == job.id &&
        ((pendingCondition now scheduled ready).toList ++
          (inProgressCondition inProgress).toList).any fun condition => condition row) = true := by
    rw [List.any_eq_true, List.any_eq_true]
    rintro ⟨row, member, found⟩
    refine ⟨row, fewer row member ((ExecutionRow.active_iff_status row).mpr ?_), found⟩
    rw [Bool.and_eq_true, List.any_append, Bool.or_eq_true, pendingCondition_iff,
      inProgressCondition_iff] at found
    exact found.2.imp And.left And.left
  intro selected
  grind

theorem executionsMatch_cancelRound (job : JobRow) :
    executionsMatch (cancelRound store now filters).1 filters job =
      executionsMatch store filters job := by
  have executor : ∀ ids row, (cancelRow ids now row).executorId = row.executorId := by
    intro ids row
    unfold cancelRow
    split <;> rfl
  simp only [executionsMatch, cancelRound, Store.modifyExecutions, Table.modify_rows, List.any_map,
    Function.comp_def, executionMatches, cancelRow_keeps, executor]

/-- The second round selects no further jobs. -/
theorem cancelRound_selected {id : JobId}
    (selected : id ∈ selectJobIds (cancelRound store now filters).1 now filters) :
    id ∈ selectJobIds store now filters := by
  rw [(selectJobIds_spec _ _ _).2] at selected ⊢
  obtain ⟨job, queried, rfl⟩ := selected
  obtain ⟨member, found⟩ := List.mem_filter.mp queried
  refine ⟨job, List.mem_filter.mpr ⟨member, ?_⟩, rfl⟩
  have fewer : ∀ row ∈ (cancelRound store now filters).1.executions.rows, row.active = true →
      row ∈ store.executions.rows := by
    intro row present active
    obtain ⟨before, old, rfl⟩ := List.mem_map.mp present
    rwa [(cancelRow_finish _ now before).eq_of_active rfl active]
  have labels : (cancelRound store now filters).1.jobLabels = store.jobLabels := rfl
  rw [executionsMatch_cancelRound] at found
  simp only [jobMatches, Bool.and_eq_true, labels] at found ⊢
  refine ⟨found.1, ⟨⟨⟨⟨found.2.1.1.1.1.1, ?_⟩, found.2.1.1.1.2⟩, found.2.1.1.2⟩, found.2.1.2⟩, found.2.2⟩
  have statuses := found.2.1.1.1.1.2
  split at statuses
  · rename_i given
    rw [if_pos given]
    exact statusFilter_fewer fewer statuses
  · rename_i absent
    rw [if_neg absent]

theorem cancelTwice_of_not_mem {first second : List JobId} {row : ExecutionRow}
    (notFirst : row.jobId ∉ first) (notSecond : row.jobId ∉ second) :
    cancelTwice first second now row = row := by
  have excluded : ∀ {ids : List JobId}, row.jobId ∉ ids → ¬cancelSelected ids row = true := by
    intro ids absent selected
    rw [cancelSelected, Bool.and_eq_true, List.contains_iff_mem] at selected
    exact absent selected.1
  rw [cancelTwice, cancelRow_of_not_selected _ now (excluded notFirst),
    cancelRow_of_not_selected _ now (excluded notSecond)]

/-- A job keeps its row when its executions do. -/
theorem jobUntouched_of_unchanged {after : Store} {status : ExecutionStatus}
    {change : ExecutionRow → ExecutionRow} {mark : JobRow → JobRow}
    {free : ScheduleRow → ScheduleRow} (effect : Finishes status change mark free store after)
    {job : JobRow} (member : job ∈ store.jobs.rows)
    (unchanged : ∀ row, row.jobId = job.id → change row = row) : JobUntouched store after job := by
  refine ⟨?_, fun row same => ?_⟩
  · have unsettled : settled store change job.id = false := by
      rw [Bool.eq_false_iff]
      intro done
      obtain ⟨row, _, same, active, inactive⟩ := (settled_iff store change job.id).mp done
      rw [unchanged row same, active] at inactive
      cases inactive
    rw [effect.jobs, ← effect.unmarked job unsettled]
    exact List.mem_map_of_mem member
  · rw [effect.executions, List.mem_map]
    constructor
    · rintro ⟨before, present, rfl⟩
      rwa [unchanged before ((effect.execution before).job_eq.symm.trans same)]
    · exact fun present => ⟨row, present, unchanged row same⟩

/-- Only jobs selected by the narrowed filters are cancelled. -/
theorem cancelJobs_untouched (systemNow : Time) (pick : Pick) {job : JobRow}
    (member : job ∈ store.jobs.rows)
    (unselected : ∀ statuses, cancelStatuses filters = some statuses →
      job.id ∉ selectJobIds store now { filters with executionStatuses := some statuses }) :
    JobUntouched store (PostgresBackend.cancelJobs store now systemNow pick filters).1 job := by
  cases cancelled : cancelStatuses filters with
  | none =>
      rw [cancelJobs_nothing store now systemNow pick cancelled]
      exact ⟨member, fun _ _ => Iff.rfl⟩
  | some statuses =>
      have first := unselected statuses cancelled
      have second := fun selected => first (cancelRound_selected selected)
      obtain ⟨mark, free, effect⟩ := cancelJobs_cancels store now systemNow pick filters cancelled
      exact jobUntouched_of_unchanged effect member fun row same =>
        cancelTwice_of_not_mem (same ▸ first) (same ▸ second)

/-- The narrowed filters select no more than the filters they are made from. -/
theorem jobConditions_narrowed {statuses : List ExecutionStatus} {job : JobRow}
    (cancelled : cancelStatuses filters = some statuses)
    (met : JobConditions store now { filters with executionStatuses := some statuses } job) :
    JobConditions store now filters job := by
  refine { met with executionStatuses := fun asked => ?_ }
  obtain ⟨status, member, holds⟩ := met.executionStatuses (.inl rfl)
  refine ⟨status, ?_, holds⟩
  unfold cancelStatuses at cancelled
  cases given : filters.executionStatuses with
  | some chosen =>
      rw [given] at cancelled
      dsimp only at cancelled
      split at cancelled
      · cases cancelled
      · cases cancelled
        exact (List.mem_filter.mp member).1
  | none =>
      rw [given] at cancelled asked
      have reasons : filters.pendingReasons.isSome = true := by simpa using asked
      rw [reasons] at cancelled
      cases cancelled
      exact member

end Cancelling

section Kept

variable {store : Store} {now : Time}

/-- Where the filter selects the denoted jobs, cancelling leaves the others alone. -/
theorem cancelJobs_denoted (stored : StatusesStored store) {received : JobFilters}
    (reasons : received.pendingReasons ≠ some []) (systemNow : Time) (pick : Pick) {job : JobRow}
    (member : job ∈ store.jobs.rows) (unselected : job.id ∉ selectJobIds store now received) :
    JobUntouched store (PostgresBackend.cancelJobs store now systemNow pick received).1 job := by
  refine cancelJobs_untouched systemNow pick member fun statuses cancelled selected => unselected ?_
  obtain ⟨met, times⟩ := (mem_selectJobIds stored (by exact reasons) member).mp selected
  exact (mem_selectJobIds stored reasons member).mpr
    ⟨jobConditions_narrowed cancelled met, ⟨times.targetExecutionTime, times.createdAt⟩⟩

theorem given_ne_nil {α : Type} (list : Option (List α)) : given list ≠ some [] := by
  cases list with
  | none => simp [given]
  | some values => cases values <;> simp [given, Option.filter]

/-- A job is selected as it was denoted unless the conversion of the times or the
lists that are taken for absent ones tell the two apart. -/
theorem selected_iff_jobDenoted (stored : StatusesStored store) (filters : JobFilters)
    {job : JobRow} (member : job ∈ store.jobs.rows) :
    (job.id ∈ selectJobIds store now (receivedJobFilters filters) ↔
        JobDenoted store now filters job) ↔
      (JobConditions store now (withoutEmptyLists filters) job →
        if hasEmptyList filters then ¬JobTimes systemtimeToTs filters job
        else (JobTimes systemtimeToTs filters job ↔ JobTimes id filters job)) := by
  have reasons : (receivedJobFilters filters).pendingReasons ≠ some [] := given_ne_nil _
  have selected : job.id ∈ selectJobIds store now (receivedJobFilters filters) ↔
      JobConditions store now (withoutEmptyLists filters) job ∧
        JobTimes systemtimeToTs filters job := by
    rw [mem_selectJobIds stored reasons member, jobConditions_received]
    exact and_congr_right fun _ => ⟨fun times => ⟨times.1, times.2⟩, fun times => ⟨times.1, times.2⟩⟩
  rw [selected, JobDenoted]
  cases empty : hasEmptyList filters with
  | true =>
      have nothing : ¬JobConditions store now filters job := not_jobConditions_of_empty empty
      rw [if_pos rfl]
      tauto
  | false =>
      rw [if_neg (by simp), jobConditions_withoutEmpty empty, and_congr_right_iff]

theorem jobFiltersKept_iff (conversions : Conversions) (stored : StatusesStored store)
    (systemNow : Time) (pick : Pick) (filters : JobFilters) :
    JobFiltersKept conversions store now systemNow pick filters ↔
      JobFiltersHold store now filters := by
  unfold JobFiltersKept JobFiltersHold
  by_cases rejected : invalidJobType filters.jobTypeIds = true ∨ reasonsWithoutPending filters = true
  · obtain ⟨error, failed⟩ := Proto.jobFilters_error conversions rejected
    rw [failed]
    exact iff_of_true trivial (by tauto)
  · obtain ⟨valid, allowed⟩ := not_or.mp rejected
    rw [Proto.jobFilters_ok conversions (by simpa using valid) (by simpa using allowed)]
    have reasons : (receivedJobFilters filters).pendingReasons ≠ some [] := given_ne_nil _
    constructor
    · exact fun kept => .inr (.inr fun job member =>
        (selected_iff_jobDenoted stored filters member).mp (kept.1 job member))
    · intro holds
      have kept := fun job member => (selected_iff_jobDenoted stored filters member).mpr
        (((holds.resolve_left valid).resolve_left allowed) job member)
      exact ⟨kept, fun job member outside =>
        cancelJobs_denoted stored reasons systemNow pick member (mt (kept job member).mp outside)⟩

/-- The conditions of a filter whose statuses are replaced by the active one. -/
theorem scheduleConditions_active {filters : ScheduleFilters} {row : ScheduleRow} :
    ScheduleConditions store { filters with statuses := some [.active] } row ↔
      row.stoppedAt = none ∧ ScheduleConditions store { filters with statuses := none } row := by
  constructor
  · intro met
    refine ⟨?_, { met with statuses := by simp [Among] }⟩
    have active := met.statuses _ rfl
    cases stopped : row.stoppedAt with
    | none => rfl
    | some time => simp [stopped] at active
  · rintro ⟨active, met⟩
    exact { met with statuses := by simp [Among, active] }

theorem scheduleConditions_statuses {filters : ScheduleFilters} {row : ScheduleRow} :
    ScheduleConditions store filters row ↔
      Among filters.statuses (if row.stoppedAt.isSome then .stopped else .active) ∧
        ScheduleConditions store { filters with statuses := none } row := by
  constructor
  · exact fun met => ⟨met.statuses, { met with statuses := by simp [Among] }⟩
  · exact fun met => { met.2 with statuses := met.1 }

/-- Schedules are left alone unless their stop is requested, which changes them. -/
theorem stopSchedules_kept {filters : ScheduleFilters} {row : ScheduleRow}
    (member : row ∈ store.schedules.rows) :
    row ∈ (stopSchedules store now filters).1.schedules.rows ↔
      row.id ∉ selectScheduleIds store { filters with statuses := some [.active] } := by
  have rows : (stopSchedules store now filters).1.schedules.rows = store.schedules.rows.map
      (stopRow (selectScheduleIds store { filters with statuses := some [.active] }) now) := rfl
  rw [rows]
  constructor
  · intro kept selected
    obtain ⟨before, present, same⟩ := List.mem_map.mp kept
    have key : before.id = row.id := by rw [← same, stopRow_id]
    obtain rfl := store.schedules.eq_of_key present member key
    have active := (scheduleConditions_active.mp ((mem_selectScheduleIds member).mp selected).1).1
    rw [← same, stopRow, if_pos (List.contains_iff_mem.mpr selected)] at active
    cases active
  · intro unselected
    refine List.mem_map.mpr ⟨row, member, ?_⟩
    rw [stopRow, if_neg (by simpa using unselected)]

theorem selected_iff_scheduleDenoted (filters : ScheduleFilters) {row : ScheduleRow}
    (member : row ∈ store.schedules.rows) :
    (row.id ∈ selectScheduleIds store (receivedScheduleFilters filters) ↔
        ScheduleDenoted store filters row) ↔
      (ScheduleConditions store (withoutEmptyScheduleLists filters) row →
        if hasEmptyScheduleList filters then
          ¬InRange systemtimeToTs filters.createdAt row.createdAt
        else
          (InRange systemtimeToTs filters.createdAt row.createdAt ↔
            InRange id filters.createdAt row.createdAt)) := by
  rw [mem_selectScheduleIds member, scheduleConditions_received, ScheduleDenoted]
  cases empty : hasEmptyScheduleList filters with
  | true =>
      have nothing : ¬ScheduleConditions store filters row := not_scheduleConditions_of_empty empty
      rw [if_pos rfl]
      exact ⟨fun same met times => nothing (same.mp ⟨met, times⟩).1,
        fun outside => ⟨fun both => absurd both.2 (outside both.1),
          fun denoted => absurd denoted.1 nothing⟩⟩
  | false =>
      rw [if_neg (by simp), scheduleConditions_withoutEmpty empty]
      exact and_congr_right_iff

/-- A schedule that is not denoted is left alone unless only its status excludes it. -/
theorem undenoted_stays_iff (filters : ScheduleFilters) {row : ScheduleRow}
    (member : row ∈ store.schedules.rows)
    (same : row.id ∈ selectScheduleIds store (receivedScheduleFilters filters) ↔
      ScheduleDenoted store filters row) :
    (¬ScheduleDenoted store filters row →
        row ∈ (stopSchedules store now (receivedScheduleFilters filters)).1.schedules.rows) ↔
      (row.stoppedAt = none →
        ScheduleConditions store { withoutEmptyScheduleLists filters with statuses := none } row →
        InRange systemtimeToTs filters.createdAt row.createdAt →
        Among (given filters.statuses) .active) := by
  have others : ScheduleConditions store
        { receivedScheduleFilters filters with statuses := none } row ↔
      ScheduleConditions store { withoutEmptyScheduleLists filters with statuses := none } row :=
    @scheduleConditions_received store { filters with statuses := none } row
  rw [stopSchedules_kept member, mem_selectScheduleIds member, scheduleConditions_active,
    others, ← same, mem_selectScheduleIds member, scheduleConditions_received,
    scheduleConditions_statuses]
  have active : row.stoppedAt = none → (if row.stoppedAt.isSome then ScheduleStatus.stopped
      else ScheduleStatus.active) = .active := fun active => by simp [active]
  constructor
  · intro kept running met times
    by_contra excluded
    refine kept (fun both => excluded ?_) ⟨⟨running, met⟩, times⟩
    have among := both.1.1
    rwa [active running] at among
  · rintro allowed outside ⟨⟨running, met⟩, times⟩
    refine outside ⟨⟨?_, met⟩, times⟩
    rw [active running]
    exact allowed running met times

theorem scheduleFiltersKept_iff (conversions : Conversions) (filters : ScheduleFilters) :
    ScheduleFiltersKept conversions store now filters ↔ ScheduleFiltersHold store filters := by
  unfold ScheduleFiltersKept ScheduleFiltersHold
  cases valid : invalidJobType filters.jobTypeIds with
  | true =>
      obtain ⟨error, failed⟩ := Proto.scheduleFilters_error conversions valid
      rw [failed]
      exact iff_of_true trivial (.inl rfl)
  | false =>
      rw [Proto.scheduleFilters_ok conversions valid]
      dsimp only
      constructor
      · exact fun kept => .inr
          ⟨fun row member => (selected_iff_scheduleDenoted filters member).mp (kept.1 row member),
            fun row member =>
              (undenoted_stays_iff filters member (kept.1 row member)).mp (kept.2 row member)⟩
      · intro holds
        obtain ⟨sameTimes, allowed⟩ := holds.resolve_left (by simp)
        have kept := fun row member =>
          (selected_iff_scheduleDenoted filters member).mpr (sameTimes row member)
        exact ⟨kept, fun row member =>
          (undenoted_stays_iff filters member (kept row member)).mpr (allowed row member)⟩

/-- A client filter keeps its meaning in every reachable store in which no row
tells what was sent from what is received. -/
theorem filters_keep_meaning (conversions : Conversions) (jobFilters : JobFilters)
    (scheduleFilters : ScheduleFilters) (now systemNow : Time) (pick : Pick)
    (run : Reaches Operation.apply (fun store operation => operation.carriesJobs store)
      Store.empty store) :
    (JobFiltersKept conversions store now systemNow pick jobFilters ↔
        JobFiltersHold store now jobFilters) ∧
      (ScheduleFiltersKept conversions store now scheduleFilters ↔
        ScheduleFiltersHold store scheduleFilters) :=
  ⟨jobFiltersKept_iff conversions (statusesStored_of_reaches run) systemNow pick jobFilters,
    scheduleFiltersKept_iff conversions scheduleFilters⟩

end Kept

/-- Jobs of a type are selected by their type. -/
theorem filters_keep_meaning_retriedOnce :
    ∃ store, Reaches Operation.apply (fun store operation => operation.carriesJobs store)
        Store.empty store ∧
      JobFiltersKept .standard store 2 2 (fun _ => 0) { jobTypeIds := some ["type"] } := by
  obtain ⟨store, run, _⟩ := exists_reaches_of_execute Operation.apply
    (fun store operation => operation.carriesJobs store) Store.empty retriedOnce
    (fun store => store.executions.rows.length == 2) (by decide)
  refine ⟨store, run, (filters_keep_meaning .standard { jobTypeIds := some ["type"] } {} 2 2
    (fun _ => 0) run).1.mpr (.inr (.inr fun job _ _ => ?_))⟩
  exact ⟨fun _ => ⟨nofun, nofun⟩, fun _ => ⟨nofun, nofun⟩⟩

/-- An empty list of job identifiers selects every job. -/
theorem not_filters_keep_meaning :
    ¬∀ conversions store, Reaches Operation.apply
        (fun store operation => operation.carriesJobs store) Store.empty store →
      ∀ now systemNow pick filters, JobFiltersKept conversions store now systemNow pick filters := by
  intro claim
  obtain ⟨store, run, one⟩ := exists_reaches_of_execute Operation.apply
    (fun store operation => operation.carriesJobs store) Store.empty retriedOnce
    (fun store => store.jobs.rows.length == 1) (by decide)
  obtain ⟨job, single⟩ := List.length_eq_one_iff.mp (beq_iff_eq.mp one)
  have kept := (jobFiltersKept_iff .standard (statusesStored_of_reaches run) 2 (fun _ => 0) _).mp
    (claim .standard store run 2 2 (fun _ => 0) { jobIds := some [] })
  have untold : JobConditions store 2 (withoutEmptyLists { jobIds := some [] }) job :=
    ⟨nofun, nofun, nofun, nofun, nofun, nofun, nofun, nofun, nofun⟩
  obtain rejected | rejected | holds := kept
  · cases rejected
  · cases rejected
  · exact holds job (by simp [single]) untold ⟨nofun, nofun⟩

end Ora.Postgres
