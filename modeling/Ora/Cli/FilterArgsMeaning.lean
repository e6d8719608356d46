import Ora.Cli.JobFilterArgs
import Ora.Postgres.FiltersKept

/-!
# What job filters on the command line select

The filters that are built ask for all options as they are given, apart from the
bounds of the target execution time, which are exchanged.  They select the jobs
that satisfy the options in every store exactly when nothing depends on these
bounds, or on bounds that are compared as other times (`ArgsHold`).
-/

namespace Ora.Cli

open Ora.Backend
open Ora.Library
open Ora.Postgres
open Ora.Proto (Conversions)

/-- The range with the bounds in each other's place. -/
def exchanged (range : Option TimeRange) : Option TimeRange :=
  range.map fun range => ⟨range.stop, range.start⟩

theorem among_iff_some {α : Type} {allowed : Option (List α)} {value : α} :
    Among allowed value ↔ AmongNullable allowed (some value) := by
  simp [Among, AmongNullable]

/-- The fields of the filters, as they are parsed. -/
structure Built (conversions : Conversions) (parseTsOrDate : String → Except String Time)
    (args : JobFilterArgs) (filters : JobFilters) : Prop where
  targetExecutionTime : ∃ start stop, filters.targetExecutionTime = some ⟨start, stop⟩ ∧
    parseTime parseTsOrDate args.targetExecutionTimeBefore = .ok start ∧
    parseTime parseTsOrDate args.targetExecutionTimeAfter = .ok stop
  createdAt : ∃ start stop, filters.createdAt = some ⟨start, stop⟩ ∧
    parseTime parseTsOrDate args.createdAfter = .ok start ∧
    parseTime parseTsOrDate args.createdBefore = .ok stop
  jobIds : parseAll (parseId conversions "invalid job ID") args.jobIds = .ok filters.jobIds
  jobTypeIds : parseAll Proto.Server.jobTypeId args.jobTypeIds = .ok filters.jobTypeIds
  executorIds : parseAll (parseId conversions "invalid job ID") args.executorIds =
    .ok filters.executorIds
  executionIds : parseAll (parseId conversions "invalid execution ID") args.executionIds =
    .ok filters.executionIds
  scheduleIds : parseAll (parseId conversions "invalid schedule ID") args.scheduleIds =
    .ok filters.scheduleIds
  executionStatuses : filters.executionStatuses =
    ifGiven (args.executionStatuses.map JobStatus.into)
  labels : filters.labels = (ifGiven args.labels).map parseLabelFilters
  minPriority : filters.minPriority = args.minPriority
  maxPriority : filters.maxPriority = args.maxPriority
  pendingReasons : filters.pendingReasons = ifGiven (args.pendingReasons.map PendingReason.into)

section Built

variable {conversions : Conversions} {parseTsOrDate : String → Except String Time}
  {args : JobFilterArgs} {filters : JobFilters}

theorem jobFilters_built (done : jobFilters conversions parseTsOrDate args = .ok filters) :
    Built conversions parseTsOrDate args filters := by
  obtain ⟨targetBefore, before, done⟩ := bind_eq_ok.mp done
  obtain ⟨targetAfter, after, done⟩ := bind_eq_ok.mp done
  obtain ⟨createdAfter, start, done⟩ := bind_eq_ok.mp done
  obtain ⟨createdBefore, stop, done⟩ := bind_eq_ok.mp done
  obtain ⟨jobIds, jobs, done⟩ := bind_eq_ok.mp done
  obtain ⟨jobTypeIds, types, done⟩ := bind_eq_ok.mp done
  obtain ⟨executorIds, executors, done⟩ := bind_eq_ok.mp done
  obtain ⟨executionIds, executions, done⟩ := bind_eq_ok.mp done
  obtain ⟨scheduleIds, schedules, done⟩ := bind_eq_ok.mp done
  cases done
  exact ⟨⟨_, _, rfl, after, before⟩, ⟨_, _, rfl, start, stop⟩, jobs, types, executors, executions,
    schedules, rfl, rfl, rfl, rfl, rfl⟩

namespace Built

variable (built : Built conversions parseTsOrDate args filters)

include built

theorem hasEmptyList_eq : hasEmptyList filters = false := by
  simp [hasEmptyList, (parseAll_ok built.jobIds).2.1, (parseAll_ok built.jobTypeIds).2.1,
    (parseAll_ok built.executorIds).2.1, (parseAll_ok built.executionIds).2.1,
    (parseAll_ok built.scheduleIds).2.1, built.executionStatuses, built.pendingReasons,
    ifGiven_ne_nil]

theorem jobTypeId_mem (id : JobTypeId) : Among filters.jobTypeIds id ↔
    (args.jobTypeIds ≠ [] → id ∈ args.jobTypeIds) := by
  obtain ⟨given, _, member⟩ := parseAll_ok built.jobTypeIds
  have same : ∀ text result, Proto.Server.jobTypeId text = .ok result → result = text := by
    intro text result read
    unfold Proto.Server.jobTypeId at read
    split at read
    · exact (Except.ok.inj read).symm
    · cases read
  cases parsed : filters.jobTypeIds with
  | none =>
      have empty : args.jobTypeIds = [] := by simpa [parsed] using given
      simp [Among, empty]
  | some list =>
      rw [parsed] at given member
      have listed : id ∈ list ↔ id ∈ args.jobTypeIds := by
        rw [member list rfl]
        constructor
        · rintro ⟨text, present, read⟩
          rwa [same text id read]
        · intro present
          have all := built.jobTypeIds
          rw [parseAll, if_neg (by simpa using given.mp rfl)] at all
          cases read : Proto.Server.jobTypeId id with
          | ok result => exact ⟨id, present, by rw [read, same id result read]⟩
          | error error =>
              obtain ⟨first, failed⟩ := mapM_eq_error_of_mem present read
              rw [failed] at all
              cases all
      simp only [Among, Option.mem_some, forall_eq', given.mp rfl, ne_eq, not_false_eq_true,
        true_imp_iff, listed]

/-- The job type IDs were valid when they were parsed. -/
theorem invalidJobType_eq : Proto.invalidJobType filters.jobTypeIds = false := by
  obtain ⟨_, _, member⟩ := parseAll_ok built.jobTypeIds
  rw [Proto.invalidJobType, List.any_eq_false]
  intro id listed
  cases parsed : filters.jobTypeIds with
  | none => simp [parsed] at listed
  | some list =>
      rw [parsed] at listed member
      obtain ⟨text, _, read⟩ := (member list rfl id).mp listed
      unfold Proto.Server.jobTypeId at read
      split at read
      · rename_i valid
        cases read
        simpa using valid
      · cases read

variable {store : Store} {now : Time} {job : JobRow}

theorem executions_iff :
    (filters.executionIds.isSome = true ∨ filters.executorIds.isSome = true →
      ∃ row ∈ store.executions.rows, row.jobId = job.id ∧ Among filters.executionIds row.id ∧
        AmongNullable filters.executorIds row.executorId) ↔
    (args.executionIds ≠ [] ∨ args.executorIds ≠ [] →
      ∃ row ∈ store.executions.rows, row.jobId = job.id ∧
        AmongIds conversions args.executionIds row.id ∧
          AmongIds conversions args.executorIds row.executorId) := by
  rw [(parseAll_ok built.executionIds).1, (parseAll_ok built.executorIds).1]
  simp only [← parseIds_ok built.executionIds, ← parseIds_ok built.executorIds, among_iff_some]

theorem executionStatuses_iff :
    (filters.executionStatuses.isSome = true ∨ filters.pendingReasons.isSome = true →
      ∃ status ∈ filters.executionStatuses.getD [.pending],
        HasStatus store now filters.pendingReasons job status) ↔
    (args.executionStatuses ≠ [] ∨ args.pendingReasons ≠ [] →
      ∃ status ∈ if args.executionStatuses = [] then [.pending] else args.executionStatuses,
        HasStatus store now (ifGiven (args.pendingReasons.map PendingReason.into)) job
          status.into) := by
  rw [built.executionStatuses, built.pendingReasons, ifGiven_isSome_iff, ifGiven_isSome_iff,
    ne_eq, ne_eq, List.map_eq_nil_iff, List.map_eq_nil_iff]
  refine imp_congr_right fun _ => ?_
  cases args.executionStatuses with
  | nil => simp [ifGiven, JobStatus.into]
  | cons first rest => simp [ifGiven]

theorem labels_iff :
    (∀ filter ∈ filters.labels.getD [], ∃ label ∈ store.jobLabels.rows,
      label.jobId = job.id ∧ LabelDenoted filter label.labelKey label.labelValue) ↔
    LabelsAsked args.labels fun key value => ∃ label ∈ store.jobLabels.rows,
      label.jobId = job.id ∧ label.labelKey = key ∧ label.labelValue = value := by
  have listed : filters.labels.getD [] = parseLabelFilters args.labels := by
    rw [built.labels]
    cases args.labels <;> rfl
  rw [listed, ← parseLabelFilters_asked]
  refine forall_congr' fun filter => imp_congr_right fun _ => ?_
  constructor
  · rintro ⟨label, present, own, denoted⟩
    exact ⟨_, _, ⟨label, present, own, rfl, rfl⟩, denoted⟩
  · rintro ⟨_, _, ⟨label, present, own, rfl, rfl⟩, denoted⟩
    exact ⟨label, present, own, denoted⟩

theorem targetExecutionTime_iff (time : Time) :
    InRange id (exchanged filters.targetExecutionTime) time ↔
      Between parseTsOrDate args.targetExecutionTimeAfter args.targetExecutionTimeBefore time := by
  obtain ⟨start, stop, range, before, after⟩ := built.targetExecutionTime
  simp only [range, exchanged, Option.map_some, InRange, Option.mem_some, forall_eq', id_eq,
    Between, parseTime_ok after (· ≤ time), parseTime_ok before (time < ·)]

theorem createdAt_iff (time : Time) :
    InRange id filters.createdAt time ↔
      Between parseTsOrDate args.createdAfter args.createdBefore time := by
  obtain ⟨start, stop, range, after, before⟩ := built.createdAt
  simp only [range, InRange, Option.mem_some, forall_eq', id_eq, Between,
    parseTime_ok after (· ≤ time), parseTime_ok before (time < ·)]

/-- The filters ask for all options, with the bounds of the target execution
time exchanged. -/
theorem satisfies_iff : Satisfies conversions parseTsOrDate store now args job ↔
    JobConditions store now filters job ∧
      InRange id (exchanged filters.targetExecutionTime) job.targetExecutionTime ∧
      InRange id filters.createdAt job.createdAt := by
  have ids : Among filters.jobIds job.id ↔ AmongIds conversions args.jobIds job.id := by
    rw [among_iff_some, parseIds_ok built.jobIds]
  have schedules := parseIds_ok built.scheduleIds job.scheduleId
  rw [built.targetExecutionTime_iff, built.createdAt_iff]
  constructor
  · intro met
    exact ⟨{
      jobIds := ids.mpr met.jobIds
      jobTypeIds := (built.jobTypeId_mem _).mpr met.jobTypeIds
      executions := built.executions_iff.mpr met.executions
      executionStatuses := built.executionStatuses_iff.mpr met.executionStatuses
      pendingReasons := by rw [built.pendingReasons]; exact ifGiven_ne_nil _
      labels := built.labels_iff.mpr met.labels
      scheduleIds := schedules.mpr met.scheduleIds
      minPriority := by rw [built.minPriority]; exact met.minPriority
      maxPriority := by rw [built.maxPriority]; exact met.maxPriority },
      met.targetExecutionTime, met.createdAt⟩
  · rintro ⟨met, target, created⟩
    exact {
      jobIds := ids.mp met.jobIds
      jobTypeIds := (built.jobTypeId_mem _).mp met.jobTypeIds
      executions := built.executions_iff.mp met.executions
      executionStatuses := built.executionStatuses_iff.mp met.executionStatuses
      labels := built.labels_iff.mp met.labels
      scheduleIds := schedules.mp met.scheduleIds
      minPriority := by rw [← built.minPriority]; exact met.minPriority
      maxPriority := by rw [← built.maxPriority]; exact met.maxPriority
      targetExecutionTime := target
      createdAt := created }

end Built

end Built

/-- A `TIMESTAMPTZ` is a number of microseconds. -/
def TimesWhole (store : Store) : Prop :=
  ∀ job ∈ store.jobs.rows, 1000 ∣ job.targetExecutionTime ∧ 1000 ∣ job.createdAt

/-- The server selects the jobs that satisfy the options, unless it refuses the filters. -/
def SelectsSatisfying (conversions : Conversions) (parseTsOrDate : String → Except String Time)
    (args : JobFilterArgs) (filters : JobFilters) : Prop :=
  match Proto.Server.jobFilters conversions (Proto.Client.jobFilters conversions filters) with
  | .error _ => True
  | .ok received => ∀ store, StatusesStored store → TimesWhole store →
      ∀ now, ∀ job ∈ store.jobs.rows,
        job.id ∈ selectJobIds store now received ↔
          Satisfies conversions parseTsOrDate store now args job

section Selected

variable {conversions : Conversions} {parseTsOrDate : String → Except String Time}
  {args : JobFilterArgs} {filters : JobFilters}

theorem selectsSatisfying_iff (built : Built conversions parseTsOrDate args filters) :
    SelectsSatisfying conversions parseTsOrDate args filters ↔
      Proto.reasonsWithoutPending filters = true ∨
        ∀ store, StatusesStored store → TimesWhole store → ∀ now, ∀ job ∈ store.jobs.rows,
          JobConditions store now filters job →
          (JobTimes systemtimeToTs filters job ↔
            InRange id (exchanged filters.targetExecutionTime) job.targetExecutionTime ∧
              InRange id filters.createdAt job.createdAt) := by
  unfold SelectsSatisfying
  cases refused : Proto.reasonsWithoutPending filters with
  | true =>
      obtain ⟨error, failed⟩ := Proto.jobFilters_error conversions (.inr refused)
      rw [failed]
      exact iff_of_true trivial (.inl rfl)
  | false =>
      rw [Proto.jobFilters_ok conversions built.invalidJobType_eq refused]
      have reasons : (Proto.receivedJobFilters filters).pendingReasons ≠ some [] := given_ne_nil _
      have selected : ∀ store, StatusesStored store → ∀ now, ∀ job ∈ store.jobs.rows,
          (job.id ∈ selectJobIds store now (Proto.receivedJobFilters filters) ↔
            Satisfies conversions parseTsOrDate store now args job) ↔
          (JobConditions store now filters job →
            (JobTimes systemtimeToTs filters job ↔
              InRange id (exchanged filters.targetExecutionTime) job.targetExecutionTime ∧
                InRange id filters.createdAt job.createdAt)) := by
        intro store stored now job member
        have times : JobTimes systemtimeToTs (Proto.receivedJobFilters filters) job ↔
            JobTimes systemtimeToTs filters job :=
          ⟨fun times => ⟨times.1, times.2⟩, fun times => ⟨times.1, times.2⟩⟩
        rw [mem_selectJobIds stored reasons member, jobConditions_received, times,
          jobConditions_withoutEmpty built.hasEmptyList_eq, built.satisfies_iff,
          and_congr_right_iff]
      constructor
      · exact fun all => .inr fun store stored whole now job member =>
          (selected store stored now job member).mp (all store stored whole now job member)
      · intro all store stored whole now job member
        exact (selected store stored now job member).mpr
          (all.resolve_left Bool.false_ne_true store stored whole now job member)

end Selected

end Ora.Cli
