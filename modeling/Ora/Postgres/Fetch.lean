import Ora.Postgres.Operations

/-!
# Fetching executions and schedules

`ready_executions`, `in_progress_executions` and `pending_schedules`.  All are
streams of batches, each batch is the result of one query after the last row of
the batch before.
-/

namespace Ora.Postgres

open Ora.Backend
open Ora.Library

namespace PostgresBackend

/-- `LIMIT 1000` -/
def batchLimit : Nat := 1000

/-- `SELECT COUNT(*) FROM ora.execution ex WHERE ex.job_id = ora.job.id` -/
def executionCount (store : Store) (id : JobId) : Nat :=
  (store.executions.rows.filter fun row => row.jobId == id).length

/-- `FROM ora.execution JOIN ora.job` -/
def executionsWithJobs (store : Store) : List (ExecutionRow × JobRow) :=
  store.executions.rows.filterMap fun row =>
    (store.jobs.find? row.jobId).map fun job => (row, job)

/-- The order of priorities, the highest first, and identifiers. -/
def readyAfter (last : Int × ExecutionId) (row : ExecutionRow) : Bool :=
  decide (row.priority < last.1) || (row.priority == last.1 && decide (last.2 < row.id))

def readyCondition (now : Time) (ignored : List ExecutionId)
    (last : Option (Int × ExecutionId)) (row : ExecutionRow) : Bool :=
  row.status == .pending && decide (row.targetExecutionTime ≤ now) && !ignored.contains row.id &&
    last.all fun last => readyAfter last row

def readyExecution (store : Store) (entry : ExecutionRow × JobRow) : ReadyExecution where
  executionId := entry.1.id
  jobId := entry.2.id
  jobTypeId := entry.2.jobTypeId
  inputPayloadJson := entry.2.inputPayloadJson
  attemptNumber := executionCount store entry.2.id
  retryPolicy := entry.2.retryPolicyJson
  targetExecutionTime := systemtimeFromTs entry.1.targetExecutionTime
  priority := entry.1.priority

/-- One batch of ready executions. -/
def readyExecutions (store : Store) (now : Time) (ignored : List ExecutionId)
    (last : Option (Int × ExecutionId)) : List ReadyExecution :=
  ((((executionsWithJobs store).filter fun entry =>
      readyCondition now ignored last entry.1).insertionSort fun first second =>
        second.1.priority < first.1.priority ∨
          first.1.priority = second.1.priority ∧ first.1.id ≤ second.1.id).take batchLimit).map
    (readyExecution store)

def inProgressExecution (store : Store) (executorId : ExecutorId) (entry : ExecutionRow × JobRow) :
    InProgressExecution where
  executionId := entry.1.id
  jobId := entry.2.id
  jobTypeId := entry.2.jobTypeId
  executorId := executorId
  targetExecutionTime := systemtimeFromTs entry.2.targetExecutionTime
  startedAt := systemtimeFromTs (entry.1.startedAt.getD 0)
  timeoutPolicy := entry.2.timeoutPolicyJson
  retryPolicy := entry.2.retryPolicyJson
  attemptNumber := executionCount store entry.2.id

/-- One batch of executions in progress, which have an executor and a start time. -/
def inProgressExecutions (store : Store) (last : Option ExecutionId) : List InProgressExecution :=
  ((((executionsWithJobs store).filter fun entry =>
      entry.1.status == .inProgress &&
        last.all fun last => decide (last < entry.1.id)).insertionSort fun first second =>
          first.1.id ≤ second.1.id).take batchLimit).filterMap fun entry =>
    entry.1.executorId.map fun executorId => inProgressExecution store executorId entry

section Fetched

variable {store : Store}

theorem mem_executionsWithJobs {entry : ExecutionRow × JobRow} :
    entry ∈ executionsWithJobs store ↔
      entry.1 ∈ store.executions.rows ∧ entry.2 ∈ store.jobs.rows ∧ entry.2.id = entry.1.jobId := by
  obtain ⟨row, job⟩ := entry
  simp only [executionsWithJobs, List.mem_filterMap, Option.map_eq_some_iff, Prod.mk.injEq,
    Table.find?_eq_some_iff]
  constructor
  · rintro ⟨other, member, found, ⟨present, same⟩, rfl, rfl⟩
    exact ⟨member, present, same⟩
  · rintro ⟨member, present, same⟩
    exact ⟨row, member, job, ⟨present, same⟩, rfl, rfl⟩

/-- Each execution has one job, it is fetched at most once. -/
theorem executionsWithJobs_nodup :
    ((executionsWithJobs store).map fun entry => entry.1.id).Nodup := by
  refine store.executions.unique.sublist ?_
  unfold executionsWithJobs
  induction store.executions.rows with
  | nil => exact .slnil
  | cons row rest ih =>
      rw [List.filterMap_cons]
      cases store.jobs.find? row.jobId with
      | none => exact ih.cons _
      | some job => exact ih.cons_cons _

/-- An execution that is pending, due and not ignored, with its job. -/
def Ready (store : Store) (now : Time) (ignored : List ExecutionId) (execution : ReadyExecution) :
    Prop :=
  ∃ row ∈ store.executions.rows, ∃ job ∈ store.jobs.rows, job.id = row.jobId ∧
    row.status = .pending ∧ row.targetExecutionTime ≤ now ∧ row.id ∉ ignored ∧
      execution = readyExecution store (row, job)

/-- All ready executions after the given one, a batch is the first of them. -/
def allReady (store : Store) (now : Time) (ignored : List ExecutionId)
    (last : Option (Int × ExecutionId)) : List ReadyExecution :=
  (((executionsWithJobs store).filter fun entry =>
      readyCondition now ignored last entry.1).insertionSort fun first second =>
        second.1.priority < first.1.priority ∨
          first.1.priority = second.1.priority ∧ first.1.id ≤ second.1.id).map
    (readyExecution store)

variable {now : Time} {ignored : List ExecutionId} {last : Option (Int × ExecutionId)}

theorem readyExecutions_eq_take :
    readyExecutions store now ignored last = (allReady store now ignored last).take batchLimit :=
  List.map_take

theorem mem_allReady {execution : ReadyExecution} :
    execution ∈ allReady store now ignored last ↔ Ready store now ignored execution ∧
      ∀ previous ∈ last, execution.priority < previous.1 ∨
        execution.priority = previous.1 ∧ previous.2 < execution.executionId := by
  simp only [allReady, List.mem_map, List.mem_insertionSort, List.mem_filter,
    mem_executionsWithJobs, readyCondition, readyAfter, Bool.and_eq_true, Bool.or_eq_true,
    Bool.not_eq_true', List.contains_eq_mem, decide_eq_false_iff_not, decide_eq_true_eq,
    beq_iff_eq, Option.all_eq_true]
  constructor
  · rintro ⟨entry, ⟨⟨member, present, same⟩, ⟨⟨pending, due⟩, free⟩, later⟩, rfl⟩
    exact ⟨⟨entry.1, member, entry.2, present, same, pending, due, free, rfl⟩, later⟩
  · rintro ⟨⟨row, member, job, present, same, pending, due, free, rfl⟩, later⟩
    exact ⟨(row, job), ⟨⟨member, present, same⟩, ⟨⟨pending, due⟩, free⟩, later⟩, rfl⟩

theorem mem_readyExecutions {execution : ReadyExecution}
    (fetched : execution ∈ readyExecutions store now ignored last) :
    ∃ row ∈ store.executions.rows, ∃ job ∈ store.jobs.rows, job.id = row.jobId ∧
      row.status = .pending ∧ execution = readyExecution store (row, job) := by
  rw [readyExecutions_eq_take] at fetched
  obtain ⟨row, member, job, present, same, pending, _, _, found⟩ :=
    (mem_allReady.mp (List.mem_of_mem_take fetched)).1
  exact ⟨row, member, job, present, same, pending, found⟩

theorem allReady_nodup :
    ((allReady store now ignored last).map ReadyExecution.executionId).Nodup := by
  rw [allReady, List.map_map]
  refine ((List.perm_insertionSort _ _).map _).nodup_iff.mpr ?_
  exact executionsWithJobs_nodup.sublist (List.filter_sublist.map _)

theorem readyExecutions_nodup :
    ((readyExecutions store now ignored last).map ReadyExecution.executionId).Nodup := by
  rw [readyExecutions_eq_take]
  exact allReady_nodup.sublist ((List.take_sublist _ _).map _)

/-- The executions that are fetched first: the highest priority, and then the
smallest identifier. -/
def Precedes (first second : ReadyExecution) : Prop :=
  second.priority < first.priority ∨
    first.priority = second.priority ∧ first.executionId < second.executionId

theorem Precedes.trans {first second third : ReadyExecution} (before : Precedes first second)
    (after : Precedes second third) : Precedes first third := by
  unfold Precedes at *
  grind

theorem allReady_precede : (allReady store now ignored last).Pairwise Precedes := by
  let before (first second : ExecutionRow × JobRow) : Prop :=
    second.1.priority < first.1.priority ∨
      first.1.priority = second.1.priority ∧ first.1.id ≤ second.1.id
  have total : Std.Total before := ⟨fun first second => by dsimp only [before]; grind⟩
  have transitive : IsTrans (ExecutionRow × JobRow) before :=
    ⟨fun first second third => by dsimp only [before]; grind⟩
  have sorted := List.pairwise_insertionSort before ((executionsWithJobs store).filter fun entry =>
    readyCondition now ignored last entry.1)
  have different := List.pairwise_map.mp (@allReady_nodup store now ignored last)
  refine ((List.pairwise_map.mpr (sorted.imp ?_)).and different).imp ?_
    (R := fun first second : ReadyExecution =>
      (second.priority < first.priority ∨
        first.priority = second.priority ∧ first.executionId ≤ second.executionId) ∧
      first.executionId ≠ second.executionId)
  · exact fun ordered => ordered
  · rintro first second ⟨ordered, other⟩
    unfold Precedes
    grind

theorem readyExecutions_precede :
    (readyExecutions store now ignored last).Pairwise Precedes := by
  rw [readyExecutions_eq_take]
  exact allReady_precede.sublist (List.take_sublist _ _)

/-- A batch starts after the last row of the batch before. -/
theorem readyExecutions_after {execution : ReadyExecution}
    (fetched : execution ∈ readyExecutions store now ignored last) {priority : Int}
    {id : ExecutionId} (previous : last = some (priority, id)) :
    execution.priority < priority ∨ execution.priority = priority ∧ id < execution.executionId := by
  rw [readyExecutions_eq_take] at fetched
  exact (mem_allReady.mp (List.mem_of_mem_take fetched)).2 (priority, id) previous

theorem mem_inProgressExecutions {last : Option ExecutionId} {execution : InProgressExecution}
    (fetched : execution ∈ inProgressExecutions store last) :
    ∃ row ∈ store.executions.rows, ∃ job ∈ store.jobs.rows, job.id = row.jobId ∧
      row.status = .inProgress ∧ row.executorId = some execution.executorId ∧
      execution = inProgressExecution store execution.executorId (row, job) := by
  obtain ⟨entry, taken, found⟩ := List.mem_filterMap.mp fetched
  obtain ⟨executor, assigned, rfl⟩ := Option.map_eq_some_iff.mp found
  have sorted := List.mem_of_mem_take taken
  rw [List.mem_insertionSort] at sorted
  obtain ⟨joined, condition⟩ := List.mem_filter.mp sorted
  obtain ⟨member, present, same⟩ := mem_executionsWithJobs.mp joined
  simp only [Bool.and_eq_true, beq_iff_eq] at condition
  exact ⟨entry.1, member, entry.2, present, same, condition.1, assigned, rfl⟩

end Fetched

/-- `ORDER BY ora.job.id DESC LIMIT 1` of the jobs of a schedule. -/
def lastJob (store : Store) (id : ScheduleId) : Option JobRow :=
  ((store.jobs.rows.filter fun job => job.scheduleId == some id).insertionSort
    fun first second => second.id ≤ first.id).head?

section Pending

-- how stored times are read
variable (fromTs : Time → Time)

def pendingSchedule (store : Store) (row : ScheduleRow) : PendingSchedule where
  scheduleId := row.id
  lastTargetExecutionTime := (lastJob store row.id).map fun job => fromTs job.targetExecutionTime
  scheduling := row.schedulingPolicyJson
  timeRange := ⟨row.startAfter.map fromTs, row.endBefore.map fromTs⟩
  jobTemplate := row.jobTemplateJson

def schedulePending (last : Option ScheduleId) (row : ScheduleRow) : Bool :=
  row.stoppedAt.isNone && row.activeJobId.isNone && last.all fun last => decide (last < row.id)

/-- One batch of rows. -/
def pendingRows (store : Store) (last : Option ScheduleId) : List ScheduleRow :=
  ((store.schedules.rows.filter (schedulePending last)).insertionSort
    fun first second => first.id ≤ second.id).take batchLimit

def pendingSchedules (store : Store) (last : Option ScheduleId) : List PendingSchedule :=
  (pendingRows store last).map (pendingSchedule fromTs store)

variable {fromTs} {store : Store} {last : Option ScheduleId}

theorem mem_pendingRows {row : ScheduleRow} (fetched : row ∈ pendingRows store last) :
    row ∈ store.schedules.rows := by
  have sorted := List.mem_of_mem_take fetched
  rw [List.mem_insertionSort] at sorted
  exact (List.mem_filter.mp sorted).1

theorem mem_pendingSchedules {schedule : PendingSchedule}
    (fetched : schedule ∈ pendingSchedules fromTs store last) :
    ∃ row ∈ pendingRows store last, schedule = pendingSchedule fromTs store row := by
  obtain ⟨row, taken, rfl⟩ := List.mem_map.mp fetched
  exact ⟨row, taken, rfl⟩

theorem pendingSchedules_nodup :
    ((pendingSchedules fromTs store last).map PendingSchedule.scheduleId).Nodup := by
  rw [pendingSchedules, pendingRows, List.map_map]
  refine List.Nodup.sublist ((List.take_sublist _ _).map _) ?_
  refine ((List.perm_insertionSort _ _).map _).nodup_iff.mpr ?_
  exact store.schedules.unique.sublist (List.filter_sublist.map _)

theorem lastJob_eq_some {id : ScheduleId} {job : JobRow} (found : lastJob store id = some job) :
    job ∈ store.jobs.rows ∧ job.scheduleId = some id ∧
      ∀ other ∈ store.jobs.rows, other.scheduleId = some id → other.id ≤ job.id := by
  have sorted := List.pairwise_insertionSort (fun first second : JobRow => second.id ≤ first.id)
    (store.jobs.rows.filter fun job => job.scheduleId == some id)
  unfold lastJob at found
  have member := List.mem_of_head? found
  rw [List.mem_insertionSort] at member
  obtain ⟨present, scheduled⟩ := List.mem_filter.mp member
  refine ⟨present, beq_iff_eq.mp scheduled, fun other known own => ?_⟩
  have listed : other ∈ (store.jobs.rows.filter fun job =>
      job.scheduleId == some id).insertionSort fun first second => second.id ≤ first.id := by
    simp [known, own]
  cases order : (store.jobs.rows.filter fun job => job.scheduleId == some id).insertionSort
      (fun first second => second.id ≤ first.id) with
  | nil => simp [order] at listed
  | cons first rest =>
      rw [order] at found listed sorted
      cases found
      rcases List.mem_cons.mp listed with rfl | later
      · exact Nat.le_refl _
      · exact (List.pairwise_cons.mp sorted).1 other later

theorem lastJob_eq_none {id : ScheduleId} (missing : lastJob store id = none) :
    ∀ job ∈ store.jobs.rows, job.scheduleId ≠ some id := by
  intro job member scheduled
  have listed : job ∈ (store.jobs.rows.filter fun job =>
      job.scheduleId == some id).insertionSort fun first second => second.id ≤ first.id := by
    simp [member, scheduled]
  rw [List.head?_eq_none_iff.mp missing] at listed
  cases listed

end Pending

end PostgresBackend

end Ora.Postgres
