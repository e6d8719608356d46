import Ora.Backend.Types
import Ora.Library.Table
import Ora.Postgres.Times

/-!
# The Postgres schema

The tables of `migrations/V1` to `V8`.  Primary keys are unique by the type of
the tables and foreign keys are fields of `Store`, so that a store with a
dangling reference cannot be built.  `ora.schedule.active_job_id` and
`ora.job.schedule_id` have no foreign key (`V1`, `V3`) and none is modelled.
Each primitive below is what one kind of SQL statement does to the tables.
-/

namespace Ora.Postgres

open Ora.Backend
open Ora.Library

structure JobTypeRow where
  id : JobTypeId
  description : Option String
  inputSchemaJson : Option String
  outputSchemaJson : Option String
  deriving DecidableEq, Repr

structure ScheduleRow where
  id : ScheduleId
  createdAt : Time
  jobTemplateJobTypeId : JobTypeId
  jobTemplateJson : JobDefinition
  schedulingPolicyJson : SchedulingPolicy
  startAfter : Option Time
  endBefore : Option Time
  stoppedAt : Option Time
  activeJobId : Option JobId
  deriving DecidableEq, Repr

structure ScheduleLabelRow where
  scheduleId : ScheduleId
  labelKey : String
  labelValue : String
  deriving DecidableEq, Repr

def ScheduleLabelRow.key (row : ScheduleLabelRow) : ScheduleId × String :=
  (row.scheduleId, row.labelKey)

structure JobRow where
  id : JobId
  createdAt : Time
  scheduleId : Option ScheduleId
  jobTypeId : JobTypeId
  targetExecutionTime : Time
  inputPayloadJson : String
  timeoutPolicyJson : TimeoutPolicy
  retryPolicyJson : RetryPolicy
  priority : Int
  inactiveSince : Option Time
  inactiveStatus : Option ExecutionStatus
  deriving DecidableEq, Repr

structure JobLabelRow where
  jobId : JobId
  labelKey : String
  labelValue : String
  deriving DecidableEq, Repr

def JobLabelRow.key (row : JobLabelRow) : JobId × String :=
  (row.jobId, row.labelKey)

structure ExecutionRow where
  id : ExecutionId
  jobId : JobId
  executorId : Option ExecutorId
  createdAt : Time
  targetExecutionTime : Time
  startedAt : Option Time
  succeededAt : Option Time
  failedAt : Option Time
  cancelledAt : Option Time
  outputJson : Option String
  failureReason : Option String
  priority : Int
  deriving DecidableEq, Repr

/-- The generated column `ora.execution.status`. -/
def ExecutionRow.status (row : ExecutionRow) : ExecutionStatus :=
  if row.succeededAt.isSome then .succeeded
  else if row.failedAt.isSome then .failed
  else if row.cancelledAt.isSome then .cancelled
  else if row.startedAt.isNone then .pending
  else .inProgress

/-- `PgExecutionStatus`, the values stored in `SMALLINT` columns. -/
def pgExecutionStatus : ExecutionStatus → Nat
  | .pending => 0
  | .inProgress => 1
  | .succeeded => 2
  | .failed => 3
  | .cancelled => 4

/-- The condition `status < 2`. -/
def ExecutionRow.active (row : ExecutionRow) : Bool :=
  decide (pgExecutionStatus row.status < 2)

theorem ExecutionRow.active_iff (row : ExecutionRow) :
    row.active = true ↔
      row.succeededAt = none ∧ row.failedAt = none ∧ row.cancelledAt = none := by
  unfold active status
  cases row.succeededAt <;> cases row.failedAt <;> cases row.cancelledAt <;>
    cases row.startedAt <;> simp [pgExecutionStatus]

theorem ExecutionRow.active_iff_status (row : ExecutionRow) :
    row.active = true ↔ row.status = .pending ∨ row.status = .inProgress := by
  unfold active
  cases row.status <;> simp [pgExecutionStatus]

/-- A status the execution does not leave. -/
def terminal : ExecutionStatus → Bool
  | .pending => false
  | .inProgress => false
  | .succeeded => true
  | .failed => true
  | .cancelled => true

theorem ExecutionRow.not_active_iff (row : ExecutionRow) :
    row.active = false ↔ terminal row.status = true := by
  unfold active
  cases row.status <;> simp [pgExecutionStatus, terminal]

structure Store where
  jobTypes : Table JobTypeRow.id
  schedules : Table ScheduleRow.id
  scheduleLabels : Table ScheduleLabelRow.key
  jobs : Table JobRow.id
  jobLabels : Table JobLabelRow.key
  executions : Table ExecutionRow.id
  /-- The next value of `Uuid::now_v7`, which is greater than all before it. -/
  nextUuid : Uuid
  scheduleLabel_schedule : ∀ label ∈ scheduleLabels.rows,
    ∃ schedule ∈ schedules.rows, schedule.id = label.scheduleId
  jobLabel_job : ∀ label ∈ jobLabels.rows, ∃ job ∈ jobs.rows, job.id = label.jobId
  execution_job : ∀ execution ∈ executions.rows, ∃ job ∈ jobs.rows, job.id = execution.jobId

namespace Store

/-- The store after the migrations. -/
def empty : Store where
  jobTypes := .empty
  schedules := .empty
  scheduleLabels := .empty
  jobs := .empty
  jobLabels := .empty
  executions := .empty
  nextUuid := 0
  scheduleLabel_schedule := by simp
  jobLabel_job := by simp
  execution_job := by simp

/-- `count` calls of `Uuid::now_v7`. -/
def nowV7 (store : Store) (count : Nat) : List Uuid × Store :=
  (List.range' store.nextUuid count, { store with nextUuid := store.nextUuid + count })

def updateJobTypes (store : Store) (table : Table JobTypeRow.id) : Store :=
  { store with jobTypes := table }

def insertSchedules? (store : Store) (rows : List ScheduleRow) : Option Store :=
  match inserted : store.schedules.insert? rows with
  | none => none
  | some schedules => some { store with
      schedules := schedules
      scheduleLabel_schedule := by
        intro label member
        obtain ⟨schedule, present, same⟩ := store.scheduleLabel_schedule label member
        rw [Table.insert?_eq_some_iff] at inserted
        exact ⟨schedule, by rw [inserted]; exact List.mem_append_left _ present, same⟩ }

def insertScheduleLabels? (store : Store) (rows : List ScheduleLabelRow) : Option Store :=
  match inserted : store.scheduleLabels.insert? rows with
  | none => none
  | some labels =>
      if referenced : ∀ label ∈ rows, ∃ schedule ∈ store.schedules.rows,
          schedule.id = label.scheduleId then
        some { store with
          scheduleLabels := labels
          scheduleLabel_schedule := by
            intro label member
            rw [Table.insert?_eq_some_iff] at inserted
            rw [inserted, List.mem_append] at member
            exact member.elim (store.scheduleLabel_schedule label) (referenced label) }
      else
        none

def modifySchedules (store : Store) (change : ScheduleRow → ScheduleRow)
    (keeps : ∀ row, (change row).id = row.id) : Store :=
  { store with
    schedules := store.schedules.modify change keeps
    scheduleLabel_schedule := by
      intro label member
      obtain ⟨schedule, present, same⟩ := store.scheduleLabel_schedule label member
      exact ⟨change schedule, List.mem_map_of_mem present, (keeps schedule).trans same⟩ }

/-- `DELETE FROM ora.schedule`, the labels are deleted with their schedule. -/
def deleteSchedules (store : Store) (doomed : ScheduleRow → Bool) : Store :=
  { store with
    schedules := store.schedules.delete doomed
    scheduleLabels := store.scheduleLabels.delete fun label =>
      store.schedules.rows.any fun row => doomed row && row.id == label.scheduleId
    scheduleLabel_schedule := by
      intro label member
      simp only [Table.delete_rows, List.mem_filter, Bool.not_eq_true', List.any_eq_false,
        Bool.and_eq_true, beq_iff_eq, not_and] at member
      obtain ⟨schedule, present, same⟩ := store.scheduleLabel_schedule label member.1
      refine ⟨schedule, ?_, same⟩
      simp only [Table.delete_rows, List.mem_filter, Bool.not_eq_true']
      exact ⟨present, Bool.eq_false_iff.mpr fun gone => member.2 schedule present gone same⟩ }

def insertJobs? (store : Store) (rows : List JobRow) : Option Store :=
  match inserted : store.jobs.insert? rows with
  | none => none
  | some jobs => some { store with
      jobs := jobs
      jobLabel_job := by
        intro label member
        obtain ⟨job, present, same⟩ := store.jobLabel_job label member
        rw [Table.insert?_eq_some_iff] at inserted
        exact ⟨job, by rw [inserted]; exact List.mem_append_left _ present, same⟩
      execution_job := by
        intro execution member
        obtain ⟨job, present, same⟩ := store.execution_job execution member
        rw [Table.insert?_eq_some_iff] at inserted
        exact ⟨job, by rw [inserted]; exact List.mem_append_left _ present, same⟩ }

def insertJobLabels? (store : Store) (rows : List JobLabelRow) : Option Store :=
  match inserted : store.jobLabels.insert? rows with
  | none => none
  | some labels =>
      if referenced : ∀ label ∈ rows, ∃ job ∈ store.jobs.rows, job.id = label.jobId then
        some { store with
          jobLabels := labels
          jobLabel_job := by
            intro label member
            rw [Table.insert?_eq_some_iff] at inserted
            rw [inserted, List.mem_append] at member
            exact member.elim (store.jobLabel_job label) (referenced label) }
      else
        none

def modifyJobs (store : Store) (change : JobRow → JobRow)
    (keeps : ∀ row, (change row).id = row.id) : Store :=
  { store with
    jobs := store.jobs.modify change keeps
    jobLabel_job := by
      intro label member
      obtain ⟨job, present, same⟩ := store.jobLabel_job label member
      exact ⟨change job, List.mem_map_of_mem present, (keeps job).trans same⟩
    execution_job := by
      intro execution member
      obtain ⟨job, present, same⟩ := store.execution_job execution member
      exact ⟨change job, List.mem_map_of_mem present, (keeps job).trans same⟩ }

/-- Whether a row refers to a deleted job. -/
def jobDeleted (store : Store) (doomed : JobRow → Bool) (id : JobId) : Bool :=
  store.jobs.rows.any fun row => doomed row && row.id == id

theorem job_remains (store : Store) (doomed : JobRow → Bool) {id : JobId}
    (kept : store.jobDeleted doomed id = false)
    (present : ∃ job ∈ store.jobs.rows, job.id = id) :
    ∃ job ∈ (store.jobs.delete doomed).rows, job.id = id := by
  obtain ⟨job, member, same⟩ := present
  simp only [jobDeleted, List.any_eq_false, Bool.and_eq_true, beq_iff_eq, not_and] at kept
  refine ⟨job, ?_, same⟩
  simp only [Table.delete_rows, List.mem_filter, Bool.not_eq_true']
  exact ⟨member, Bool.eq_false_iff.mpr fun gone => kept job member gone same⟩

/-- `DELETE FROM ora.job`, the labels and executions are deleted with their job. -/
def deleteJobs (store : Store) (doomed : JobRow → Bool) : Store :=
  { store with
    jobs := store.jobs.delete doomed
    jobLabels := store.jobLabels.delete fun label => store.jobDeleted doomed label.jobId
    executions := store.executions.delete fun row => store.jobDeleted doomed row.jobId
    jobLabel_job := by
      intro label member
      simp only [Table.delete_rows, List.mem_filter, Bool.not_eq_true'] at member
      exact store.job_remains doomed member.2 (store.jobLabel_job label member.1)
    execution_job := by
      intro execution member
      simp only [Table.delete_rows, List.mem_filter, Bool.not_eq_true'] at member
      exact store.job_remains doomed member.2 (store.execution_job execution member.1) }

def insertExecutions? (store : Store) (rows : List ExecutionRow) : Option Store :=
  match inserted : store.executions.insert? rows with
  | none => none
  | some executions =>
      if referenced : ∀ row ∈ rows, ∃ job ∈ store.jobs.rows, job.id = row.jobId then
        some { store with
          executions := executions
          execution_job := by
            intro row member
            rw [Table.insert?_eq_some_iff] at inserted
            rw [inserted, List.mem_append] at member
            exact member.elim (store.execution_job row) (referenced row) }
      else
        none

def modifyExecutions (store : Store) (change : ExecutionRow → ExecutionRow)
    (keeps : ∀ row, (change row).id = row.id ∧ (change row).jobId = row.jobId) : Store :=
  { store with
    executions := store.executions.modify change fun row => (keeps row).1
    execution_job := by
      intro row member
      simp only [Table.modify_rows, List.mem_map] at member
      obtain ⟨before, present, rfl⟩ := member
      rw [(keeps before).2]
      exact store.execution_job before present }

theorem insertSchedules?_spec {store after : Store} {rows : List ScheduleRow}
    (done : store.insertSchedules? rows = some after) :
    after.schedules.rows = store.schedules.rows ++ rows ∧ after.jobs = store.jobs ∧
      after.executions = store.executions ∧ after.nextUuid = store.nextUuid := by
  unfold insertSchedules? at done
  split at done
  · cases done
  · rename_i schedules inserted
    cases done
    exact ⟨Table.insert?_eq_some_iff.mp inserted, rfl, rfl, rfl⟩

theorem insertScheduleLabels?_spec {store after : Store} {rows : List ScheduleLabelRow}
    (done : store.insertScheduleLabels? rows = some after) :
    after.schedules = store.schedules ∧ after.jobs = store.jobs ∧
      after.executions = store.executions ∧ after.nextUuid = store.nextUuid := by
  unfold insertScheduleLabels? at done
  split at done
  · cases done
  · split at done
    · cases done
      exact ⟨rfl, rfl, rfl, rfl⟩
    · cases done

theorem insertJobs?_spec {store after : Store} {rows : List JobRow}
    (done : store.insertJobs? rows = some after) :
    after.jobs.rows = store.jobs.rows ++ rows ∧ after.schedules = store.schedules ∧
      after.executions = store.executions ∧ after.nextUuid = store.nextUuid := by
  unfold insertJobs? at done
  split at done
  · cases done
  · rename_i jobs inserted
    cases done
    exact ⟨Table.insert?_eq_some_iff.mp inserted, rfl, rfl, rfl⟩

theorem insertJobLabels?_spec {store after : Store} {rows : List JobLabelRow}
    (done : store.insertJobLabels? rows = some after) :
    after.jobs = store.jobs ∧ after.schedules = store.schedules ∧
      after.executions = store.executions ∧ after.nextUuid = store.nextUuid := by
  unfold insertJobLabels? at done
  split at done
  · cases done
  · split at done
    · cases done
      exact ⟨rfl, rfl, rfl, rfl⟩
    · cases done

theorem insertExecutions?_spec {store after : Store} {rows : List ExecutionRow}
    (done : store.insertExecutions? rows = some after) :
    after.executions.rows = store.executions.rows ++ rows ∧ after.jobs = store.jobs ∧
      after.schedules = store.schedules ∧ after.nextUuid = store.nextUuid := by
  unfold insertExecutions? at done
  split at done
  · cases done
  · rename_i executions inserted
    split at done
    · cases done
      exact ⟨Table.insert?_eq_some_iff.mp inserted, rfl, rfl, rfl⟩
    · cases done

/-- Rows with unused keys and existing jobs are inserted. -/
theorem insertExecutions?_isSome (store : Store) (rows : List ExecutionRow)
    (distinct : ((store.executions.rows ++ rows).map ExecutionRow.id).Nodup)
    (referenced : ∀ row ∈ rows, ∃ job ∈ store.jobs.rows, job.id = row.jobId) :
    ∃ after, store.insertExecutions? rows = some after := by
  have inserted : store.executions.insert? rows = some ⟨store.executions.rows ++ rows, distinct⟩ :=
    Table.insert?_eq_some_iff.mpr rfl
  unfold insertExecutions?
  split
  · rename_i refused
    rw [inserted] at refused
    cases refused
  · rw [dif_pos referenced]
    exact ⟨_, rfl⟩

end Store

end Ora.Postgres
