import Ora.Cli.LabelFilters
import Ora.Proto.Filters

/-!
# Job filters on the command line

`JobFilterArgs` of `ora-cli/src/commands/jobs.rs` and the filters built from
them.  The bounds of the target execution time are exchanged there:
`--target-after` becomes the end of the range and `--target-before` its start.
-/

namespace Ora.Cli

open Ora.Backend
open Ora.Library
open Ora.Postgres
open Ora.Proto (Conversions)

inductive JobStatus where
  | pending
  | inProgress
  | succeeded
  | failed
  | cancelled
  deriving DecidableEq, Repr

/-- `From<JobStatus> for ExecutionStatus` -/
def JobStatus.into : JobStatus → ExecutionStatus
  | .pending => .pending
  | .inProgress => .inProgress
  | .succeeded => .succeeded
  | .failed => .failed
  | .cancelled => .cancelled

inductive PendingReason where
  | scheduled
  | ready
  deriving DecidableEq, Repr

/-- `From<PendingReason> for ExecutionPendingReason` -/
def PendingReason.into : PendingReason → ExecutionPendingReason
  | .scheduled => .scheduled
  | .ready => .ready

structure JobFilterArgs where
  jobIds : List String := []
  jobTypeIds : List String := []
  executorIds : List String := []
  scheduleIds : List String := []
  executionIds : List String := []
  labels : List String := []
  executionStatuses : List JobStatus := []
  pendingReasons : List PendingReason := []
  targetExecutionTimeAfter : Option String := none
  targetExecutionTimeBefore : Option String := none
  createdAfter : Option String := none
  createdBefore : Option String := none
  minPriority : Option Int := none
  maxPriority : Option Int := none
  deriving DecidableEq, Repr

/-- `None` without values. -/
def ifGiven {α : Type} (values : List α) : Option (List α) :=
  if values.isEmpty then none else some values

def parseAll {α : Type} (parse : String → Except String α) (values : List String) :
    Except String (Option (List α)) :=
  if values.isEmpty then .ok none else (values.mapM parse).map some

def parseId (conversions : Conversions) (message id : String) : Except String Uuid :=
  (conversions.uuid.decode id).mapError fun _ => message

def parseTime (parseTsOrDate : String → Except String Time) :
    Option String → Except String (Option Time)
  | none => .ok none
  | some ts => ((parseTsOrDate ts).map some).mapError fun _ => "unrecognized time format"

/-- `TryFrom<JobFilterArgs> for JobFilters` -/
def jobFilters (conversions : Conversions) (parseTsOrDate : String → Except String Time)
    (value : JobFilterArgs) : Except String JobFilters := do
  let targetBefore ← parseTime parseTsOrDate value.targetExecutionTimeAfter
  let targetAfter ← parseTime parseTsOrDate value.targetExecutionTimeBefore
  let createdAfter ← parseTime parseTsOrDate value.createdAfter
  let createdBefore ← parseTime parseTsOrDate value.createdBefore
  let jobIds ← parseAll (parseId conversions "invalid job ID") value.jobIds
  let jobTypeIds ← parseAll Proto.Server.jobTypeId value.jobTypeIds
  let executorIds ← parseAll (parseId conversions "invalid job ID") value.executorIds
  let executionIds ← parseAll (parseId conversions "invalid execution ID") value.executionIds
  let scheduleIds ← parseAll (parseId conversions "invalid schedule ID") value.scheduleIds
  return {
    jobIds := jobIds
    jobTypeIds := jobTypeIds
    executorIds := executorIds
    executionIds := executionIds
    executionStatuses := ifGiven (value.executionStatuses.map JobStatus.into)
    targetExecutionTime := some ⟨targetAfter, targetBefore⟩
    createdAt := some ⟨createdAfter, createdBefore⟩
    labels := (ifGiven value.labels).map parseLabelFilters
    scheduleIds := scheduleIds
    minPriority := value.minPriority
    maxPriority := value.maxPriority
    pendingReasons := ifGiven (value.pendingReasons.map PendingReason.into) }

/-- The time is at or after the first and before the second, where they are given. -/
def Between (parseTsOrDate : String → Except String Time) (after before : Option String)
    (time : Time) : Prop :=
  (∀ text ∈ after, ∀ bound, parseTsOrDate text = .ok bound → bound ≤ time) ∧
    ∀ text ∈ before, ∀ bound, parseTsOrDate text = .ok bound → time < bound

/-- One of the identifiers, if there are any. -/
def AmongIds (conversions : Conversions) (ids : List String) (id : Option Uuid) : Prop :=
  ids ≠ [] → ∃ present ∈ id, ∃ text ∈ ids, conversions.uuid.decode text = .ok present

/-- The job satisfies all options that are given. -/
structure Satisfies (conversions : Conversions) (parseTsOrDate : String → Except String Time)
    (store : Store) (now : Time) (args : JobFilterArgs) (job : JobRow) : Prop where
  jobIds : AmongIds conversions args.jobIds job.id
  jobTypeIds : args.jobTypeIds ≠ [] → job.jobTypeId ∈ args.jobTypeIds
  executions : args.executionIds ≠ [] ∨ args.executorIds ≠ [] →
    ∃ row ∈ store.executions.rows, row.jobId = job.id ∧
      AmongIds conversions args.executionIds row.id ∧
        AmongIds conversions args.executorIds row.executorId
  executionStatuses : args.executionStatuses ≠ [] ∨ args.pendingReasons ≠ [] →
    ∃ status ∈ if args.executionStatuses = [] then [.pending] else args.executionStatuses,
      HasStatus store now (ifGiven (args.pendingReasons.map PendingReason.into)) job status.into
  labels : LabelsAsked args.labels fun key value => ∃ label ∈ store.jobLabels.rows,
    label.jobId = job.id ∧ label.labelKey = key ∧ label.labelValue = value
  scheduleIds : AmongIds conversions args.scheduleIds job.scheduleId
  minPriority : ∀ least ∈ args.minPriority, least ≤ job.priority
  maxPriority : ∀ greatest ∈ args.maxPriority, job.priority ≤ greatest
  targetExecutionTime : Between parseTsOrDate args.targetExecutionTimeAfter
    args.targetExecutionTimeBefore job.targetExecutionTime
  createdAt : Between parseTsOrDate args.createdAfter args.createdBefore job.createdAt

section Parsed

variable {α : Type}

theorem ifGiven_isSome_iff {values : List α} : (ifGiven values).isSome = true ↔ values ≠ [] := by
  cases values <;> simp [ifGiven]

theorem ifGiven_ne_nil (values : List α) : ifGiven values ≠ some [] := by
  cases values <;> simp [ifGiven]

/-- Values are parsed one by one, there are some exactly if some are given. -/
theorem parseAll_ok {parse : String → Except String α} {values : List String}
    {parsed : Option (List α)} (done : parseAll parse values = .ok parsed) :
    (parsed.isSome = true ↔ values ≠ []) ∧ parsed ≠ some [] ∧
      ∀ list ∈ parsed, ∀ result, result ∈ list ↔ ∃ text ∈ values, parse text = .ok result := by
  unfold parseAll at done
  cases values with
  | nil =>
      cases done
      exact ⟨by simp, nofun, nofun⟩
  | cons first rest =>
      rw [List.isEmpty_cons, if_neg Bool.false_ne_true] at done
      cases all : (first :: rest).mapM parse with
      | error error =>
          rw [all] at done
          cases done
      | ok list =>
          rw [all] at done
          cases done
          refine ⟨by simp, ?_, ?_⟩
          · intro same
            exact List.cons_ne_nil _ _ ((mapM_eq_ok_nil_iff all).mp (Option.some.inj same))
          · intro _ same
            cases same
            exact mem_of_mapM_eq_ok all

variable {conversions : Conversions} {parseTsOrDate : String → Except String Time}

theorem parseIds_ok {message : String} {ids : List String} {parsed : Option (List Uuid)}
    (done : parseAll (parseId conversions message) ids = .ok parsed) (id : Option Uuid) :
    AmongNullable parsed id ↔ AmongIds conversions ids id := by
  obtain ⟨given, _, member⟩ := parseAll_ok done
  simp only [parseId, mapError_eq_ok] at member
  cases parsed with
  | none =>
      have empty : ids = [] := by simpa using given
      simp [AmongNullable, AmongIds, empty]
  | some list =>
      have nonempty : ids ≠ [] := given.mp rfl
      simp only [AmongNullable, AmongIds, nonempty, Option.mem_some, forall_eq', ne_eq,
        not_false_eq_true, true_imp_iff, member list rfl]

theorem parseTime_eq_ok {text : Option String} {parsed : Option Time}
    (done : parseTime parseTsOrDate text = .ok parsed) :
    (text = none ∧ parsed = none) ∨ ∃ given time, text = some given ∧
      parseTsOrDate given = .ok time ∧ parsed = some time := by
  cases text with
  | none =>
      cases done
      exact .inl ⟨rfl, rfl⟩
  | some given =>
      unfold parseTime at done
      rw [mapError_eq_ok] at done
      cases read : parseTsOrDate given with
      | error error =>
          rw [read] at done
          cases done
      | ok time =>
          rw [read] at done
          cases done
          exact .inr ⟨given, time, rfl, read, rfl⟩

theorem parseTime_ok {text : Option String} {parsed : Option Time}
    (done : parseTime parseTsOrDate text = .ok parsed) (condition : Time → Prop) :
    (∀ bound ∈ parsed, condition bound) ↔
      ∀ given ∈ text, ∀ bound, parseTsOrDate given = .ok bound → condition bound := by
  rcases parseTime_eq_ok done with ⟨rfl, rfl⟩ | ⟨given, time, rfl, read, rfl⟩
  · simp
  · simp [read]

end Parsed

end Ora.Cli
