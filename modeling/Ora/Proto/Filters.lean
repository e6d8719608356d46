import Ora.Library.Codec
import Ora.Backend.Types
import Mathlib.Data.List.Basic

/-!
# Filters on the wire

The protobuf filters, how the client library encodes its filters and how the
server decodes them.  The filters of the client have the fields of those of the
backend.  An absent list and an empty list are encoded alike.
-/

namespace Ora.Proto

open Ora.Backend (Uuid Time)
open Ora.Library

inductive ExecutionStatus where
  | unspecified
  | pending
  | inProgress
  | succeeded
  | failed
  | cancelled
  deriving DecidableEq, Repr

inductive ExecutionPendingReason where
  | unspecified
  | scheduled
  | ready
  deriving DecidableEq, Repr

inductive ScheduleStatus where
  | unspecified
  | active
  | stopped
  deriving DecidableEq, Repr

structure Timestamp where
  seconds : Int
  nanos : Int
  deriving DecidableEq, Repr

structure TimeRange where
  start : Option Timestamp
  stop : Option Timestamp
  deriving DecidableEq, Repr

structure LabelValueSet where
  values : List String
  deriving DecidableEq, Repr

structure LabelFilter where
  key : String
  value : Option String
  valueIn : Option LabelValueSet
  deriving DecidableEq, Repr

structure JobFilters where
  jobIds : List String
  jobTypeIds : List String
  executorIds : List String
  executionIds : List String
  executionStatuses : List Int
  targetExecutionTime : Option TimeRange
  createdAt : Option TimeRange
  labels : List LabelFilter
  scheduleIds : List String
  minPriority : Option Int
  maxPriority : Option Int
  pendingReasons : List Int
  deriving DecidableEq, Repr

structure ScheduleFilters where
  scheduleIds : List String
  jobTypeIds : List String
  statuses : List Int
  createdAt : Option TimeRange
  labels : List LabelFilter
  deriving DecidableEq, Repr

def ExecutionStatus.number : ExecutionStatus → Int
  | .unspecified => 0
  | .pending => 1
  | .inProgress => 2
  | .succeeded => 3
  | .failed => 4
  | .cancelled => 5

def ExecutionStatus.tryFrom : Int → Option ExecutionStatus
  | 0 => some .unspecified
  | 1 => some .pending
  | 2 => some .inProgress
  | 3 => some .succeeded
  | 4 => some .failed
  | 5 => some .cancelled
  | _ => none

def ExecutionPendingReason.number : ExecutionPendingReason → Int
  | .unspecified => 0
  | .scheduled => 1
  | .ready => 2

def ExecutionPendingReason.tryFrom : Int → Option ExecutionPendingReason
  | 0 => some .unspecified
  | 1 => some .scheduled
  | 2 => some .ready
  | _ => none

def ScheduleStatus.number : ScheduleStatus → Int
  | .unspecified => 0
  | .active => 1
  | .stopped => 2

def ScheduleStatus.tryFrom : Int → Option ScheduleStatus
  | 0 => some .unspecified
  | 1 => some .active
  | 2 => some .stopped
  | _ => none

@[simp] theorem ExecutionStatus.tryFrom_number (status : ExecutionStatus) :
    tryFrom status.number = some status := by
  cases status <;> rfl

@[simp] theorem ExecutionPendingReason.tryFrom_number (reason : ExecutionPendingReason) :
    tryFrom reason.number = some reason := by
  cases reason <;> rfl

@[simp] theorem ScheduleStatus.tryFrom_number (status : ScheduleStatus) :
    tryFrom status.number = some status := by
  cases status <;> rfl

/-- The text of a UUID and the timestamp of a time, as the libraries that the
client and the server share convert them. -/
structure Conversions where
  uuid : Codec String Uuid String
  timestamp : Codec String Time Timestamp

namespace Client

def executionStatus : Backend.ExecutionStatus → ExecutionStatus
  | .pending => .pending
  | .inProgress => .inProgress
  | .succeeded => .succeeded
  | .failed => .failed
  | .cancelled => .cancelled

def pendingReason : Backend.ExecutionPendingReason → ExecutionPendingReason
  | .scheduled => .scheduled
  | .ready => .ready

def scheduleStatus : Backend.ScheduleStatus → ScheduleStatus
  | .active => .active
  | .stopped => .stopped

/-- `into_iter().flatten()` of an optional list. -/
def flatten {α : Type} (list : Option (List α)) : List α :=
  list.getD []

/-- Servers without `value_in` ignore it, the first value keeps them from
matching any value. -/
def labelFilter (filter : Backend.LabelFilter) : LabelFilter where
  key := filter.key
  value :=
    match filter.valueIn with
    | some values => values.head?
    | none => filter.value
  valueIn := filter.valueIn.map fun values => ⟨values⟩

variable (conversions : Conversions)

def timeRange (range : Backend.TimeRange) : TimeRange where
  start := range.start.map conversions.timestamp.encode
  stop := range.stop.map conversions.timestamp.encode

def jobFilters (filters : Backend.JobFilters) : JobFilters where
  jobIds := (flatten filters.jobIds).map conversions.uuid.encode
  jobTypeIds := flatten filters.jobTypeIds
  scheduleIds := (flatten filters.scheduleIds).map conversions.uuid.encode
  executorIds := (flatten filters.executorIds).map conversions.uuid.encode
  executionIds := (flatten filters.executionIds).map conversions.uuid.encode
  executionStatuses :=
    (flatten filters.executionStatuses).map fun status => (executionStatus status).number
  targetExecutionTime := filters.targetExecutionTime.map (timeRange conversions)
  createdAt := filters.createdAt.map (timeRange conversions)
  labels := (flatten filters.labels).map labelFilter
  minPriority := filters.minPriority
  maxPriority := filters.maxPriority
  pendingReasons :=
    (flatten filters.pendingReasons).map fun reason => (pendingReason reason).number

def scheduleFilters (filters : Backend.ScheduleFilters) : ScheduleFilters where
  scheduleIds := (flatten filters.scheduleIds).map conversions.uuid.encode
  jobTypeIds := flatten filters.jobTypeIds
  statuses := (flatten filters.statuses).map fun status => (scheduleStatus status).number
  createdAt := filters.createdAt.map (timeRange conversions)
  labels := (flatten filters.labels).map labelFilter

end Client

namespace Server

/-- The first byte of a segment is a letter, the others are letters, digits or underscores. -/
def validSegment : List Char → Bool
  | [] => false
  | first :: rest => first.isAlpha && rest.all fun c => c.isAlphanum || c == '_'

/-- `JobTypeId::validate` -/
def validate (id : String) : Bool :=
  !id.toList.isEmpty && (id.toList.splitOn '.').all validSegment

/-- `JobTypeId::new` -/
def jobTypeId (id : String) : Except String Backend.JobTypeId :=
  if validate id then .ok id else .error ("invalid job type ID: \"" ++ id ++ "\"")

/-- `None` for an empty list. -/
def nonEmpty {α β : Type} (values : List α) (decode : α → Except String β) :
    Except String (Option (List β)) :=
  if values.isEmpty then .ok none else (values.mapM decode).map some

def executionStatus : ExecutionStatus → Backend.ExecutionStatus
  | .unspecified => .pending
  | .pending => .pending
  | .inProgress => .inProgress
  | .succeeded => .succeeded
  | .failed => .failed
  | .cancelled => .cancelled

def scheduleStatus : ScheduleStatus → Backend.ScheduleStatus
  | .unspecified => .active
  | .active => .active
  | .stopped => .stopped

/-- Unknown numbers are left out. -/
def statuses {α β : Type} (tryFrom : Int → Option α) (into : α → β) (numbers : List Int) :
    Option (List β) :=
  if numbers.isEmpty then none else some ((numbers.filterMap tryFrom).map into)

/-- Unspecified statuses are also treated as pending. -/
def includesPending (numbers : List Int) : Bool :=
  numbers.any fun number =>
    match ExecutionStatus.tryFrom number with
    | some .pending => true
    | some .unspecified => true
    | _ => false

def pendingReason (number : Int) : Except String Backend.ExecutionPendingReason :=
  match ExecutionPendingReason.tryFrom number with
  | some .scheduled => .ok .scheduled
  | some .ready => .ok .ready
  | _ => .error ("invalid pending reason: " ++ toString number)

/-- Pending reasons only narrow down the pending jobs, other statuses could
only be meant by mistake. -/
def pendingReasons (numbers executionStatuses : List Int) :
    Except String (Option (List Backend.ExecutionPendingReason)) :=
  if numbers.isEmpty then
    .ok none
  else if !executionStatuses.isEmpty && !includesPending executionStatuses then
    .error "pending reasons require the pending execution status"
  else
    (numbers.mapM pendingReason).map some

def labelFilter (filter : LabelFilter) : Backend.LabelFilter where
  key := filter.key
  value := filter.value
  valueIn := filter.valueIn.map fun set => set.values

def labels (filters : List LabelFilter) : Option (List Backend.LabelFilter) :=
  if filters.isEmpty then none else some (filters.map labelFilter)

variable (conversions : Conversions)

def uuid (name id : String) : Except String Uuid :=
  (conversions.uuid.decode id).mapError fun error =>
    "invalid " ++ name ++ " ID '" ++ id ++ "': " ++ error

def optionalTime (name : String) : Option Timestamp → Except String (Option Time)
  | none => .ok none
  | some timestamp => ((conversions.timestamp.decode timestamp).map some).mapError fun error =>
      "invalid " ++ name ++ " time: " ++ error

def timeRange : Option TimeRange → Except String (Option Backend.TimeRange)
  | none => .ok none
  | some range => do
      let start ← optionalTime conversions "start" range.start
      let stop ← optionalTime conversions "end" range.stop
      return some { start := start, stop := stop }

def jobFilters (value : JobFilters) : Except String Backend.JobFilters := do
  let executionStatuses :=
    statuses ExecutionStatus.tryFrom executionStatus value.executionStatuses
  let jobIds ← nonEmpty value.jobIds (uuid conversions "job")
  let jobTypeIds ← nonEmpty value.jobTypeIds jobTypeId
  let executorIds ← nonEmpty value.executorIds (uuid conversions "executor")
  let targetExecutionTime ← timeRange conversions value.targetExecutionTime
  let createdAt ← timeRange conversions value.createdAt
  let executionIds ← nonEmpty value.executionIds (uuid conversions "execution")
  let scheduleIds ← nonEmpty value.scheduleIds (uuid conversions "schedule")
  let pendingReasons ← pendingReasons value.pendingReasons value.executionStatuses
  return {
    jobIds := jobIds
    jobTypeIds := jobTypeIds
    executorIds := executorIds
    executionIds := executionIds
    executionStatuses := executionStatuses
    targetExecutionTime := targetExecutionTime
    createdAt := createdAt
    labels := labels value.labels
    scheduleIds := scheduleIds
    minPriority := value.minPriority
    maxPriority := value.maxPriority
    pendingReasons := pendingReasons }

def scheduleFilters (value : ScheduleFilters) : Except String Backend.ScheduleFilters := do
  let scheduleIds ← nonEmpty value.scheduleIds (uuid conversions "schedule")
  let createdAt ← timeRange conversions value.createdAt
  let jobTypeIds ← nonEmpty value.jobTypeIds jobTypeId
  return {
    scheduleIds := scheduleIds
    jobTypeIds := jobTypeIds
    statuses := statuses ScheduleStatus.tryFrom scheduleStatus value.statuses
    createdAt := createdAt
    labels := labels value.labels }

end Server

end Ora.Proto
