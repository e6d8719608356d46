import Ora.Proto.Filters

/-!
# Filters read back

What the server decodes from the filters that the client library encodes.  The
decoding fails or drops the empty lists, the other conditions are kept.
-/

namespace Ora.Proto

open Ora.Library

/-- An empty list is read back as an absent one. -/
def given {α : Type} (list : Option (List α)) : Option (List α) :=
  list.filter fun values => !values.isEmpty

theorem given_of_ne {α : Type} {list : Option (List α)} (nonempty : list ≠ some []) :
    given list = list := by
  cases list with
  | none => rfl
  | some values => cases values <;> simp_all [given, Option.filter]

/-- `value_in` takes precedence, its first value is sent along. -/
def sentLabel (filter : Backend.LabelFilter) : Backend.LabelFilter :=
  { filter with
    value :=
      match filter.valueIn with
      | some values => values.head?
      | none => filter.value }

def withoutEmptyLists (filters : Backend.JobFilters) : Backend.JobFilters :=
  { filters with
    jobIds := given filters.jobIds
    jobTypeIds := given filters.jobTypeIds
    executorIds := given filters.executorIds
    executionIds := given filters.executionIds
    executionStatuses := given filters.executionStatuses
    labels := given filters.labels
    scheduleIds := given filters.scheduleIds
    pendingReasons := given filters.pendingReasons }

def withoutEmptyScheduleLists (filters : Backend.ScheduleFilters) : Backend.ScheduleFilters :=
  { filters with
    scheduleIds := given filters.scheduleIds
    jobTypeIds := given filters.jobTypeIds
    statuses := given filters.statuses
    labels := given filters.labels }

/-- A job type ID the server refuses. -/
def invalidJobType (jobTypeIds : Option (List Backend.JobTypeId)) : Bool :=
  (jobTypeIds.getD []).any fun id => !Server.validate id

/-- Pending reasons beside statuses that exclude pending jobs. -/
def reasonsWithoutPending (filters : Backend.JobFilters) : Bool :=
  !(filters.pendingReasons.getD []).isEmpty && !(filters.executionStatuses.getD []).isEmpty &&
    !(filters.executionStatuses.getD []).contains .pending

theorem executionStatus_back (status : Backend.ExecutionStatus) :
    Server.executionStatus (Client.executionStatus status) = status := by
  cases status <;> rfl

theorem scheduleStatus_back (status : Backend.ScheduleStatus) :
    Server.scheduleStatus (Client.scheduleStatus status) = status := by
  cases status <;> rfl

section Fields

variable {α β : Type}

theorem nonEmpty_map_eq_ok {list : Option (List α)} {encode : α → β} {decode : β → Except String α}
    (read : ∀ value ∈ list.getD [], decode (encode value) = .ok value) :
    Server.nonEmpty ((Client.flatten list).map encode) decode = .ok (given list) := by
  unfold Server.nonEmpty Client.flatten
  cases list with
  | none => rfl
  | some values =>
      cases values with
      | nil => rfl
      | cons first rest =>
          have all := mapM_map_eq_ok read
          rw [Option.getD_some] at all ⊢
          rw [all]
          rfl

theorem statuses_map {tryFrom : Int → Option β} {number : β → Int} {encode : α → β} {into : β → α}
    (known : ∀ value, tryFrom (number value) = some value) (back : ∀ value, into (encode value) = value)
    (list : Option (List α)) :
    Server.statuses tryFrom into ((Client.flatten list).map fun value => number (encode value)) =
      given list := by
  unfold Server.statuses Client.flatten
  cases list with
  | none => rfl
  | some values =>
      cases values with
      | nil => rfl
      | cons first rest =>
          have all : ((first :: rest).map fun value => number (encode value)).filterMap tryFrom =
              (first :: rest).map encode := by
            rw [List.filterMap_map]
            simp [known]
          rw [Option.getD_some, all, List.map_map]
          simp [given, Option.filter, Function.comp_def, back]

theorem labels_map (list : Option (List Backend.LabelFilter)) :
    Server.labels ((Client.flatten list).map Client.labelFilter) =
      (given list).map fun filters => filters.map sentLabel := by
  have read : ∀ filter, Server.labelFilter (Client.labelFilter filter) = sentLabel filter := by
    rintro ⟨key, value, valueIn⟩
    cases valueIn <;> rfl
  unfold Server.labels Client.flatten
  cases list with
  | none => rfl
  | some values => cases values <;> simp [given, Option.filter, Function.comp_def, read]

theorem jobTypeIds_ok {list : Option (List Backend.JobTypeId)} (valid : invalidJobType list = false) :
    Server.nonEmpty (Client.flatten list) Server.jobTypeId = .ok (given list) := by
  rw [← List.map_id (Client.flatten list)]
  refine nonEmpty_map_eq_ok fun id member => ?_
  have known := List.any_eq_false.mp valid id member
  rw [Server.jobTypeId, id_eq, if_pos (by simpa using known)]

theorem jobTypeIds_error {list : Option (List Backend.JobTypeId)}
    (invalid : invalidJobType list = true) :
    ∃ error, Server.nonEmpty (Client.flatten list) Server.jobTypeId = .error error := by
  obtain ⟨id, member, refused⟩ := List.any_eq_true.mp invalid
  have failed : Server.jobTypeId id = .error ("invalid job type ID: \"" ++ id ++ "\"") := by
    rw [Server.jobTypeId, if_neg (by simpa using refused)]
  obtain ⟨error, all⟩ := mapM_eq_error_of_mem member failed
  refine ⟨error, ?_⟩
  have nonempty : (Client.flatten list).isEmpty = false :=
    List.isEmpty_eq_false_iff.mpr (List.ne_nil_of_mem member)
  rw [Server.nonEmpty, nonempty, if_neg (by simp), Client.flatten, all]
  rfl

theorem includesPending_map (statuses : List Backend.ExecutionStatus) :
    Server.includesPending (statuses.map fun status => (Client.executionStatus status).number) =
      statuses.contains .pending := by
  rw [Bool.eq_iff_iff, Server.includesPending, List.any_map, List.any_eq_true, List.contains_iff_mem]
  constructor
  · rintro ⟨status, member, matching⟩
    cases status <;> simp_all [Client.executionStatus, ExecutionStatus.number, ExecutionStatus.tryFrom]
  · exact fun member => ⟨.pending, member, rfl⟩

/-- The decoded pending reasons of a filter. -/
def decodedReasons (filters : Backend.JobFilters) :
    Except String (Option (List Backend.ExecutionPendingReason)) :=
  Server.pendingReasons
    ((Client.flatten filters.pendingReasons).map fun reason => (Client.pendingReason reason).number)
    ((Client.flatten filters.executionStatuses).map fun status =>
      (Client.executionStatus status).number)

theorem decodedReasons_eq (filters : Backend.JobFilters) :
    decodedReasons filters =
      if reasonsWithoutPending filters then
        .error "pending reasons require the pending execution status"
      else
        .ok (given filters.pendingReasons) := by
  have read : ∀ reason, Server.pendingReason (Client.pendingReason reason).number = .ok reason := by
    intro reason
    cases reason <;> rfl
  have all : ((filters.pendingReasons.getD []).map fun reason =>
      (Client.pendingReason reason).number).mapM Server.pendingReason =
        .ok (filters.pendingReasons.getD []) :=
    mapM_map_eq_ok fun reason _ => read reason
  unfold decodedReasons Server.pendingReasons reasonsWithoutPending Client.flatten
  rw [includesPending_map, all]
  cases filters.pendingReasons with
  | none => rfl
  | some reasons =>
      cases reasons with
      | nil => rfl
      | cons first rest => simp [given, Option.filter, Except.map]

theorem timeRange_map (conversions : Conversions) (range : Option Backend.TimeRange) :
    Server.timeRange conversions (range.map (Client.timeRange conversions)) = .ok range := by
  have read : ∀ name time, Server.optionalTime conversions name
      (Option.map conversions.timestamp.encode time) = .ok time := by
    intro name time
    cases time with
    | none => rfl
    | some time =>
        rw [Option.map_some, Server.optionalTime, conversions.timestamp.decode_encode]
        rfl
  cases range with
  | none => rfl
  | some range =>
      rw [Option.map_some, Server.timeRange, Client.timeRange, read, read]
      rfl

theorem uuids_map (conversions : Conversions) (name : String) (list : Option (List Backend.Uuid)) :
    Server.nonEmpty ((Client.flatten list).map conversions.uuid.encode)
      (Server.uuid conversions name) = .ok (given list) := by
  refine nonEmpty_map_eq_ok fun id _ => ?_
  rw [Server.uuid, conversions.uuid.decode_encode]
  rfl

end Fields

def receivedJobFilters (filters : Backend.JobFilters) : Backend.JobFilters :=
  { withoutEmptyLists filters with
    labels := (given filters.labels).map fun filters => filters.map sentLabel }

def receivedScheduleFilters (filters : Backend.ScheduleFilters) : Backend.ScheduleFilters :=
  { withoutEmptyScheduleLists filters with
    labels := (given filters.labels).map fun filters => filters.map sentLabel }

section Filters

variable (conversions : Conversions)

theorem jobFilters_ok {filters : Backend.JobFilters}
    (valid : invalidJobType filters.jobTypeIds = false)
    (reasons : reasonsWithoutPending filters = false) :
    Server.jobFilters conversions (Client.jobFilters conversions filters) =
      .ok (receivedJobFilters filters) := by
  have decoded := decodedReasons_eq filters
  rw [reasons, if_neg (by simp), decodedReasons] at decoded
  have statuses := statuses_map ExecutionStatus.tryFrom_number executionStatus_back
    filters.executionStatuses
  simp only [Server.jobFilters, Client.jobFilters, uuids_map, jobTypeIds_ok valid, timeRange_map,
    decoded, statuses, labels_map]
  rfl

theorem jobFilters_error {filters : Backend.JobFilters}
    (rejected : invalidJobType filters.jobTypeIds = true ∨ reasonsWithoutPending filters = true) :
    ∃ error, Server.jobFilters conversions (Client.jobFilters conversions filters) =
      .error error := by
  simp only [Server.jobFilters, Client.jobFilters, uuids_map, timeRange_map]
  cases invalid : invalidJobType filters.jobTypeIds with
  | true =>
      obtain ⟨error, failed⟩ := jobTypeIds_error invalid
      rw [failed]
      exact ⟨error, rfl⟩
  | false =>
      have reasons : reasonsWithoutPending filters = true := by simpa [invalid] using rejected
      have decoded := decodedReasons_eq filters
      rw [reasons, if_pos rfl, decodedReasons] at decoded
      rw [jobTypeIds_ok invalid, decoded]
      exact ⟨_, rfl⟩

theorem scheduleFilters_ok {filters : Backend.ScheduleFilters}
    (valid : invalidJobType filters.jobTypeIds = false) :
    Server.scheduleFilters conversions (Client.scheduleFilters conversions filters) =
      .ok (receivedScheduleFilters filters) := by
  have statuses := statuses_map ScheduleStatus.tryFrom_number scheduleStatus_back filters.statuses
  simp only [Server.scheduleFilters, Client.scheduleFilters, uuids_map, jobTypeIds_ok valid,
    timeRange_map, statuses, labels_map]
  rfl

theorem scheduleFilters_error {filters : Backend.ScheduleFilters}
    (invalid : invalidJobType filters.jobTypeIds = true) :
    ∃ error, Server.scheduleFilters conversions (Client.scheduleFilters conversions filters) =
      .error error := by
  obtain ⟨error, failed⟩ := jobTypeIds_error invalid
  simp only [Server.scheduleFilters, Client.scheduleFilters, uuids_map, timeRange_map, failed]
  exact ⟨error, rfl⟩

end Filters

end Ora.Proto
