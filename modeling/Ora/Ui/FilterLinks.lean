import Ora.Ui.QueryFields

/-!
# Links to filtered views

The filters in the query of a link (`util/route.ts`) are those it was made from.
-/

namespace Ora.Ui

open Ora.Backend (Label)
open Ora.Library
open Ora.Proto (ExecutionPendingReason ExecutionStatus ScheduleStatus TimeRange Timestamp)

def executionStatusNames : List (Text × ExecutionStatus) :=
  [("pending".toList, .pending), ("in_progress".toList, .inProgress),
    ("succeeded".toList, .succeeded), ("failed".toList, .failed), ("cancelled".toList, .cancelled)]

def pendingReasonNames : List (Text × ExecutionPendingReason) :=
  [("scheduled".toList, .scheduled), ("ready".toList, .ready)]

def scheduleStatusNames : List (Text × ScheduleStatus) :=
  [("active".toList, .active), ("stopped".toList, .stopped)]

/-- The generated `JobFilters` of the web UI. -/
structure JobFilters where
  jobIds : List String := []
  jobTypeIds : List String := []
  scheduleIds : List String := []
  executorIds : List String := []
  executionIds : List String := []
  executionStatuses : List ExecutionStatus := []
  targetExecutionTime : Option TimeRange := none
  createdAt : Option TimeRange := none
  labels : List LabelFilter := []
  minPriority : Option Int := none
  maxPriority : Option Int := none
  pendingReasons : List ExecutionPendingReason := []
  deriving DecidableEq, Repr

/-- The generated `ScheduleFilters` of the web UI. -/
structure ScheduleFilters where
  scheduleIds : List String := []
  jobTypeIds : List String := []
  statuses : List ScheduleStatus := []
  createdAt : Option TimeRange := none
  labels : List LabelFilter := []
  deriving DecidableEq, Repr

/-- Job filters in URLs, e.g. `?label=project=abc&status=failed`. -/
def jobFilterFields (js : Conversions) : List (FieldEntry JobFilters) :=
  [ ⟨JobFilters.labels, fun value filters => { filters with labels := value },
      "label".toList, Param.labelFilters⟩,
    ⟨JobFilters.jobTypeIds, fun value filters => { filters with jobTypeIds := value },
      "type".toList, Param.stringList⟩,
    ⟨JobFilters.executionStatuses, fun value filters => { filters with executionStatuses := value },
      "status".toList, Param.oneOfList executionStatusNames⟩,
    ⟨JobFilters.pendingReasons, fun value filters => { filters with pendingReasons := value },
      "pending".toList, Param.oneOfList pendingReasonNames⟩,
    ⟨JobFilters.jobIds, fun value filters => { filters with jobIds := value },
      "id".toList, Param.stringList⟩,
    ⟨JobFilters.scheduleIds, fun value filters => { filters with scheduleIds := value },
      "schedule".toList, Param.stringList⟩,
    ⟨JobFilters.executorIds, fun value filters => { filters with executorIds := value },
      "executor".toList, Param.stringList⟩,
    ⟨JobFilters.executionIds, fun value filters => { filters with executionIds := value },
      "execution".toList, Param.stringList⟩,
    ⟨JobFilters.targetExecutionTime,
      fun value filters => { filters with targetExecutionTime := value },
      "target".toList, Param.timeRange js⟩,
    ⟨JobFilters.createdAt, fun value filters => { filters with createdAt := value },
      "created".toList, Param.timeRange js⟩,
    ⟨JobFilters.minPriority, fun value filters => { filters with minPriority := value },
      "min_priority".toList, Param.optionalInt js⟩,
    ⟨JobFilters.maxPriority, fun value filters => { filters with maxPriority := value },
      "max_priority".toList, Param.optionalInt js⟩ ]

/-- Schedule filters in URLs, e.g. `?label=project=abc&status=active`. -/
def scheduleFilterFields (js : Conversions) : List (FieldEntry ScheduleFilters) :=
  [ ⟨ScheduleFilters.labels, fun value filters => { filters with labels := value },
      "label".toList, Param.labelFilters⟩,
    ⟨ScheduleFilters.jobTypeIds, fun value filters => { filters with jobTypeIds := value },
      "type".toList, Param.stringList⟩,
    ⟨ScheduleFilters.statuses, fun value filters => { filters with statuses := value },
      "status".toList, Param.oneOfList scheduleStatusNames⟩,
    ⟨ScheduleFilters.scheduleIds, fun value filters => { filters with scheduleIds := value },
      "id".toList, Param.stringList⟩,
    ⟨ScheduleFilters.createdAt, fun value filters => { filters with createdAt := value },
      "created".toList, Param.timeRange js⟩ ]

theorem executionStatusNames_named : Param.Named executionStatusNames :=
  ⟨by decide, by decide⟩

theorem pendingReasonNames_named : Param.Named pendingReasonNames :=
  ⟨by decide, by decide⟩

theorem scheduleStatusNames_named : Param.Named scheduleStatusNames :=
  ⟨by decide, by decide⟩

theorem jobFilterFields_independent (js : Conversions) : Independent (jobFilterFields js) := by
  constructor
  · intro entry member
    simp only [jobFilterFields, List.mem_cons, List.not_mem_nil, or_false] at member
    obtain rfl | rfl | rfl | rfl | rfl | rfl | rfl | rfl | rfl | rfl | rfl | rfl := member <;>
      exact fun _ => rfl
  · simp [jobFilterFields]

theorem scheduleFilterFields_independent (js : Conversions) :
    Independent (scheduleFilterFields js) := by
  constructor
  · intro entry member
    simp only [scheduleFilterFields, List.mem_cons, List.not_mem_nil, or_false] at member
    obtain rfl | rfl | rfl | rfl | rfl := member <;> exact fun _ => rfl
  · simp [scheduleFilterFields]

theorem jobFilterFields_names (js : Conversions) :
    ((jobFilterFields js).map FieldEntry.name).Nodup := by
  show (["label".toList, "type".toList, "status".toList, "pending".toList, "id".toList,
    "schedule".toList, "executor".toList, "execution".toList, "target".toList, "created".toList,
    "min_priority".toList, "max_priority".toList] : List Text).Nodup
  decide

theorem scheduleFilterFields_names (js : Conversions) :
    ((scheduleFilterFields js).map FieldEntry.name).Nodup := by
  show (["label".toList, "type".toList, "status".toList, "id".toList, "created".toList] :
    List Text).Nodup
  decide

/-- A value of a 32-bit field. -/
def IsInt32 (value : Int) : Prop :=
  -2147483648 ≤ value ∧ value ≤ 2147483647

theorem IsInt32.safe {value : Int} (bounds : IsInt32 value) : value.natAbs ≤ maxSafeInteger := by
  unfold IsInt32 at bounds
  unfold maxSafeInteger
  omega

/-- Some values have a name each and do not come twice. -/
structure AllNamed {S : Type} (names : List (Text × S)) (values : List S) : Prop where
  named : ∀ value ∈ values, ∃ entry ∈ names, entry.2 = value
  distinct : values.Nodup

structure JobFilters.Linkable (filters : JobFilters) : Prop where
  jobIds : ∀ id ∈ filters.jobIds, id ≠ ""
  jobTypeIds : ∀ id ∈ filters.jobTypeIds, id ≠ ""
  scheduleIds : ∀ id ∈ filters.scheduleIds, id ≠ ""
  executorIds : ∀ id ∈ filters.executorIds, id ≠ ""
  executionIds : ∀ id ∈ filters.executionIds, id ≠ ""
  executionStatuses : AllNamed executionStatusNames filters.executionStatuses
  targetExecutionTime : ∀ range, filters.targetExecutionTime = some range → Param.Bounded range
  createdAt : ∀ range, filters.createdAt = some range → Param.Bounded range
  labels : ∀ label ∈ filters.labels, Param.Linkable label
  minPriority : ∀ priority, filters.minPriority = some priority → IsInt32 priority
  maxPriority : ∀ priority, filters.maxPriority = some priority → IsInt32 priority
  pendingReasons : AllNamed pendingReasonNames filters.pendingReasons

structure ScheduleFilters.Linkable (filters : ScheduleFilters) : Prop where
  scheduleIds : ∀ id ∈ filters.scheduleIds, id ≠ ""
  jobTypeIds : ∀ id ∈ filters.jobTypeIds, id ≠ ""
  statuses : AllNamed scheduleStatusNames filters.statuses
  createdAt : ∀ range, filters.createdAt = some range → Param.Bounded range
  labels : ∀ label ∈ filters.labels, Param.Linkable label

section Restored

variable {js : Conversions} (lawful : js.Lawful)

include lawful

theorem jobFilters_restores {filters : JobFilters} (linkable : filters.Linkable) :
    ∀ entry ∈ jobFilterFields js, entry.param.Restores (entry.get {}) (entry.get filters) := by
  intro entry member
  simp only [jobFilterFields, List.mem_cons, List.not_mem_nil, or_false] at member
  obtain rfl | rfl | rfl | rfl | rfl | rfl | rfl | rfl | rfl | rfl | rfl | rfl := member
  · exact Param.labelFilters_restores linkable.labels
  · exact Param.stringList_restores linkable.jobTypeIds
  · exact Param.oneOfList_restores executionStatusNames_named linkable.executionStatuses.named
      linkable.executionStatuses.distinct
  · exact Param.oneOfList_restores pendingReasonNames_named linkable.pendingReasons.named
      linkable.pendingReasons.distinct
  · exact Param.stringList_restores linkable.jobIds
  · exact Param.stringList_restores linkable.scheduleIds
  · exact Param.stringList_restores linkable.executorIds
  · exact Param.stringList_restores linkable.executionIds
  · exact Param.timeRange_restores lawful linkable.targetExecutionTime
  · exact Param.timeRange_restores lawful linkable.createdAt
  · exact Param.optionalInt_restores js fun priority given =>
      (linkable.minPriority priority given).safe
  · exact Param.optionalInt_restores js fun priority given =>
      (linkable.maxPriority priority given).safe

theorem scheduleFilters_restores {filters : ScheduleFilters} (linkable : filters.Linkable) :
    ∀ entry ∈ scheduleFilterFields js,
      entry.param.Restores (entry.get {}) (entry.get filters) := by
  intro entry member
  simp only [scheduleFilterFields, List.mem_cons, List.not_mem_nil, or_false] at member
  obtain rfl | rfl | rfl | rfl | rfl := member
  · exact Param.labelFilters_restores linkable.labels
  · exact Param.stringList_restores linkable.jobTypeIds
  · exact Param.oneOfList_restores scheduleStatusNames_named linkable.statuses.named
      linkable.statuses.distinct
  · exact Param.stringList_restores linkable.scheduleIds
  · exact Param.timeRange_restores lawful linkable.createdAt

end Restored

structure RouteLocation where
  path : String
  query : LocationQuery

/-- Link to the jobs page with the given filters. -/
def jobsLink (js : Conversions) (filters : JobFilters) : Option RouteLocation :=
  (encodeQueryFields (jobFilterFields js) filters []).map fun query => ⟨"/jobs", query⟩

/-- Link to the schedules page with the given filters. -/
def schedulesLink (js : Conversions) (filters : ScheduleFilters) : Option RouteLocation :=
  (encodeQueryFields (scheduleFilterFields js) filters []).map fun query => ⟨"/schedules", query⟩

/-- A link to the jobs with the same labels has filters for exactly these labels. -/
theorem jobsLink_labels (js : Conversions) (lawful : js.Lawful) {labels : List Label}
    (linkable : ∀ label ∈ labelsToFilters labels, Param.Linkable label) :
    ∃ link, jobsLink js { labels := labelsToFilters labels } = some link ∧
      decodeQueryFields (jobFilterFields js) link.query [] {} =
        ({ labels := labelsToFilters labels }, []) := by
  have whole : ({ labels := labelsToFilters labels } : JobFilters).Linkable := by
    constructor <;> first | exact linkable | exact ⟨nofun, List.nodup_nil⟩ | exact nofun
  obtain ⟨query, encoded, decoded⟩ := decodeQueryFields_encodeQueryFields
    (jobFilterFields_independent js) (jobFilterFields_names js) (jobFilters_restores lawful whole) []
  refine ⟨⟨"/jobs", query⟩, ?_, decoded query fun _ _ => rfl⟩
  rw [jobsLink, encoded]
  rfl

/-- The filters of a link are decoded from its query, whatever the prefix of the
parameters, and nothing is reported as invalid. -/
theorem filter_links_round_trip (js : Conversions) (lawful : js.Lawful) (pre : Text) :
    (∀ filters : JobFilters, filters.Linkable →
      ∃ query, encodeQueryFields (jobFilterFields js) filters pre = some query ∧
        ∀ delivered, Delivers (jobFilterFields js) pre query delivered →
          decodeQueryFields (jobFilterFields js) delivered pre {} = (filters, [])) ∧
    (∀ filters : ScheduleFilters, filters.Linkable →
      ∃ query, encodeQueryFields (scheduleFilterFields js) filters pre = some query ∧
        ∀ delivered, Delivers (scheduleFilterFields js) pre query delivered →
          decodeQueryFields (scheduleFilterFields js) delivered pre {} = (filters, [])) :=
  ⟨fun _ linkable => decodeQueryFields_encodeQueryFields (jobFilterFields_independent js)
      (jobFilterFields_names js) (jobFilters_restores lawful linkable) pre,
    fun _ linkable => decodeQueryFields_encodeQueryFields (scheduleFilterFields_independent js)
      (scheduleFilterFields_names js) (scheduleFilters_restores lawful linkable) pre⟩

/-- The conversions of whole milliseconds, nothing else is a number or a date. -/
def millisConversions : Conversions where
  otherNumber _ := none
  otherDate _ := none
  timestampDate := millisOf
  timestampFromDate millis := ⟨millis / 1000, millis % 1000 * 1000000⟩

theorem millisConversions_lawful : millisConversions.Lawful :=
  ⟨fun _ _ => rfl, fun _ _ => rfl⟩

/-- The failed jobs with a label, created from a time on. -/
def failedFilters : JobFilters where
  executionStatuses := [.failed]
  createdAt := some ⟨some ⟨-1, 500000000⟩, none⟩
  labels := [⟨"env", some " a=b"⟩]

theorem failedFilters_linkable : failedFilters.Linkable where
  jobIds := by decide
  jobTypeIds := by decide
  scheduleIds := by decide
  executorIds := by decide
  executionIds := by decide
  executionStatuses := ⟨by decide, by decide⟩
  targetExecutionTime := nofun
  createdAt := by
    intro range given
    cases given
    refine ⟨.inl rfl, fun ts start => ?_, nofun⟩
    cases start
    exact ⟨by decide, by decide, by decide, by decide⟩
  labels := by
    intro label member
    cases List.mem_singleton.mp member
    refine ⟨by decide, by decide, ⟨fun c first => ?_, fun c last => ?_⟩, fun value given => ?_⟩
    · cases first
      rfl
    · cases last
      rfl
    · cases given
      refine ⟨by decide, fun c last => ?_⟩
      cases last
      rfl
  minPriority := nofun
  maxPriority := nofun
  pendingReasons := ⟨by decide, by decide⟩

theorem filter_links_round_trip_failed :
    ∃ query, encodeQueryFields (jobFilterFields millisConversions) failedFilters [] = some query ∧
      decodeQueryFields (jobFilterFields millisConversions) query [] {} = (failedFilters, []) := by
  obtain ⟨query, encoded, decoded⟩ :=
    (filter_links_round_trip millisConversions millisConversions_lawful []).1 failedFilters
      failedFilters_linkable
  exact ⟨query, encoded, decoded query fun _ _ => rfl⟩

/-- Filters that are not read back: a key with an equals sign or a space before it,
a value that ends in a space or is empty, and a range without a bound. -/
def lostFilters : List JobFilters :=
  [ { labels := [⟨"a=b", some "c"⟩] },
    { labels := [⟨" a", none⟩] },
    { labels := [⟨"a", some "b "⟩] },
    { labels := [⟨"a", some ""⟩] },
    { createdAt := some ⟨none, none⟩ } ]

/-- A millisecond after the last valid date, which cannot be written. -/
def undatedFilters : JobFilters where
  createdAt := some ⟨some ⟨8640000000000, 1000000⟩, none⟩

theorem filter_links_round_trip_lost :
    ∃ js : Conversions, js.Lawful ∧ (∀ filters ∈ lostFilters, ∃ query,
      encodeQueryFields (jobFilterFields js) filters [] = some query ∧
      decodeQueryFields (jobFilterFields js) query [] {} ≠ (filters, [])) ∧
    encodeQueryFields (jobFilterFields js) undatedFilters [] = none := by
  refine ⟨millisConversions, millisConversions_lawful, ?_, by decide⟩
  intro filters member
  simp only [lostFilters, List.mem_cons, List.not_mem_nil, or_false] at member
  obtain rfl | rfl | rfl | rfl | rfl := member
  · exact ⟨_, rfl, by decide⟩
  · exact ⟨_, rfl, by decide⟩
  · exact ⟨_, rfl, by decide⟩
  · exact ⟨_, rfl, by decide⟩
  · exact ⟨_, rfl, by decide⟩

end Ora.Ui
