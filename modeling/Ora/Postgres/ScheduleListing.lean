import Ora.Library.Pagination
import Ora.Postgres.Listing
import Mathlib.Data.List.Dedup

/-!
# Listing schedules

`schedule_details` of `query/schedules.rs`.  Schedules are listed by their
identifiers, so that the token after any schedule selects what follows it.
-/

namespace Ora.Postgres

open Ora.Backend
open Ora.Library

structure SchedulePageToken where
  lastScheduleId : Option ScheduleId
  filters : ScheduleFilters
  orderBy : ScheduleOrderBy

/-- The text of a page token, which is read back as the token it was made of. -/
structure NextSchedulePageToken where
  token : SchedulePageToken
  serializable : rangeSerializable token.filters.createdAt = true

/-- `PageToken::to_string`, which panics if the token can not be serialized. -/
def SchedulePageToken.encode? (token : SchedulePageToken) : Option NextSchedulePageToken :=
  if serializable : rangeSerializable token.filters.createdAt = true then
    some ⟨token, serializable⟩
  else
    none

/-- `ORDER BY` of the requested order. -/
def scheduleSortsBefore (orderBy : ScheduleOrderBy) (first second : ScheduleRow) : Bool :=
  match orderBy with
  | .createdAtAsc => decide (first.id ≤ second.id)
  | .createdAtDesc => decide (second.id ≤ first.id)

/-- The condition on the rows after the last schedule of a token. -/
def scheduleAfterToken (token : SchedulePageToken) (row : ScheduleRow) : Bool :=
  match token.orderBy with
  | .createdAtAsc => token.lastScheduleId.all fun id => decide (id < row.id)
  | .createdAtDesc => token.lastScheduleId.all fun id => decide (row.id < id)

def selectSchedulePage (store : Store) (token : SchedulePageToken) (pageSize : Nat) :
    List ScheduleRow :=
  let selected := (selectScheduleIds store token.filters).flatMap fun id =>
    store.schedules.rows.filter fun row => row.id == id
  ((selected.filter (scheduleAfterToken token)).insertionSort fun first second =>
    scheduleSortsBefore token.orderBy first second = true).take pageSize

/-- `collect_labels` for one schedule. -/
def collectScheduleLabels (store : Store) (id : ScheduleId) : List Label :=
  ((store.scheduleLabels.rows.filter fun row => row.scheduleId == id).insertionSort
    fun first second => first.labelKey ≤ second.labelKey).map fun row =>
      ⟨row.labelKey, row.labelValue⟩

def scheduleRowDetails (store : Store) (row : ScheduleRow) : ScheduleDetails where
  id := row.id
  schedule :=
    { scheduling := row.schedulingPolicyJson
      jobTemplate := row.jobTemplateJson
      labels := collectScheduleLabels store row.id
      timeRange := ⟨row.startAfter.map systemtimeFromTs, row.endBefore.map systemtimeFromTs⟩ }
  createdAt := systemtimeFromTs row.createdAt
  status := if row.stoppedAt.isSome then .stopped else .active
  stoppedAt := row.stoppedAt.map systemtimeFromTs

/-- The token of a request, the filters and the order are used without one. -/
def scheduleRequestToken (filters : ScheduleFilters) (orderBy : ScheduleOrderBy)
    (pageToken : Option NextSchedulePageToken) : SchedulePageToken :=
  match pageToken with
  | some next => next.token
  | none => ⟨none, filters, orderBy⟩

/-- One page of schedules, `none` when the request panics. -/
def scheduleDetails (store : Store) (filters : ScheduleFilters) (orderBy : ScheduleOrderBy)
    (pageSize : Nat) (pageToken : Option NextSchedulePageToken) :
    Option (List ScheduleDetails × Option NextSchedulePageToken) :=
  let token := scheduleRequestToken filters orderBy pageToken
  let schedules := (selectSchedulePage store token pageSize).map (scheduleRowDetails store)
  -- A partial page is the last one.
  match schedules.getLast? with
  | none => some (schedules, none)
  | some lastSchedule =>
      if pageSize ≤ schedules.length then
        SchedulePageToken.encode? { token with lastScheduleId := some lastSchedule.id } |>.map
          fun next => (schedules, some next)
      else
        some (schedules, none)

section Listed

variable {store : Store} {filters : ScheduleFilters} {orderBy : ScheduleOrderBy}

def ScheduleOrderBy.Precedes (orderBy : ScheduleOrderBy) (first second : ScheduleRow) : Prop :=
  match orderBy with
  | .createdAtAsc => first.id < second.id
  | .createdAtDesc => second.id < first.id

/-- The schedules that match the filters. -/
def matchingSchedules (store : Store) (filters : ScheduleFilters) : List ScheduleRow :=
  store.schedules.rows.filter (scheduleMatches store filters)

def sortedSchedules (orderBy : ScheduleOrderBy) (rows : List ScheduleRow) : List ScheduleRow :=
  rows.insertionSort fun first second => scheduleSortsBefore orderBy first second = true

theorem schedulePrecedes_asymm (orderBy : ScheduleOrderBy) (first second : ScheduleRow)
    (precedes : ScheduleOrderBy.Precedes orderBy first second) :
    ¬ScheduleOrderBy.Precedes orderBy second first := by
  cases orderBy <;> exact Nat.lt_asymm precedes

theorem sortedSchedules_pairwise (orderBy : ScheduleOrderBy) {rows : List ScheduleRow}
    (distinct : (rows.map ScheduleRow.id).Nodup) :
    (sortedSchedules orderBy rows).Pairwise (ScheduleOrderBy.Precedes orderBy) := by
  have total : Std.Total fun first second => scheduleSortsBefore orderBy first second = true :=
    ⟨fun first second => by
      cases orderBy <;> simp only [scheduleSortsBefore, decide_eq_true_iff]
      · exact Nat.le_total ..
      · exact Nat.le_total ..⟩
  have transitive : IsTrans ScheduleRow fun first second =>
      scheduleSortsBefore orderBy first second = true :=
    ⟨fun first second third => by
      cases orderBy <;> simp only [scheduleSortsBefore, decide_eq_true_iff]
      · exact Nat.le_trans
      · exact fun later earlier => Nat.le_trans earlier later⟩
  have sorted := List.pairwise_insertionSort
    (fun first second => scheduleSortsBefore orderBy first second = true) rows
  have ids : ((sortedSchedules orderBy rows).map ScheduleRow.id).Nodup :=
    ((List.perm_insertionSort _ rows).map ScheduleRow.id).nodup_iff.mpr distinct
  refine (sorted.and (List.pairwise_map.mp ids)).imp fun {first second} both => ?_
  obtain ⟨sorts, differ⟩ := both
  cases orderBy with
  | createdAtAsc => exact Nat.lt_of_le_of_ne (of_decide_eq_true sorts) differ
  | createdAtDesc => exact Nat.lt_of_le_of_ne (of_decide_eq_true sorts) (Ne.symm differ)

theorem eq_sortedSchedules {rows sorted : List ScheduleRow}
    (distinct : (rows.map ScheduleRow.id).Nodup) (same : ∀ row, row ∈ sorted ↔ row ∈ rows)
    (precede : sorted.Pairwise (ScheduleOrderBy.Precedes orderBy)) :
    sorted = sortedSchedules orderBy rows := by
  have irreflexive : Std.Irrefl (ScheduleOrderBy.Precedes orderBy) :=
    ⟨fun row precedes => schedulePrecedes_asymm orderBy row row precedes precedes⟩
  have antisymmetric : Std.Antisymm (ScheduleOrderBy.Precedes orderBy) :=
    ⟨fun first second earlier later =>
      absurd later (schedulePrecedes_asymm orderBy first second earlier)⟩
  exact precede.eq_of_mem_iff (sortedSchedules_pairwise orderBy distinct) fun row =>
    (same row).trans (List.mem_insertionSort _).symm

/-- A page holds the first matching schedules after the token, in order. -/
theorem selectSchedulePage_eq (token : SchedulePageToken) (pageSize : Nat) :
    selectSchedulePage store token pageSize =
      ((sortedSchedules token.orderBy (matchingSchedules store token.filters)).filter
        (scheduleAfterToken token)).take pageSize := by
  have distinct : ((matchingSchedules store token.filters).map ScheduleRow.id).Nodup :=
    store.schedules.unique.sublist (List.filter_sublist.map _)
  have ids : selectScheduleIds store token.filters =
      (matchingSchedules store token.filters).map ScheduleRow.id := List.Nodup.dedup distinct
  have joined : (selectScheduleIds store token.filters).flatMap (fun id =>
      store.schedules.rows.filter fun row => row.id == id) =
      matchingSchedules store token.filters := by
    rw [ids, List.flatMap_map]
    exact store.schedules.flatMap_filter_key fun row member => (List.mem_filter.mp member).1
  unfold selectSchedulePage
  dsimp only
  rw [joined]
  refine congrArg (List.take pageSize) (eq_sortedSchedules
    (distinct.sublist (List.filter_sublist.map _)) ?_ ?_).symm
  · intro row
    rw [List.mem_filter, List.mem_filter]
    exact and_congr_left' (List.mem_insertionSort _)
  · exact (sortedSchedules_pairwise token.orderBy distinct).filter _

/-- The token after a schedule. -/
def scheduleToken (filters : ScheduleFilters) (orderBy : ScheduleOrderBy) (row : ScheduleRow) :
    SchedulePageToken :=
  ⟨some row.id, filters, orderBy⟩

/-- The matching schedules in the requested order, with the tokens after them. -/
def scheduleKeyset (store : Store) (filters : ScheduleFilters) (orderBy : ScheduleOrderBy) :
    Keyset ScheduleRow ScheduleRow where
  rows := sortedSchedules orderBy (matchingSchedules store filters)
  before := ScheduleOrderBy.Precedes orderBy
  asymm := schedulePrecedes_asymm orderBy
  sorted := sortedSchedules_pairwise orderBy
    (store.schedules.unique.sublist (List.filter_sublist.map _))
  beyond last := scheduleAfterToken (scheduleToken filters orderBy last)
  upward last first second precedes after := by
    cases orderBy with
    | createdAtAsc =>
        exact decide_eq_true (Nat.lt_trans (of_decide_eq_true after) precedes)
    | createdAtDesc =>
        exact decide_eq_true (Nat.lt_trans precedes (of_decide_eq_true after))
  cursor row := row

theorem scheduleKeyset_exact (row : ScheduleRow) : (scheduleKeyset store filters orderBy).Exact row := by
  intro other _
  cases orderBy <;> exact decide_eq_true_iff

theorem scheduleToken_encode (serializable : rangeSerializable filters.createdAt = true)
    (row : ScheduleRow) : (scheduleToken filters orderBy row).encode? =
      some ⟨scheduleToken filters orderBy row, serializable⟩ :=
  dif_pos serializable

/-- A request with the token of a row is a request to the keyset. -/
theorem scheduleDetails_fetch (serializable : rangeSerializable filters.createdAt = true)
    (pageSize : Nat) (token : Option ScheduleRow) :
    (scheduleDetails store filters orderBy pageSize
        (token.map fun row => ⟨scheduleToken filters orderBy row, serializable⟩)).map
        (fun result => (result.1.map ScheduleDetails.id, result.2)) =
      some (((scheduleKeyset store filters orderBy).fetch pageSize token).1.map ScheduleRow.id,
        ((scheduleKeyset store filters orderBy).fetch pageSize token).2.map fun row =>
          ⟨scheduleToken filters orderBy row, serializable⟩) := by
  -- the token of the request, with its rows
  obtain ⟨cursor, hcursor, rows, advances⟩ : ∃ cursor : SchedulePageToken,
      scheduleRequestToken filters orderBy (token.map fun row =>
        ⟨scheduleToken filters orderBy row, serializable⟩) = cursor ∧
      selectSchedulePage store cursor pageSize =
        ((scheduleKeyset store filters orderBy).remaining token).take pageSize ∧
      ∀ row : ScheduleRow, ({ cursor with lastScheduleId := some row.id } : SchedulePageToken) =
        scheduleToken filters orderBy row := by
    cases token with
    | none =>
        refine ⟨_, rfl, ?_, fun row => rfl⟩
        rw [selectSchedulePage_eq]
        congr 1
        refine List.filter_eq_self.mpr fun row _ => ?_
        cases orderBy <;> rfl
    | some last => exact ⟨_, rfl, selectSchedulePage_eq .., fun row => rfl⟩
  unfold scheduleDetails
  rw [hcursor]
  simp only [rows, List.getLast?_map, List.length_map, Keyset.fetch]
  generalize ((scheduleKeyset store filters orderBy).remaining token).take pageSize = page
  cases last : page.getLast? with
  | none =>
      obtain rfl := List.getLast?_eq_none_iff.mp last
      simp
  | some row =>
      have same := advances row
      by_cases full : pageSize ≤ page.length
      · have encoded : SchedulePageToken.encode?
            { cursor with lastScheduleId := some (scheduleRowDetails store row).id } =
            some ⟨scheduleToken filters orderBy row, serializable⟩ := by
          rw [← scheduleToken_encode serializable row]
          exact congrArg SchedulePageToken.encode? same
        simp only [Option.map_some, full, if_true, encoded, List.map_map]
        rfl
      · simp only [Option.map_some, full, if_false, List.map_map, Option.map_none]
        rfl

end Listed

end Ora.Postgres
