import Ora.Library.Pagination
import Ora.Postgres.ActiveExecution
import Ora.Postgres.Listing
import Mathlib.Data.List.Dedup

/-!
# Complete listings

Following the tokens of `list_jobs` lists the matching jobs in order, each
once, as long as the times that pass through a token come back as they were: a
time before the epoch becomes the epoch when it is read or compared, and cannot
be serialized in a filter; other times are rounded.  The exact condition is
`ListingExact`.
-/

namespace Ora.Postgres

open Ora.Backend
open Ora.Library

/-- The requested order, ties are in the order of identifiers. -/
def Precedes (orderBy : JobOrderBy) (first second : JobRow) : Prop :=
  match orderBy with
  | .targetExecutionTimeAsc =>
      first.targetExecutionTime < second.targetExecutionTime ∨
        first.targetExecutionTime = second.targetExecutionTime ∧ first.id < second.id
  | .targetExecutionTimeDesc =>
      second.targetExecutionTime < first.targetExecutionTime ∨
        first.targetExecutionTime = second.targetExecutionTime ∧ first.id < second.id
  | .priorityAsc =>
      first.priority < second.priority ∨ first.priority = second.priority ∧ first.id < second.id
  | .priorityDesc =>
      second.priority < first.priority ∨ first.priority = second.priority ∧ first.id < second.id
  | .createdAtAsc => first.id < second.id
  | .createdAtDesc => second.id < first.id

/-- Whether a time lies in a range, with the bounds as they are given. -/
def insideRange (range : Option TimeRange) (time : Time) : Bool :=
  range.all fun range =>
    (range.start.all fun start => decide (start ≤ time)) &&
      (range.stop.all fun stop => decide (time < stop))

/-- Whether an execution of the job is selected, if executions are. -/
def executionsMatch (store : Store) (filters : JobFilters) (job : JobRow) : Bool :=
  !(filters.executionIds.isSome || filters.executorIds.isSome) ||
    store.executions.rows.any fun row => row.jobId == job.id && executionMatches filters row

/-- The jobs that match the filters, by the time ranges as they are given. -/
def matchingJobs (store : Store) (now : Time) (filters : JobFilters) : List JobRow :=
  store.jobs.rows.filter fun job =>
    executionsMatch store filters job &&
      jobMatches store now { filters with targetExecutionTime := none, createdAt := none } job &&
      insideRange filters.targetExecutionTime job.targetExecutionTime &&
      insideRange filters.createdAt job.createdAt

/-- The jobs whose rows the query selects. -/
def queriedJobs (store : Store) (now : Time) (filters : JobFilters) : List JobRow :=
  store.jobs.rows.filter fun job =>
    executionsMatch store filters job && jobMatches store now filters job

/-- The bounds of a range. -/
def rangeBounds (range : Option TimeRange) : List Time :=
  range.toList.flatMap fun range => range.start.toList ++ range.stop.toList

/-- The bounds of the filters are compared as they are given, at least if they are
not before the epoch. -/
def BoundsExact (filters : JobFilters) : Prop :=
  ∀ bound ∈ rangeBounds filters.targetExecutionTime ++ rangeBounds filters.createdAt,
    0 ≤ bound → systemtimeToTs bound = bound

/-- Following the tokens ends after pages of at most `pageSize` jobs, which
list the matching jobs in the requested order. -/
def ListsAll (store : Store) (clock : Nat → Time) (filters : JobFilters) (orderBy : JobOrderBy)
    (pageSize : Nat) : Prop :=
  ∃ pages, Pages (fun k token => jobDetails store (clock k) filters orderBy pageSize token) 0 none
      pages ∧
    (∀ page ∈ pages, page.length ≤ pageSize) ∧
    ∃ rows : List JobRow, rows.Perm (matchingJobs store (clock 0) filters) ∧
      rows.Pairwise (Precedes orderBy) ∧
      pages.flatten.map JobDetails.id = rows.map JobRow.id

section Orders

variable (orderBy : JobOrderBy)

theorem precedes_asymm (first second : JobRow) (precedes : Precedes orderBy first second) :
    ¬Precedes orderBy second first := by
  cases orderBy <;> simp only [Precedes] at * <;> grind

theorem sortsBefore_iff (first second : JobRow) :
    sortsBefore orderBy first second = true ↔
      ¬Precedes orderBy second first := by
  cases orderBy <;> simp only [sortsBefore, Precedes] <;> grind

theorem precedes_of_not (first second : JobRow) (different : first.id ≠ second.id)
    (other : ¬Precedes orderBy second first) : Precedes orderBy first second := by
  cases orderBy <;> simp only [Precedes] at * <;> grind

def sortedJobs (rows : List JobRow) : List JobRow :=
  rows.insertionSort fun first second => sortsBefore orderBy first second = true

theorem sortedJobs_pairwise {rows : List JobRow} (distinct : (rows.map JobRow.id).Nodup) :
    (sortedJobs orderBy rows).Pairwise (Precedes orderBy) := by
  have total : Std.Total fun first second => sortsBefore orderBy first second = true :=
    ⟨fun first second => by
      rw [sortsBefore_iff, sortsBefore_iff]
      by_contra neither
      rw [not_or, not_not, not_not] at neither
      exact precedes_asymm orderBy _ _ neither.1 neither.2⟩
  have transitive : IsTrans JobRow fun first second => sortsBefore orderBy first second = true :=
    ⟨fun first second third => by
      cases orderBy <;> simp only [sortsBefore] <;> grind⟩
  have sorted := List.pairwise_insertionSort
    (fun first second => sortsBefore orderBy first second = true) rows
  have ids : ((sortedJobs orderBy rows).map JobRow.id).Nodup :=
    ((List.perm_insertionSort _ rows).map JobRow.id).nodup_iff.mpr distinct
  have different := List.pairwise_map.mp ids
  exact (sorted.and different).imp fun {first second} both =>
    precedes_of_not orderBy first second both.2 ((sortsBefore_iff orderBy first second).mp both.1)

theorem mem_sortedJobs {rows : List JobRow} {job : JobRow} :
    job ∈ sortedJobs orderBy rows ↔ job ∈ rows :=
  List.mem_insertionSort _

/-- There is one list in the requested order. -/
theorem eq_sortedJobs {rows sorted : List JobRow} (distinct : (rows.map JobRow.id).Nodup)
    (same : ∀ job, job ∈ sorted ↔ job ∈ rows) (precede : sorted.Pairwise (Precedes orderBy)) :
    sorted = sortedJobs orderBy rows := by
  have irreflexive : Std.Irrefl (Precedes orderBy) :=
    ⟨fun job precedes => precedes_asymm orderBy job job precedes precedes⟩
  have antisymmetric : Std.Antisymm (Precedes orderBy) :=
    ⟨fun first second hfirst hsecond => absurd hsecond (precedes_asymm orderBy first second hfirst)⟩
  exact precede.eq_of_mem_iff (sortedJobs_pairwise orderBy distinct) fun job =>
    (same job).trans (mem_sortedJobs orderBy).symm

theorem afterToken_upward (token : PageToken) (first second : JobRow)
    (precedes : Precedes token.orderBy first second) (after : afterToken token first = true) :
    afterToken token second = true := by
  unfold afterToken at *
  cases order : token.orderBy <;> simp only [order, Precedes] at * <;> grind

end Orders

section Selected

variable (store : Store) (now : Time) (filters : JobFilters)

/-- The query selects the identifier of each queried job once. -/
theorem selectJobIds_spec : (selectJobIds store now filters).Nodup ∧
    ∀ id, id ∈ selectJobIds store now filters ↔
      ∃ job ∈ queriedJobs store now filters, job.id = id := by
  unfold selectJobIds filteredJobs queriedJobs executionsMatch
  cases joined : filters.executionIds.isSome || filters.executorIds.isSome with
  | true =>
      refine ⟨List.nodup_dedup _, fun id => ?_⟩
      simp only [if_true, List.mem_dedup, List.mem_map, List.mem_filter, List.mem_flatMap,
        Bool.not_true, Bool.false_or, Bool.and_eq_true, List.any_eq_true]
      constructor
      · rintro ⟨job, ⟨⟨other, member, row, ⟨present, facts⟩, rfl⟩, selected⟩, rfl⟩
        exact ⟨other, ⟨member, ⟨row, present, facts⟩, selected⟩, rfl⟩
      · rintro ⟨job, ⟨member, ⟨row, present, facts⟩, selected⟩, rfl⟩
        exact ⟨job, ⟨⟨job, member, row, ⟨present, facts⟩, rfl⟩, selected⟩, rfl⟩
  | false =>
      refine ⟨store.jobs.unique.sublist (List.filter_sublist.map _), fun id => ?_⟩
      simp

theorem queriedJobs_distinct : ((queriedJobs store now filters).map JobRow.id).Nodup :=
  store.jobs.unique.sublist (List.filter_sublist.map _)

theorem matchingJobs_distinct : ((matchingJobs store now filters).map JobRow.id).Nodup :=
  store.jobs.unique.sublist (List.filter_sublist.map _)

/-- A page holds the first of the queried jobs after the token, in order. -/
theorem selectPage_eq (token : PageToken) (pageSize : Nat) :
    selectPage store now token pageSize =
      ((sortedJobs token.orderBy (queriedJobs store now token.filters)).filter
        (afterToken token)).take pageSize := by
  obtain ⟨ids, selected⟩ := selectJobIds_spec store now token.filters
  have joined : ∀ job, job ∈ (selectJobIds store now token.filters).flatMap (fun id =>
      store.jobs.rows.filter fun row => row.id == id) ↔
      job ∈ queriedJobs store now token.filters := by
    intro job
    simp only [List.mem_flatMap, List.mem_filter, beq_iff_eq, selected]
    constructor
    · rintro ⟨_, ⟨other, member, rfl⟩, present, same⟩
      have known : other ∈ store.jobs.rows := (List.mem_filter.mp member).1
      rw [store.jobs.eq_of_key present known same]
      exact member
    · exact fun member => ⟨job.id, ⟨job, member, rfl⟩, (List.mem_filter.mp member).1, rfl⟩
  have distinct : (((selectJobIds store now token.filters).flatMap fun id =>
      store.jobs.rows.filter fun row => row.id == id).map JobRow.id).Nodup := by
    rw [List.map_flatMap, List.nodup_flatMap]
    refine ⟨fun id _ => store.jobs.unique.sublist (List.filter_sublist.map _), ?_⟩
    refine ids.imp fun {first second} different => ?_
    refine List.disjoint_left.mpr ?_
    intro id hfirst hsecond
    simp only [List.mem_map, List.mem_filter, beq_iff_eq] at hfirst hsecond
    obtain ⟨row, ⟨_, rfl⟩, rfl⟩ := hfirst
    obtain ⟨other, ⟨_, rfl⟩, same⟩ := hsecond
    exact different same.symm
  refine congrArg (List.take pageSize)
    (eq_sortedJobs token.orderBy (distinct.sublist (List.filter_sublist.map _)) ?_ ?_).symm
  · intro job
    rw [List.mem_filter, List.mem_filter, mem_sortedJobs, joined]
  · exact (sortedJobs_pairwise token.orderBy
      (queriedJobs_distinct store now token.filters)).filter _

/-- Without pending reasons the status of a job does not depend on the time. -/
theorem jobMatches_clock (other : Time) (noReasons : filters.pendingReasons = none) (job : JobRow) :
    jobMatches store now filters job = jobMatches store other filters job := by
  have status : statusFilter store now filters.executionStatuses none job =
      statusFilter store other filters.executionStatuses none job := by
    have pending : ∀ both, pendingCondition now both both = pendingCondition other both both := by
      intro both
      cases both <;> rfl
    simp only [statusFilter, Option.all_none, Bool.and_true, pending]
  unfold jobMatches
  rw [noReasons, status]

theorem queriedJobs_clock (other : Time) (noReasons : filters.pendingReasons = none) :
    queriedJobs store now filters = queriedJobs store other filters := by
  unfold queriedJobs
  simp only [jobMatches_clock store now filters other noReasons]

/-- The conditions on the times, apart from the others. -/
theorem jobMatches_times (job : JobRow) :
    jobMatches store now filters job =
      (jobMatches store now { filters with targetExecutionTime := none, createdAt := none } job &&
        withinRange filters.targetExecutionTime job.targetExecutionTime &&
        withinRange filters.createdAt job.createdAt) := by
  have anywhere : ∀ time, withinRange none time = true := fun _ => rfl
  simp only [jobMatches, anywhere, Bool.and_true]
  ac_rfl

theorem withinRange_of_serializable {range : Option TimeRange}
    (exactly : ∀ bound ∈ rangeBounds range, 0 ≤ bound → systemtimeToTs bound = bound)
    (serializable : rangeSerializable range = true) (time : Time) :
    withinRange range time = insideRange range time := by
  cases range with
  | none => rfl
  | some range =>
      obtain ⟨start, stop⟩ := range
      simp only [rangeSerializable, Option.all_some, Bool.and_eq_true] at serializable
      have bound : ∀ (bound : Option Time) (condition : Time → Bool),
          timeSerializable bound = true →
          (∀ given ∈ bound.toList, given ∈ rangeBounds (some ⟨start, stop⟩)) →
          (bound.all fun bound => condition (systemtimeToTs bound)) = bound.all condition := by
        intro bound condition allowed listed
        cases bound with
        | none => rfl
        | some bound =>
            rw [Option.all_some, Option.all_some, exactly bound (listed bound (by simp))
              (by simpa [timeSerializable] using allowed)]
      simp only [withinRange, insideRange, Option.all_some]
      rw [bound start (fun start => decide (start ≤ time)) serializable.1
          fun _ member => by simp [rangeBounds, Option.mem_toList.mp member],
        bound stop (fun stop => decide (time < stop)) serializable.2
          fun _ member => by simp [rangeBounds, Option.mem_toList.mp member]]

/-- Filters without times before the epoch select the matching jobs if their times
are exact. -/
theorem queriedJobs_of_serializable (exactly : BoundsExact filters)
    (serializable : filtersSerializable filters = true) :
    queriedJobs store now filters = matchingJobs store now filters := by
  rw [filtersSerializable, Bool.and_eq_true] at serializable
  unfold queriedJobs matchingJobs
  refine List.filter_congr fun job _ => ?_
  rw [jobMatches_times,
    withinRange_of_serializable (fun bound member => exactly bound (List.mem_append_left _ member))
      serializable.1,
    withinRange_of_serializable (fun bound member => exactly bound (List.mem_append_right _ member))
      serializable.2, Bool.and_assoc, Bool.and_assoc, Bool.and_assoc]

end Selected

/-- The token after a job. -/
def rowToken (filters : JobFilters) (orderBy : JobOrderBy) (job : JobRow) : PageToken where
  lastJobId := some job.id
  lastTargetExecutionTime := some (systemtimeFromTs job.targetExecutionTime)
  lastPriority := some job.priority
  filters := filters
  orderBy := orderBy

theorem rowToken_serializable {filters : JobFilters} (serializable : filtersSerializable filters = true)
    (orderBy : JobOrderBy) (job : JobRow) : (rowToken filters orderBy job).serializable = true := by
  have read : 0 ≤ systemtimeFromTs job.targetExecutionTime := systemtimeFromTs_nonneg _
  simp [PageToken.serializable, rowToken, timeSerializable, serializable, read]

/-- The queried jobs in the requested order, with the tokens after them. -/
def jobKeyset (store : Store) (now : Time) (filters : JobFilters) (orderBy : JobOrderBy) :
    Keyset JobRow JobRow where
  rows := sortedJobs orderBy (queriedJobs store now filters)
  before := Precedes orderBy
  asymm := precedes_asymm orderBy
  sorted := sortedJobs_pairwise orderBy (queriedJobs_distinct store now filters)
  beyond last := afterToken (rowToken filters orderBy last)
  upward last first second precedes :=
    afterToken_upward (rowToken filters orderBy last) first second precedes
  cursor job := job

section Follow

variable {store : Store} {now : Time} {filters : JobFilters} {orderBy : JobOrderBy} {pageSize : Nat}

/-- A request with the token of a row is a request to the keyset. -/
theorem jobDetails_fetch (serializable : filtersSerializable filters = true)
    (token : Option JobRow) :
    (jobDetails store now filters orderBy pageSize
        (token.map fun job => ⟨rowToken filters orderBy job,
          rowToken_serializable serializable orderBy job⟩)).map
        (fun result => (result.1.map JobDetails.id, result.2)) =
      some ((((jobKeyset store now filters orderBy).fetch pageSize token).1.map JobRow.id),
        (((jobKeyset store now filters orderBy).fetch pageSize token).2.map fun job =>
          ⟨rowToken filters orderBy job, rowToken_serializable serializable orderBy job⟩)) := by
  -- the token of the request, with its rows
  obtain ⟨cursor, hcursor, rows⟩ : ∃ cursor : PageToken,
      requestToken filters orderBy (token.map fun job => ⟨rowToken filters orderBy job,
        rowToken_serializable serializable orderBy job⟩) = cursor ∧
      selectPage store now cursor pageSize =
        ((jobKeyset store now filters orderBy).remaining token).take pageSize ∧
      ∀ job, cursor.advance (rowDetails store now job) = rowToken filters orderBy job := by
    cases token with
    | none =>
        refine ⟨_, rfl, ?_, fun job => rfl⟩
        rw [selectPage_eq]
        congr 1
        refine List.filter_eq_self.mpr fun job _ => ?_
        cases orderBy <;> rfl
    | some last =>
        exact ⟨_, rfl, selectPage_eq .., fun job => rfl⟩
  unfold jobDetails
  rw [hcursor]
  simp only [rows.1, List.getLast?_map, List.length_map, Keyset.fetch]
  generalize ((jobKeyset store now filters orderBy).remaining token).take pageSize = page
  cases last : page.getLast? with
  | none =>
      obtain rfl := List.getLast?_eq_none_iff.mp last
      simp
  | some job =>
      by_cases full : pageSize ≤ page.length
      · simp only [Option.map_some, full, if_true, rows.2, PageToken.encode?,
          dif_pos (rowToken_serializable serializable orderBy job), jobKeyset, List.map_map]
        rfl
      · simp only [Option.map_some, full, if_false, List.map_map, Option.map_none]
        rfl

/-- A request of a run of requests, which select the same jobs. -/
theorem jobDetails_agree (clock : Nat → Time)
    (same : ∀ k, queriedJobs store (clock k) filters = queriedJobs store (clock 0) filters)
    (serializable : filtersSerializable filters = true) (k : Nat) (token : Option JobRow) :
    (jobDetails store (clock k) filters orderBy pageSize
        (token.map fun job => ⟨rowToken filters orderBy job,
          rowToken_serializable serializable orderBy job⟩)).map
        (fun result => (result.1.map JobDetails.id, result.2)) =
      (some ((jobKeyset store (clock 0) filters orderBy).fetch pageSize token)).map fun result =>
        (result.1.map JobRow.id, result.2.map fun job =>
          ⟨rowToken filters orderBy job, rowToken_serializable serializable orderBy job⟩) := by
  rw [jobDetails_fetch serializable]
  simp only [Option.map_some, Keyset.fetch, Keyset.remaining, jobKeyset, same k]
  rfl

end Follow

/-- The token after a job selects the jobs that follow it: its time comes back as
it was, or passes over no job that follows. -/
def TokenExact (jobs : List JobRow) (orderBy : JobOrderBy) (job : JobRow) : Prop :=
  let time := cursorTime job.targetExecutionTime
  match orderBy with
  | .targetExecutionTimeAsc =>
      time = job.targetExecutionTime ∨ job.targetExecutionTime < time ∧ ∀ other ∈ jobs,
        Precedes .targetExecutionTimeAsc job other →
          time < other.targetExecutionTime ∨ other.targetExecutionTime = time ∧ job.id < other.id
  | .targetExecutionTimeDesc =>
      time = job.targetExecutionTime ∨ time < job.targetExecutionTime ∧ ∀ other ∈ jobs,
        Precedes .targetExecutionTimeDesc job other →
          other.targetExecutionTime < time ∨ other.targetExecutionTime = time ∧ job.id < other.id
  | _ => True

/-- Every job that ends a full page has an exact token. -/
def TokensExact (jobs : List JobRow) (orderBy : JobOrderBy) (pageSize : Nat) : Prop :=
  ∀ k job, (sortedJobs orderBy jobs)[(k + 1) * pageSize - 1]? = some job →
    TokenExact jobs orderBy job

/-- The condition under which a listing is complete: every job that ends a full
page has an exact token.  Filters with a time before the epoch have no token,
so that the matching jobs are on one partial page, and they have to be those
that match with the epoch in its place. -/
def ListingExact (store : Store) (now : Time) (filters : JobFilters) (orderBy : JobOrderBy)
    (pageSize : Nat) : Prop :=
  if filtersSerializable filters = true then
    TokensExact (matchingJobs store now filters) orderBy pageSize
  else
    queriedJobs store now filters = matchingJobs store now filters ∧
      (matchingJobs store now filters).length < pageSize

/-- Following the tokens ends after pages of at most `pageSize` jobs, which list
these jobs in the requested order. -/
def ListsInOrder (store : Store) (clock : Nat → Time) (filters : JobFilters)
    (orderBy : JobOrderBy) (pageSize : Nat) (jobs : List JobRow) : Prop :=
  ∃ pages, Pages (fun k token => jobDetails store (clock k) filters orderBy pageSize token) 0 none
      pages ∧
    (∀ page ∈ pages, page.length ≤ pageSize) ∧
    pages.flatten.map JobDetails.id = (sortedJobs orderBy jobs).map JobRow.id

section Complete

variable {store : Store} {now : Time} {filters : JobFilters} {orderBy : JobOrderBy} {pageSize : Nat}

theorem exact_iff_tokenExact {job : JobRow}
    (member : job ∈ queriedJobs store now filters) :
    (jobKeyset store now filters orderBy).Exact job ↔
      TokenExact (queriedJobs store now filters) orderBy job := by
  have rows : ∀ other, other ∈ (jobKeyset store now filters orderBy).rows ↔
      other ∈ queriedJobs store now filters := fun other => mem_sortedJobs orderBy
  have exact' : (jobKeyset store now filters orderBy).Exact job ↔
      ∀ other ∈ queriedJobs store now filters,
        afterToken (rowToken filters orderBy job) other = true ↔ Precedes orderBy job other :=
    forall_congr' fun other => by rw [rows]; rfl
  rw [exact']
  generalize time : cursorTime job.targetExecutionTime = cursor
  have read : systemtimeToTs (systemtimeFromTs job.targetExecutionTime) = cursor := time
  cases orderBy with
  | targetExecutionTimeAsc =>
      simp only [afterToken, rowToken, TokenExact, Precedes, read, time, Bool.or_eq_true,
        Bool.and_eq_true, decide_eq_true_eq, beq_iff_eq]
      constructor
      · intro same
        have own := same job member
        grind
      · rintro (exactly | ⟨later, following⟩) other otherMember
        · grind
        · have next := following other otherMember
          grind
  | targetExecutionTimeDesc =>
      simp only [afterToken, rowToken, TokenExact, Precedes, read, time, Bool.or_eq_true,
        Bool.and_eq_true, decide_eq_true_eq, beq_iff_eq]
      constructor
      · intro same
        have own := same job member
        grind
      · rintro (exactly | ⟨earlier, following⟩) other otherMember
        · grind
        · have next := following other otherMember
          grind
  | priorityAsc =>
      simp only [afterToken, rowToken, TokenExact, Precedes, iff_true]
      grind
  | priorityDesc =>
      simp only [afterToken, rowToken, TokenExact, Precedes, iff_true]
      grind
  | createdAtAsc => simp [afterToken, rowToken, TokenExact, Precedes]
  | createdAtDesc => simp [afterToken, rowToken, TokenExact, Precedes]

/-- The requested list is the sorted one. -/
theorem listsAll_iff_inOrder (clock : Nat → Time) :
    ListsAll store clock filters orderBy pageSize ↔
      ListsInOrder store clock filters orderBy pageSize (matchingJobs store (clock 0) filters) := by
  refine exists_congr fun pages => and_congr_right fun _ => and_congr_right fun _ => ?_
  constructor
  · rintro ⟨rows, perm, precede, names⟩
    rw [names, eq_sortedJobs orderBy (matchingJobs_distinct ..) (fun job => perm.mem_iff) precede]
  · intro names
    exact ⟨_, List.perm_insertionSort _ _,
      sortedJobs_pairwise orderBy (matchingJobs_distinct ..), names⟩

/-- Without a time before the epoch in the filters, the queried jobs are listed. -/
theorem listsQueried_iff (clock : Nat → Time) (positive : 0 < pageSize)
    (same : ∀ k, queriedJobs store (clock k) filters = queriedJobs store (clock 0) filters)
    (serializable : filtersSerializable filters = true) :
    ListsInOrder store clock filters orderBy pageSize (queriedJobs store (clock 0) filters) ↔
      TokensExact (queriedJobs store (clock 0) filters) orderBy pageSize := by
  have agree := @jobDetails_agree store filters orderBy pageSize clock same serializable
  have listed := Keyset.pages_iff positive
    (fun k token => (rfl : some ((jobKeyset store (clock 0) filters orderBy).fetch pageSize token) = _))
    0 none (List.suffix_refl _)
  have condition : (jobKeyset store (clock 0) filters orderBy).FullPagesExact pageSize
      ((jobKeyset store (clock 0) filters orderBy).remaining none) ↔
      TokensExact (queriedJobs store (clock 0) filters) orderBy pageSize := by
    refine forall_congr' fun k => forall_congr' fun job => forall_congr' fun found => ?_
    exact exact_iff_tokenExact ((mem_sortedJobs orderBy).mp (List.mem_of_getElem? found))
  rw [← condition, ← listed]
  constructor
  · rintro ⟨pages, follows, _, ids⟩
    obtain ⟨rowPages, rowFollows, names⟩ := Pages.of_rename agree
      (show Pages _ 0 ((none : Option JobRow).map _) pages from follows)
    refine ⟨rowPages, rowFollows, ?_⟩
    have known := Keyset.mem_rows_of_pages (fun _ _ => rfl) rowFollows
    have sameIds : rowPages.flatten.map JobRow.id =
        ((jobKeyset store (clock 0) filters orderBy).rows).map JobRow.id := by
      change _ = (sortedJobs orderBy (queriedJobs store (clock 0) filters)).map JobRow.id
      rw [← ids, List.map_flatten, List.map_flatten, names]
    have inStore : ∀ job ∈ (jobKeyset store (clock 0) filters orderBy).rows,
        job ∈ store.jobs.rows := fun job member =>
      (List.mem_filter.mp ((mem_sortedJobs orderBy).mp member)).1
    rw [← store.jobs.filterMap_find? fun job member => inStore job (known job member), sameIds,
      store.jobs.filterMap_find? inStore]
    rfl
  · rintro ⟨rowPages, rowFollows, complete⟩
    obtain ⟨pages, follows, names⟩ := Pages.rename agree rowFollows
    refine ⟨pages, follows, ?_, ?_⟩
    · intro page member
      have renamed : page.map JobDetails.id ∈ rowPages.map (List.map JobRow.id) := by
        rw [← names]
        exact List.mem_map_of_mem member
      obtain ⟨rowPage, rowMember, same⟩ := List.mem_map.mp renamed
      have length := congrArg List.length same
      rw [List.length_map, List.length_map] at length
      rw [← length]
      exact Keyset.length_le_of_pages (fun _ _ => rfl) rowFollows rowPage rowMember
    · rw [List.map_flatten, names, ← List.map_flatten, complete]
      rfl

/-- The only page of a listing whose filters have a time before the epoch. -/
theorem jobDetails_of_not_serializable (positive : 0 < pageSize)
    (serializable : ¬filtersSerializable filters = true) :
    jobDetails store now filters orderBy pageSize none =
      if (queriedJobs store now filters).length < pageSize then
        some ((sortedJobs orderBy (queriedJobs store now filters)).map (rowDetails store now), none)
      else
        none := by
  have page : selectPage store now (requestToken filters orderBy none) pageSize =
      (sortedJobs orderBy (queriedJobs store now filters)).take pageSize := by
    rw [selectPage_eq]
    congr 1
    refine List.filter_eq_self.mpr fun job _ => ?_
    cases orderBy <;> rfl
  have length : (sortedJobs orderBy (queriedJobs store now filters)).length =
      (queriedJobs store now filters).length := List.length_insertionSort _ _
  unfold jobDetails
  simp only [page, List.getLast?_map, List.length_map, List.length_take, length]
  by_cases short : (queriedJobs store now filters).length < pageSize
  · rw [if_pos short, List.take_of_length_le (by rw [length]; exact Nat.le_of_lt short)]
    cases (sortedJobs orderBy (queriedJobs store now filters)).getLast? with
    | none => rfl
    | some last =>
        simp only [Option.map_some]
        rw [if_neg (by omega)]
  · rw [if_neg short]
    cases last : ((sortedJobs orderBy (queriedJobs store now filters)).take pageSize).getLast? with
    | none =>
        have empty := List.getLast?_eq_none_iff.mp last
        have := congrArg List.length empty
        rw [List.length_take, length, List.length_nil] at this
        omega
    | some job =>
        have unserializable : ¬((requestToken filters orderBy none).advance
            (rowDetails store now job)).serializable = true := by
          simp [PageToken.serializable, PageToken.advance, requestToken, serializable]
        simp only [Option.map_some]
        rw [if_pos (by omega), PageToken.encode?, dif_neg unserializable]
        rfl

theorem listsAll_iff_of_not_serializable (clock : Nat → Time) (positive : 0 < pageSize)
    (serializable : ¬filtersSerializable filters = true) :
    ListsAll store clock filters orderBy pageSize ↔
      ListingExact store (clock 0) filters orderBy pageSize := by
  have first := @jobDetails_of_not_serializable store (clock 0) filters orderBy pageSize positive
    serializable
  have ids : ∀ job : JobRow, (rowDetails store (clock 0) job).id = job.id := fun _ => rfl
  rw [listsAll_iff_inOrder, ListingExact, if_neg serializable]
  constructor
  · rintro ⟨pages, follows, _, names⟩
    by_cases short : (queriedJobs store (clock 0) filters).length < pageSize
    · rw [if_pos short] at first
      obtain rfl := follows.unique (.last first)
      have same : sortedJobs orderBy (matchingJobs store (clock 0) filters) =
          sortedJobs orderBy (queriedJobs store (clock 0) filters) := by
        simp only [List.flatten_singleton, List.map_map, Function.comp_def, ids] at names
        have inStore : ∀ job ∈ sortedJobs orderBy (matchingJobs store (clock 0) filters),
            job ∈ store.jobs.rows := fun job member =>
          (List.mem_filter.mp ((mem_sortedJobs orderBy).mp member)).1
        have queriedInStore : ∀ job ∈ sortedJobs orderBy (queriedJobs store (clock 0) filters),
            job ∈ store.jobs.rows := fun job member =>
          (List.mem_filter.mp ((mem_sortedJobs orderBy).mp member)).1
        rw [← store.jobs.filterMap_find? inStore, ← names,
          store.jobs.filterMap_find? queriedInStore]
      have queried : queriedJobs store (clock 0) filters = matchingJobs store (clock 0) filters := by
        refine List.filter_congr fun job member => ?_
        have selected : job ∈ queriedJobs store (clock 0) filters ↔
            job ∈ matchingJobs store (clock 0) filters := by
          rw [← mem_sortedJobs orderBy, ← same, mem_sortedJobs]
        simp only [queriedJobs, matchingJobs, List.mem_filter, member, true_and] at selected
        rwa [Bool.eq_iff_iff]
      exact ⟨queried, queried ▸ short⟩
    · rw [if_neg short] at first
      cases follows with
      | last fetched =>
          rw [first] at fetched
          cases fetched
      | more fetched _ =>
          rw [first] at fetched
          cases fetched
  · rintro ⟨queried, short⟩
    rw [queried, if_pos short] at first
    refine ⟨_, .last first, ?_, ?_⟩
    · intro page member
      rw [List.mem_singleton.mp member, List.length_map]
      exact Nat.le_of_lt (lt_of_eq_of_lt (List.length_insertionSort _ _) short)
    · simp [ids, Function.comp_def]

/-- Following the tokens of `list_jobs` lists the matching jobs in pages of the
requested size, in order and each once, exactly when no time before the epoch
passes through a token or a filter in a way that matters (`ListingExact`). -/
theorem listsAll_iff_listingExact (clock : Nat → Time) (positive : 0 < pageSize)
    (noReasons : filters.pendingReasons = none) (exactly : BoundsExact filters) :
    ListsAll store clock filters orderBy pageSize ↔
      ListingExact store (clock 0) filters orderBy pageSize := by
  by_cases serializable : filtersSerializable filters = true
  · have same (k : Nat) := queriedJobs_clock store (clock k) filters (clock 0) noReasons
    have queried := queriedJobs_of_serializable store (clock 0) filters exactly serializable
    rw [listsAll_iff_inOrder, ListingExact, if_pos serializable, ← queried]
    exact listsQueried_iff clock positive same serializable
  · exact listsAll_iff_of_not_serializable clock positive serializable

end Complete

/-- Three jobs due in the last seconds before the epoch. -/
def beforeEpoch : Store :=
  let due (time : Time) : NewJob := ⟨{ (plainJob 0).job with targetExecutionTime := time }, none⟩
  (Operation.apply Store.empty (.addJobs 0 (fun _ => 0)
    [due (-3000000000), due (-2000000000), due (-1000000000)] none)).getD Store.empty

theorem listsAll_beforeEpoch : ListsAll beforeEpoch (fun _ => 0) {} .createdAtDesc 1 :=
  (listsAll_iff_listingExact (fun _ => 0) Nat.one_pos rfl (fun _ bound => by cases bound)).mpr (by
    rw [ListingExact, if_pos (by decide)]
    exact fun _ _ _ => trivial)

/-- Ascending by time, the token after the first job skips the other two. -/
theorem not_listsAll_beforeEpoch :
    ¬∀ (store : Store) (clock : Nat → Time) (filters : JobFilters) (orderBy : JobOrderBy)
      (pageSize : Nat), 0 < pageSize → filters.pendingReasons = none →
      ListsAll store clock filters orderBy pageSize := by
  intro claim
  obtain ⟨pages, follows, _, rows, perm, _, names⟩ :=
    claim beforeEpoch (fun _ => 0) {} .targetExecutionTimeAsc 1 Nat.one_pos rfl
  have collected : (collect (fun k token => jobDetails beforeEpoch ((fun _ => 0 : Nat → Time) k) {}
      .targetExecutionTimeAsc 1 token) 2 0 none).map
        (fun pages => pages.flatten.map JobDetails.id) = some [0] := by decide
  obtain ⟨listed, done, ids⟩ := Option.map_eq_some_iff.mp collected
  rw [follows.unique (pages_of_collect done), ids] at names
  have three : (matchingJobs beforeEpoch 0 {}).length = 3 := by decide
  have lengths := congrArg List.length names
  rw [List.length_map, perm.length_eq, three] at lengths
  cases lengths

end Ora.Postgres
