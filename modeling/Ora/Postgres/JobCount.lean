import Ora.Postgres.FilterMeaning

/-!
# Status filters and counting jobs

A status filter asks for the status of the latest execution, which is stored
with the job once it is inactive.  `count_jobs` counts the jobs that the pages
of `list_jobs` are selected from.
-/

namespace Ora.Postgres

open Ora.Backend
open Ora.Library

/-- `job_count`, `COUNT(DISTINCT ora.job.id)` if jobs are repeated and `COUNT(*)`
otherwise. -/
def jobCount (store : Store) (now : Time) (filters : JobFilters) : Nat :=
  let (jobs, executionsJoined) := filteredJobs store now filters
  if executionsJoined then
    (jobs.map fun job => job.id).dedup.length
  else
    jobs.length

/-- The execution of the job with the greatest identifier. -/
def Latest (store : Store) (job : JobRow) (row : ExecutionRow) : Prop :=
  row ∈ store.executions.rows ∧ row.jobId = job.id ∧
    ∀ other ∈ store.executions.rows, other.jobId = job.id → other.id ≤ row.id

theorem Latest.unique {store : Store} {job : JobRow} {first second : ExecutionRow}
    (hfirst : Latest store job first) (hsecond : Latest store job second) : first = second :=
  store.executions.eq_of_key hfirst.1 hsecond.1
    (Nat.le_antisymm (hsecond.2.2 first hfirst.1 hfirst.2.1) (hfirst.2.2 second hsecond.1 hsecond.2.1))

/-- The statuses stored with the jobs are those of their latest executions,
active executions are the latest of their jobs. -/
structure LatestStored (store : Store) : Prop where
  unique : ∀ first ∈ store.executions.rows, ∀ second ∈ store.executions.rows,
    first.jobId = second.jobId → first.active = true → second.active = true → first = second
  latest : ∀ row ∈ store.executions.rows, row.active = true →
    ∀ other ∈ store.executions.rows, other.jobId = row.jobId → other.id ≤ row.id
  active : ∀ job ∈ store.jobs.rows, job.inactiveStatus = none ↔
    ∃ row ∈ store.executions.rows, row.jobId = job.id ∧ row.active = true
  inactive : ∀ job ∈ store.jobs.rows, ∀ status ∈ job.inactiveStatus,
    ∃ row, Latest store job row ∧ row.status = status

/-- The latest execution has one of the statuses, only pending without any. A
pending one also has one of the reasons. -/
def LatestSelected (store : Store) (now : Time) (statuses : Option (List ExecutionStatus))
    (reasons : Option (List ExecutionPendingReason)) (job : JobRow) : Prop :=
  ∃ row, Latest store job row ∧ row.status ∈ statuses.getD [.pending] ∧
    (row.status = .pending → ∀ listed ∈ reasons,
      (if now < row.targetExecutionTime then .scheduled else .ready) ∈ listed)

section Latest

variable {store : Store} (stored : LatestStored store) {job : JobRow}
  (member : job ∈ store.jobs.rows)

include stored member

theorem LatestStored.terminal {status : ExecutionStatus} (marked : job.inactiveStatus = some status) :
    terminal status = true := by
  obtain ⟨row, latest, rfl⟩ := stored.inactive job member status marked
  rw [← ExecutionRow.not_active_iff, Bool.eq_false_iff]
  intro active
  have unmarked := (stored.active job member).mpr ⟨row, latest.1, latest.2.1, active⟩
  rw [marked] at unmarked
  cases unmarked

/-- The stored status of a job, or that of its active execution, is the status
of its latest execution. -/
theorem LatestStored.hasStatus_iff (now : Time) (reasons : Option (List ExecutionPendingReason))
    (status : ExecutionStatus) : HasStatus store now reasons job status ↔
      ∃ row, Latest store job row ∧ row.status = status ∧
        (row.status = .pending → ∀ listed ∈ reasons,
          (if now < row.targetExecutionTime then .scheduled else .ready) ∈ listed) := by
  constructor
  · rintro (marked | ⟨_, row, present, own, active, rfl, reason⟩)
    · obtain ⟨row, latest, rfl⟩ := stored.inactive job member status marked
      refine ⟨row, latest, rfl, fun pending => ?_⟩
      have finished := stored.terminal member marked
      rw [pending] at finished
      cases finished
    · refine ⟨row, ⟨present, own, fun other known same =>
        stored.latest row present active other known (same.trans own.symm)⟩, rfl, ?_⟩
      intro pending listed given
      simpa [pendingReason, pending] using reason pending listed given
  · rintro ⟨row, latest, rfl, reason⟩
    cases marked : job.inactiveStatus with
    | some status =>
        obtain ⟨other, latest', same⟩ := stored.inactive job member status marked
        rw [latest.unique latest', same]
        exact .inl marked
    | none =>
        obtain ⟨active, present, own, isActive⟩ := (stored.active job member).mp marked
        have same : row = active := latest.unique ⟨present, own, fun other known sameJob =>
          stored.latest active present isActive other known (sameJob.trans own.symm)⟩
        subst same
        refine .inr ⟨marked, row, present, own, isActive, rfl, fun pending listed given => ?_⟩
        simpa [pendingReason, pending] using reason pending listed given

/-- The status filter selects by the latest execution. -/
theorem statusFilter_iff_latest (now : Time) (statuses : Option (List ExecutionStatus))
    (reasons : Option (List ExecutionPendingReason)) :
    statusFilter store now statuses reasons job = true ↔
      LatestSelected store now statuses reasons job := by
  rw [statusFilter_iff (fun status => stored.terminal member) (stored.active job member).mp]
  simp only [stored.hasStatus_iff member, LatestSelected]
  constructor
  · rintro ⟨status, requested, row, latest, rfl, reason⟩
    exact ⟨row, latest, requested, reason⟩
  · rintro ⟨row, latest, requested, reason⟩
    exact ⟨row.status, requested, row, latest, rfl, reason⟩

end Latest

section Count

variable (store : Store) (now : Time) (filters : JobFilters)

theorem jobCount_eq_length_ids :
    jobCount store now filters = (selectJobIds store now filters).length := by
  unfold jobCount selectJobIds
  dsimp only
  split
  · rfl
  · exact (List.length_map _).symm

/-- A job is counted once, also if several of its executions match. -/
theorem jobCount_eq : jobCount store now filters = (queriedJobs store now filters).length := by
  obtain ⟨distinct, selected⟩ := selectJobIds_spec store now filters
  have same : (selectJobIds store now filters).Perm
      ((queriedJobs store now filters).map JobRow.id) :=
    (List.perm_ext_iff_of_nodup distinct (queriedJobs_distinct store now filters)).mpr fun id => by
      rw [selected, List.mem_map]
  rw [jobCount_eq_length_ids, same.length_eq, List.length_map]

end Count

/-- Following the tokens of `list_jobs` ends, and lists `count` distinct jobs. -/
def Enumerates (store : Store) (now : Time) (filters : JobFilters) (orderBy : JobOrderBy)
    (pageSize count : Nat) : Prop :=
  ∃ pages, Pages (fun _ token => jobDetails store now filters orderBy pageSize token) 0 none pages ∧
    (pages.flatten.map JobDetails.id).dedup.length = count

section Enumerates

variable {store : Store} {now : Time} {filters : JobFilters}

/-- The times of the jobs come back as they were from a token. -/
def CursorsExact (jobs : List JobRow) : Prop :=
  ∀ job ∈ jobs, cursorTime job.targetExecutionTime = job.targetExecutionTime

theorem tokensExact_of_cursorsExact {jobs : List JobRow} (exactly : CursorsExact jobs)
    (orderBy : JobOrderBy) (pageSize : Nat) : TokensExact jobs orderBy pageSize := by
  intro k job ends
  have same := exactly job ((mem_sortedJobs orderBy).mp (List.mem_of_getElem? ends))
  cases orderBy with
  | targetExecutionTimeAsc => exact .inl same
  | targetExecutionTimeDesc => exact .inl same
  | _ => trivial

theorem enumerates_of_exact (serializable : filtersSerializable filters = true)
    (exactly : CursorsExact (queriedJobs store now filters))
    (orderBy : JobOrderBy) {pageSize : Nat} (positive : 0 < pageSize) :
    Enumerates store now filters orderBy pageSize (jobCount store now filters) := by
  obtain ⟨pages, follows, _, ids⟩ := (listsQueried_iff (fun _ => now) positive (fun _ => rfl)
    serializable).mpr (tokensExact_of_cursorsExact exactly orderBy pageSize)
  have perm : (sortedJobs orderBy (queriedJobs store now filters)).Perm
      (queriedJobs store now filters) := List.perm_insertionSort _ _
  have distinct : ((sortedJobs orderBy (queriedJobs store now filters)).map JobRow.id).Nodup :=
    (perm.map JobRow.id).nodup_iff.mpr (queriedJobs_distinct store now filters)
  refine ⟨pages, follows, ?_⟩
  rw [ids, distinct.dedup, List.length_map, perm.length_eq, jobCount_eq]

/-- Without a selected job there is one empty page. -/
theorem enumerates_of_nothing (nothing : queriedJobs store now filters = []) (orderBy : JobOrderBy)
    {pageSize : Nat} (positive : 0 < pageSize) :
    Enumerates store now filters orderBy pageSize (jobCount store now filters) := by
  by_cases serializable : filtersSerializable filters = true
  · exact enumerates_of_exact serializable (by simp [CursorsExact, nothing]) orderBy positive
  · have page := @jobDetails_of_not_serializable store now filters orderBy pageSize positive
      serializable
    rw [nothing, List.length_nil, if_pos positive] at page
    refine ⟨_, .last page, ?_⟩
    rw [jobCount_eq, nothing]
    rfl

/-- Filters with a time before the epoch have no token for a full page. -/
theorem serializable_of_enumerates {count : Nat} {orderBy : JobOrderBy}
    (selected : queriedJobs store now filters ≠ [])
    (listed : Enumerates store now filters orderBy 1 count) : filtersSerializable filters = true := by
  by_contra serializable
  have page := @jobDetails_of_not_serializable store now filters orderBy 1 Nat.one_pos serializable
  rw [if_neg (Nat.not_lt.mpr (List.length_pos_of_ne_nil selected))] at page
  obtain ⟨pages, follows, _⟩ := listed
  cases follows with
  | last fetched =>
      rw [page] at fetched
      cases fetched
  | more fetched _ =>
      rw [page] at fetched
      cases fetched

/-- A listing of single jobs that ends has no job beyond its own token and those of
the jobs before it. -/
theorem not_beyond_of_enumerates {count : Nat} {orderBy : JobOrderBy}
    (serializable : filtersSerializable filters = true)
    (listed : Enumerates store now filters orderBy 1 count) {job : JobRow}
    (selected : job ∈ queriedJobs store now filters) :
    ¬∀ other : JobRow, other = job ∨ Precedes orderBy other job →
      afterToken (rowToken filters orderBy other) job = true := by
  intro again
  obtain ⟨pages, follows, _⟩ := listed
  have agree := @jobDetails_agree store filters orderBy 1 (fun _ => now) (fun _ => rfl) serializable
  obtain ⟨rowPages, rowFollows, _⟩ := Pages.of_rename agree
    (show Pages _ 0 ((none : Option JobRow).map _) pages from follows)
  have known : job ∈ (jobKeyset store now filters orderBy).rows :=
    (mem_sortedJobs orderBy).mpr selected
  exact Keyset.not_pages_of_beyond (fun _ _ => rfl) known (fun other _ => again other) rowFollows

/-- A job whose time comes back earlier is listed again and again in ascending order,
one whose time comes back later in descending order. -/
theorem exact_of_enumerates (serializable : filtersSerializable filters = true)
    (listed : ∀ orderBy, Enumerates store now filters orderBy 1 (jobCount store now filters)) :
    CursorsExact (queriedJobs store now filters) := by
  intro job selected
  have read : ∀ other : JobRow,
      systemtimeToTs (systemtimeFromTs other.targetExecutionTime) =
        cursorTime other.targetExecutionTime := fun _ => rfl
  rcases Int.lt_trichotomy (cursorTime job.targetExecutionTime) job.targetExecutionTime with
    earlier | same | later
  · refine absurd (fun other upTo => ?_)
      (not_beyond_of_enumerates serializable (listed .targetExecutionTimeAsc) selected)
    have before : other.targetExecutionTime ≤ job.targetExecutionTime := by
      obtain rfl | earlier | ⟨same, _⟩ := upTo
      · exact Int.le_refl _
      · exact Int.le_of_lt earlier
      · exact Int.le_of_eq same
    have cursor := Int.lt_of_le_of_lt (cursorTime_mono before) earlier
    simp [afterToken, rowToken, read, cursor]
  · exact same
  · refine absurd (fun other upTo => ?_)
      (not_beyond_of_enumerates serializable (listed .targetExecutionTimeDesc) selected)
    have before : job.targetExecutionTime ≤ other.targetExecutionTime := by
      obtain rfl | earlier | ⟨same, _⟩ := upTo
      · exact Int.le_refl _
      · exact Int.le_of_lt earlier
      · exact Int.le_of_eq same.symm
    have cursor := Int.lt_of_lt_of_le later (cursorTime_mono before)
    simp [afterToken, rowToken, read, cursor]

/-- `count_jobs` and the listings of all orders and page sizes agree exactly
when the filters can be serialized and the times come back from their tokens. -/
theorem enumerates_iff :
    (∀ orderBy pageSize, 0 < pageSize →
      Enumerates store now filters orderBy pageSize (jobCount store now filters)) ↔
    queriedJobs store now filters = [] ∨ filtersSerializable filters = true ∧
      CursorsExact (queriedJobs store now filters) := by
  constructor
  · intro listed
    by_cases selected : queriedJobs store now filters = []
    · exact .inl selected
    · have serializable := serializable_of_enumerates selected (listed .createdAtAsc 1 Nat.one_pos)
      exact .inr ⟨serializable,
        exact_of_enumerates serializable fun orderBy => listed orderBy 1 Nat.one_pos⟩
  · rintro (nothing | ⟨serializable, exactly⟩) orderBy pageSize positive
    · exact enumerates_of_nothing nothing orderBy positive
    · exact enumerates_of_exact serializable exactly orderBy positive

end Enumerates

/-- The status filter selects by the status of the latest execution, and
`count_jobs` returns the number of jobs that `list_jobs` enumerates in any order
and by pages of any size exactly when no job is selected, or no time before the
epoch is in the filters and the time of every selected job comes back from its
token as it was. -/
theorem statusFilter_and_jobCount {store : Store} (stored : LatestStored store) (now : Time) :
    (∀ statuses reasons, ∀ job ∈ store.jobs.rows,
      statusFilter store now statuses reasons job = true ↔
        LatestSelected store now statuses reasons job) ∧
    ∀ filters, (∀ orderBy pageSize, 0 < pageSize →
        Enumerates store now filters orderBy pageSize (jobCount store now filters)) ↔
      queriedJobs store now filters = [] ∨ filtersSerializable filters = true ∧
        CursorsExact (queriedJobs store now filters) :=
  ⟨fun statuses reasons _ member => statusFilter_iff_latest stored member now statuses reasons,
    fun _ => enumerates_iff⟩

theorem beforeEpoch_latestStored : LatestStored beforeEpoch where
  unique := by decide
  latest := by decide
  active := by decide
  inactive job member status marked := by
    have active : ∀ job ∈ beforeEpoch.jobs.rows, job.inactiveStatus = none := by decide
    rw [active job member] at marked
    cases marked

theorem statusFilter_and_jobCount_beforeEpoch :
    ∃ job ∈ beforeEpoch.jobs.rows, LatestSelected beforeEpoch 0 (some [.pending]) none job := by
  obtain ⟨job, member, selected⟩ : ∃ job ∈ beforeEpoch.jobs.rows,
      statusFilter beforeEpoch 0 (some [.pending]) none job = true := by decide
  exact ⟨job, member, ((statusFilter_and_jobCount beforeEpoch_latestStored 0).1 _ _ job member).mp
    selected⟩

/-- Three jobs are counted, and one is listed in ascending order by single jobs. -/
theorem not_statusFilter_and_jobCount :
    ¬∀ (store : Store) (now : Time) (filters : JobFilters) (orderBy : JobOrderBy) (pageSize : Nat),
      LatestStored store → 0 < pageSize →
        Enumerates store now filters orderBy pageSize (jobCount store now filters) := by
  intro claim
  obtain ⟨pages, follows, count⟩ :=
    claim beforeEpoch 0 {} .targetExecutionTimeAsc 1 beforeEpoch_latestStored Nat.one_pos
  have collected : (collect (fun _ token => jobDetails beforeEpoch 0 {} .targetExecutionTimeAsc 1
      token) 2 0 none).map (fun pages => pages.flatten.map JobDetails.id) = some [0] := by decide
  obtain ⟨listed, done, ids⟩ := Option.map_eq_some_iff.mp collected
  rw [follows.unique (pages_of_collect done), ids] at count
  have counted : jobCount beforeEpoch 0 {} = 3 := by decide
  rw [counted] at count
  cases count

end Ora.Postgres
