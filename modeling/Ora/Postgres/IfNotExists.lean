import Ora.Library.LockedInsert
import Ora.Postgres.ListingPages
import Ora.Postgres.Persistence
import Ora.Postgres.ScheduleLink

/-!
# Adding what does not exist

`add_jobs` and `add_schedules` with `if_not_exists` take an advisory lock for
their kind before they look for existing rows, and hold it until they commit.
No call sees less than all calls before it, so that it inserts only when
nothing that they inserted and that matches its filter is left.
-/

namespace Ora.Postgres

open Ora.Backend
open Ora.Library
open Ora.Library.CheckedInsert (Action Insertion Answer)

structure AddJobsRequest where
  /-- `NOW()` of the transaction. -/
  now : Time
  jobs : List NewJob
  ifNotExists : JobFilters

/-- What the transaction meets: which source rows are applied and the schedules
that were free when they were claimed, they are locked until the commit. -/
structure AddJobsChoice where
  pick : Pick
  free : List ScheduleId

def AddJobsRequest.claimed (request : AddJobsRequest) (choice : AddJobsChoice) : List NewJob :=
  request.jobs.filter fun job => job.scheduleId.all fun id => choice.free.contains id

def addedJobIds : AddedJobs → List JobId
  | .added ids => ids
  | .existing _ => []

/-- Operations other than those that take the lock of jobs. -/
def otherThanJobs : Operation → Bool
  | .addJobs _ _ _ (some _) => false
  | _ => true

/-- `add_jobs` under `IF_NOT_EXISTS_JOBS_LOCK`. -/
def addJobsOnce : CheckedInsert Store AddJobsRequest AddJobsChoice JobId Operation where
  idle request := request.jobs.isEmpty
  check store request := selectJobIds store request.now request.ifNotExists
  insert store request choice :=
    (PostgresBackend.addJobs store request.now choice.pick (request.claimed choice) none).map
      fun added => (added.1, addedJobIds added.2)
  other store operation := if otherThanJobs operation then operation.apply store else none

structure AddSchedulesRequest where
  /-- `NOW()` of the transaction. -/
  now : Time
  schedules : List ScheduleDefinition
  ifNotExists : ScheduleFilters

def addedScheduleIds : AddedSchedules → List ScheduleId
  | .added ids => ids
  | .existing _ => []

/-- Operations other than those that take the lock of schedules. -/
def otherThanSchedules : Operation → Bool
  | .addSchedules _ _ (some _) => false
  | _ => true

/-- `add_schedules` under `IF_NOT_EXISTS_SCHEDULES_LOCK`. -/
def addSchedulesOnce : CheckedInsert Store AddSchedulesRequest Unit ScheduleId Operation where
  idle request := request.schedules.isEmpty
  check store request := selectScheduleIds store request.ifNotExists
  insert store request _ :=
    (PostgresBackend.addSchedules store request.now request.schedules none).map
      fun added => (added.1, addedScheduleIds added.2)
  other store operation := if otherThanSchedules operation then operation.apply store else none

/-- Jobs are added in one step when nothing commits between the check and the insert. -/
theorem addJobs_ifNotExists (store : Store) (request : AddJobsRequest) (choice : AddJobsChoice)
    (free : request.claimed choice = request.jobs)
    (vacant : addJobsOnce.check store request = []) :
    addJobsOnce.insert store request choice =
      (PostgresBackend.addJobs store request.now choice.pick request.jobs
        (some request.ifNotExists)).map fun added => (added.1, addedJobIds added.2) := by
  change (PostgresBackend.addJobs store request.now choice.pick (request.claimed choice) none).map
    _ = _
  change selectJobIds store request.now request.ifNotExists = [] at vacant
  rw [free]
  unfold PostgresBackend.addJobs PostgresBackend.existingJobs
  simp only [vacant]

theorem addSchedules_ifNotExists (store : Store) (request : AddSchedulesRequest)
    (vacant : addSchedulesOnce.check store request = []) :
    addSchedulesOnce.insert store request () =
      (PostgresBackend.addSchedules store request.now request.schedules
        (some request.ifNotExists)).map fun added => (added.1, addedScheduleIds added.2) := by
  change selectScheduleIds store request.ifNotExists = [] at vacant
  change (PostgresBackend.addSchedules store request.now request.schedules none).map _ = _
  unfold PostgresBackend.addSchedules PostgresBackend.existingSchedules
  simp only [vacant]

/-- The filter asks for nothing of the executions of a job. -/
def columnsOnly (filters : JobFilters) : Bool :=
  filters.executorIds.isNone && filters.executionIds.isNone && filters.executionStatuses.isNone &&
    filters.pendingReasons.isNone

theorem columnsOnly_iff {filters : JobFilters} : columnsOnly filters = true ↔
    filters.executorIds = none ∧ filters.executionIds = none ∧ filters.executionStatuses = none ∧
      filters.pendingReasons = none := by
  simp [columnsOnly, and_assoc]

/-- A filter on columns and labels selects a job as long as it is stored. -/
theorem selected_of_kept {store after : Store} (kept : JobsKept store.nextUuid store after)
    {filters : JobFilters} (columns : columnsOnly filters = true) {before now : Time} {job : JobRow}
    (member : job ∈ after.jobs.rows) (issued : job.id < store.nextUuid)
    (selected : job.id ∈ selectJobIds store before filters) :
    job.id ∈ selectJobIds after now filters := by
  obtain ⟨executors, executions, statuses, reasons⟩ := columnsOnly_iff.mp columns
  obtain ⟨known, queried, same⟩ := ((selectJobIds_spec store before filters).2 _).mp selected
  obtain ⟨present, matching⟩ := List.mem_filter.mp queried
  obtain ⟨inserted, insertedPresent, unchanged⟩ := kept.rows job member issued
  have isRow : known = inserted := store.jobs.eq_of_key present insertedPresent
    (same.trans (JobRow.columns_id _ _ unchanged).symm)
  subst isRow
  have labels := kept.labels job member issued
  simp only [JobRow.columns, JobRow.mk.injEq] at unchanged
  obtain ⟨_, created, schedule, type, target, _, _, _, priority, _⟩ := unchanged
  refine ((selectJobIds_spec after now filters).2 _).mpr
    ⟨job, List.mem_filter.mpr ⟨member, ?_⟩, rfl⟩
  simp only [executionsMatch, jobMatches, executors, executions, statuses, reasons, same, created,
    schedule, type, target, priority, Option.isSome_none, Bool.or_self, Bool.not_false,
    Bool.true_or, Bool.true_and, Bool.false_eq_true, if_false, Bool.and_eq_true,
    List.all_eq_true, List.any_eq_true, beq_iff_eq] at matching ⊢
  obtain ⟨⟨⟨⟨columns, labelled⟩, schedules⟩, least⟩, greatest⟩ := matching
  refine ⟨⟨⟨⟨columns, fun filter asked => ?_⟩, schedules⟩, least⟩, greatest⟩
  obtain ⟨label, found, own, denoted⟩ := labelled filter asked
  exact ⟨label, (labels label own).mpr found, own, denoted⟩

theorem selectedSchedule_of_kept {store after : Store}
    (kept : SchedulesKept store.nextUuid store after) {filters : ScheduleFilters}
    (columns : filters.statuses = none) {row : ScheduleRow} (member : row ∈ after.schedules.rows)
    (issued : row.id < store.nextUuid) (selected : row.id ∈ selectScheduleIds store filters) :
    row.id ∈ selectScheduleIds after filters := by
  rw [selectScheduleIds, List.mem_dedup, List.mem_map] at selected ⊢
  obtain ⟨known, queried, same⟩ := selected
  obtain ⟨present, matching⟩ := List.mem_filter.mp queried
  obtain ⟨inserted, insertedPresent, unchanged⟩ := kept.rows row member issued
  have isRow : known = inserted := store.schedules.eq_of_key present insertedPresent
    (same.trans (ScheduleRow.columns_id _ _ unchanged).symm)
  subst isRow
  have labels := kept.labels row member issued
  simp only [ScheduleRow.columns, ScheduleRow.mk.injEq] at unchanged
  obtain ⟨_, created, type, _⟩ := unchanged
  refine ⟨row, List.mem_filter.mpr ⟨member, ?_⟩, rfl⟩
  simp only [scheduleMatches, scheduleStatusMatches, columns, same, created, type, Bool.and_true,
    Bool.and_eq_true, List.all_eq_true, List.any_eq_true, beq_iff_eq] at matching ⊢
  obtain ⟨columns, labelled⟩ := matching
  refine ⟨columns, fun filter asked => ?_⟩
  obtain ⟨label, found, own, denoted⟩ := labelled filter asked
  exact ⟨label, (labels label own).mpr found, own, denoted⟩

/-- The identifiers of new jobs were issued. -/
theorem addedJobIds_issued {store after : Store} {now : Time} {pick : Pick} {jobs : List NewJob}
    {ifNotExists : Option JobFilters} {result : AddedJobs}
    (done : PostgresBackend.addJobs store now pick jobs ifNotExists = some (after, result)) :
    ∀ id ∈ addedJobIds result, id < after.nextUuid := by
  unfold PostgresBackend.addJobs at done
  split at done
  · cases done
    simp [addedJobIds]
  split at done
  · cases done
    simp [addedJobIds]
  simp only [PostgresBackend.admitJobs] at done
  split at done
  · cases done
    simp [addedJobIds]
  · obtain ⟨inserted, insertDone, pair⟩ := Option.map_eq_some_iff.mp done
    cases pair
    intro id member
    obtain ⟨entry, admission, rfl⟩ := List.mem_map.mp member
    have known := (List.of_mem_zip (List.mem_filter.mp admission).1).2
    obtain ⟨_, _, _, _, _, _, _, next⟩ := insertNewJobs_spec insertDone
    obtain ⟨_, _, _, reserved⟩ := claimSchedules_spec (store.nowV7 jobs.length).2 pick
      (PostgresBackend.claims (jobs.zip (store.nowV7 jobs.length).1))
    rw [next, reserved]
    exact Nat.lt_add_right _ (List.mem_range'_1.mp known).2

theorem addedScheduleIds_issued {store after : Store} {now : Time}
    {schedules : List ScheduleDefinition} {ifNotExists : Option ScheduleFilters}
    {result : AddedSchedules}
    (done : PostgresBackend.addSchedules store now schedules ifNotExists = some (after, result)) :
    ∀ id ∈ addedScheduleIds result, id < after.nextUuid := by
  unfold PostgresBackend.addSchedules at done
  split at done
  · cases done
    simp [addedScheduleIds]
  split at done
  · cases done
    simp [addedScheduleIds]
  split at done
  · cases done
  obtain ⟨withRows, rowsDone, done⟩ := Option.bind_eq_some_iff.mp done
  obtain ⟨withLabels, labelsDone, pair⟩ := Option.map_eq_some_iff.mp done
  cases pair
  obtain ⟨_, _, _, next⟩ := Store.insertSchedules?_spec rowsDone
  obtain ⟨_, _, _, labelNext⟩ := Store.insertScheduleLabels?_spec labelsDone
  intro id member
  rw [labelNext, next]
  exact (List.mem_range'_1.mp member).2

theorem addJobsOnce_persists :
    addJobsOnce.Persists StoreKept fun after ids => ∀ id ∈ ids, id < after.nextUuid where
  refl := .refl
  trans _ _ _ first second := first.trans second
  insert store request choice after ids done := by
    obtain ⟨⟨_, result⟩, added, pair⟩ := Option.map_eq_some_iff.mp done
    cases pair
    exact ⟨.addsJobs added, addedJobIds_issued added⟩
  other store operation after done := by
    unfold addJobsOnce at done
    dsimp only at done
    split at done
    · exact .of_apply done
    · cases done

theorem addSchedulesOnce_persists :
    addSchedulesOnce.Persists StoreKept fun after ids => ∀ id ∈ ids, id < after.nextUuid where
  refl := .refl
  trans _ _ _ first second := first.trans second
  insert store request choice after ids done := by
    obtain ⟨⟨_, result⟩, added, pair⟩ := Option.map_eq_some_iff.mp done
    cases pair
    exact ⟨.addsSchedules added, addedScheduleIds_issued added⟩
  other store operation after done := by
    unfold addSchedulesOnce at done
    dsimp only at done
    split at done
    · exact .of_apply done
    · cases done

def jobStored (store : Store) (id : JobId) : Prop :=
  ∃ job ∈ store.jobs.rows, job.id = id

def scheduleStored (store : Store) (id : ScheduleId) : Prop :=
  ∃ row ∈ store.schedules.rows, row.id = id

/-- In every run no matching job or schedule is inserted between the check of a
call and its commit, a call with a filter on columns and labels only inserts
when no matching row of an earlier call is left, and the others return exactly
the rows that exist and match. -/
theorem if_not_exists_no_phantom :
    (∀ state, Reaches addJobsOnce.step (fun _ _ => True) (.initial .empty) state →
      addJobsOnce.AdmitsNoPhantom (fun request => columnsOnly request.ifNotExists = true) jobStored
        state ∧
      ∀ answer ∈ state.answers, ∀ id, id ∈ answer.ids ↔
        ∃ job ∈ queriedJobs answer.snapshot answer.request.now answer.request.ifNotExists,
          job.id = id) ∧
    (∀ state, Reaches addSchedulesOnce.step (fun _ _ => True) (.initial .empty) state →
      addSchedulesOnce.AdmitsNoPhantom (fun request => request.ifNotExists.statuses = none)
        scheduleStored state ∧
      ∀ answer ∈ state.answers, ∀ id, id ∈ answer.ids ↔
        ∃ row ∈ answer.snapshot.schedules.rows,
          scheduleMatches answer.snapshot answer.request.ifNotExists row = true ∧ row.id = id) := by
  constructor
  · intro state run
    have inv := CheckedInsert.lockInvariant_of_reaches addJobsOnce_persists run
    refine ⟨inv.admitsNoPhantom ?_, fun answer member id => ?_⟩
    · rintro store after ids request kept issued columns id inserted matched ⟨job, present, rfl⟩
      exact selected_of_kept kept.jobs columns present (issued _ inserted) matched
    · rw [← (inv.answers answer member).1]
      exact (selectJobIds_spec ..).2 id
  · intro state run
    have inv := CheckedInsert.lockInvariant_of_reaches addSchedulesOnce_persists run
    refine ⟨inv.admitsNoPhantom ?_, fun answer member id => ?_⟩
    · rintro store after ids request kept issued columns id inserted matched ⟨row, present, rfl⟩
      exact selectedSchedule_of_kept kept.schedules columns present (issued _ inserted) matched
    · rw [← (inv.answers answer member).1]
      simp [addSchedulesOnce, selectScheduleIds, and_assoc]

/-- A job of the type if there is none. -/
def ofTypeOnce : AddJobsRequest where
  now := 0
  jobs := [plainJob 0]
  ifNotExists := { jobTypeIds := some ["type"] }

def scheduledOnce : AddSchedulesRequest where
  now := 0
  schedules := [everySecond]
  ifNotExists := { jobTypeIds := some ["type"] }

/-- Two calls are started, the second one waits for the lock. -/
def callsAtOnce {ρ γ : Type} (request : ρ) (choice : γ) : List (Action ρ γ Operation) :=
  [.start request, .start request, .lock 0, .check 0, .commit 0 choice, .lock 1, .check 1,
    .commit 1 choice]

theorem if_not_exists_no_phantom_callsAtOnce :
    (∃ state, Reaches addJobsOnce.step (fun _ _ => True) (.initial .empty) state ∧
      state.insertions.map Insertion.ids = [[0]] ∧ state.answers.map Answer.ids = [[0]] ∧
      addJobsOnce.AdmitsNoPhantom (fun request => columnsOnly request.ifNotExists = true) jobStored
        state) ∧
    ∃ state, Reaches addSchedulesOnce.step (fun _ _ => True) (.initial .empty) state ∧
      state.insertions.map Insertion.ids = [[0]] ∧ state.answers.map Answer.ids = [[0]] ∧
      addSchedulesOnce.AdmitsNoPhantom (fun request => request.ifNotExists.statuses = none)
        scheduleStored state := by
  obtain ⟨state, run, checked⟩ := exists_reaches_of_execute addJobsOnce.step (fun _ _ => True)
    (.initial .empty) (callsAtOnce ofTypeOnce ⟨fun _ => 0, []⟩)
    (fun state => state.insertions.map Insertion.ids == [[0]] &&
      state.answers.map Answer.ids == [[0]]) (by decide)
  obtain ⟨other, otherRun, otherChecked⟩ := exists_reaches_of_execute addSchedulesOnce.step
    (fun _ _ => True) (.initial .empty) (callsAtOnce scheduledOnce ())
    (fun state => state.insertions.map Insertion.ids == [[0]] &&
      state.answers.map Answer.ids == [[0]]) (by decide)
  simp only [Bool.and_eq_true, beq_iff_eq] at checked otherChecked
  exact ⟨⟨state, run, checked.1, checked.2, (if_not_exists_no_phantom.1 state run).1⟩,
    other, otherRun, otherChecked.1, otherChecked.2, (if_not_exists_no_phantom.2 other otherRun).1⟩

/-- The job of the first call is cancelled and deleted before the second one
gets the lock. -/
def deletedBetween : List (Action AddJobsRequest AddJobsChoice Operation) :=
  [.start ofTypeOnce, .start ofTypeOnce, .lock 0, .check 0, .commit 0 ⟨fun _ => 0, []⟩,
    .other (.cancelJobs 1000 1000 (fun _ => 0) {}), .other (.deleteHistory 10 2000),
    .lock 1, .check 1, .commit 1 ⟨fun _ => 0, []⟩]

theorem deletedBetween_adds_twice :
    ¬∀ state, Reaches addJobsOnce.step (fun _ _ => True) (.initial .empty) state →
      ∀ filters, columnsOnly filters = true →
      (∀ call ∈ state.calls, call.request.ifNotExists = filters) →
      (∀ made ∈ state.insertions, ∀ id ∈ made.ids,
        id ∈ selectJobIds made.after made.request.now filters) →
      (state.insertions.filter fun made => !made.ids.isEmpty).length ≤ 1 := by
  intro claim
  obtain ⟨state, run, checked⟩ := exists_reaches_of_execute addJobsOnce.step (fun _ _ => True)
    (.initial .empty) deletedBetween
    (fun state => decide (∀ call ∈ state.calls,
        call.request.ifNotExists = ofTypeOnce.ifNotExists) &&
      decide (∀ made ∈ state.insertions, ∀ id ∈ made.ids,
        id ∈ selectJobIds made.after made.request.now ofTypeOnce.ifNotExists) &&
      (state.insertions.filter fun made => !made.ids.isEmpty).length == 2) (by decide)
  simp only [Bool.and_eq_true, decide_eq_true_eq, beq_iff_eq] at checked
  have once := claim state run ofTypeOnce.ifNotExists (by decide) checked.1.1 checked.1.2
  rw [checked.2] at once
  exact absurd once (by decide)

end Ora.Postgres
