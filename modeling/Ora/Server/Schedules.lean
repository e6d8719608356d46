import Ora.Postgres.Fetch
import Ora.Postgres.Persistence
import Ora.Postgres.ScheduleLink
import Ora.Server.ScheduleTimes

/-!
# Scheduling new jobs

The passes of `schedule_new_jobs_loop` of `server/schedules.rs`, beside all
other operations of the backend.  A pass fetches batches of pending schedules,
adds the next job of each and stops those that ended; other operations commit
at any time in between.
-/

namespace Ora.Server

open Ora.Backend
open Ora.Library
open Ora.Postgres (Store Pick Operation AddsJobs ScheduleLink StoreKept ScheduleRow JobRow)
open Ora.Postgres.PostgresBackend (pendingSchedules)

def plannedJob (schedule : PendingSchedule) (nextTime : Time) : NewJob where
  job := { schedule.jobTemplate with targetExecutionTime := nextTime }
  scheduleId := some schedule.scheduleId

def passedEnd (schedule : PendingSchedule) (nextTime : Time) : Bool :=
  schedule.timeRange.stop.any fun endTime => decide (endTime ≤ nextTime)

section Plan

variable (cronexpr : Cronexpr)

/-- Determining the next time of a schedule panics. -/
def panics (now : Time) (batch : List PendingSchedule) : Bool :=
  batch.any fun schedule =>
    match nextExecutionTime cronexpr now schedule with
    | .error .panic => true
    | _ => false

/-- The new jobs of a batch and the schedules to stop.  A schedule whose next
time is not determined is left pending. -/
def plan (now : Time) : List PendingSchedule → List NewJob × List ScheduleId
  | [] => ([], [])
  | schedule :: rest =>
      match nextExecutionTime cronexpr now schedule with
      | .ok (some nextTime) =>
          if passedEnd schedule nextTime then
            ((plan now rest).1, schedule.scheduleId :: (plan now rest).2)
          else
            (plannedJob schedule nextTime :: (plan now rest).1, (plan now rest).2)
      | .ok none => ((plan now rest).1, schedule.scheduleId :: (plan now rest).2)
      | .error _ => plan now rest

variable {cronexpr} {now : Time} {batch : List PendingSchedule}

/-- A new job is at the next time of its schedule, which is before the end. -/
theorem plan_newJobs {new : NewJob} (planned : new ∈ (plan cronexpr now batch).1) :
    ∃ schedule ∈ batch, ∃ nextTime, nextExecutionTime cronexpr now schedule = .ok (some nextTime) ∧
      passedEnd schedule nextTime = false ∧ new = plannedJob schedule nextTime := by
  induction batch with
  | nil => cases planned
  | cons schedule rest ih =>
      have member : (∃ nextTime, nextExecutionTime cronexpr now schedule = .ok (some nextTime) ∧
          passedEnd schedule nextTime = false ∧ new = plannedJob schedule nextTime) ∨
          new ∈ (plan cronexpr now rest).1 := by
        unfold plan at planned
        split at planned
        · rename_i nextTime found
          split at planned
          · exact .inr planned
          · rename_i before
            exact (List.mem_cons.mp planned).imp_left fun same =>
              ⟨nextTime, found, Bool.eq_false_iff.mpr before, same⟩
        · exact .inr planned
        · exact .inr planned
      rcases member with found | later
      · exact ⟨schedule, List.mem_cons_self, found⟩
      · obtain ⟨other, present, found⟩ := ih later
        exact ⟨other, List.mem_cons_of_mem _ present, found⟩

/-- Each schedule gets at most one new job. -/
theorem plan_scheduleIds : ((plan cronexpr now batch).1.map NewJob.scheduleId).Sublist
    (batch.map fun schedule => some schedule.scheduleId) := by
  induction batch with
  | nil => exact .slnil
  | cons schedule rest ih =>
      unfold plan
      split
      · split
        · exact ih.cons _
        · exact ih.cons_cons _
      · exact ih.cons _
      · exact ih.cons _

/-- A schedule whose next time is determined gets a job or is stopped. -/
theorem plan_handles {schedule : PendingSchedule} (member : schedule ∈ batch)
    (determined : (nextExecutionTime cronexpr now schedule).isOk = true) :
    (∃ nextTime, plannedJob schedule nextTime ∈ (plan cronexpr now batch).1) ∨
      schedule.scheduleId ∈ (plan cronexpr now batch).2 := by
  induction batch with
  | nil => cases member
  | cons first rest ih =>
      unfold plan
      rcases List.mem_cons.mp member with rfl | later
      · split
        · rename_i nextTime _
          split
          · exact .inr List.mem_cons_self
          · exact .inl ⟨nextTime, List.mem_cons_self⟩
        · exact .inr List.mem_cons_self
        · rename_i error failed
          rw [failed] at determined
          cases determined
      · have handled := ih later
        split
        · split
          · exact handled.imp_right (List.mem_cons_of_mem _)
          · exact handled.imp_left (Exists.imp fun _ => List.mem_cons_of_mem _)
        · exact handled.imp_right (List.mem_cons_of_mem _)
        · exact handled

/-- Nothing panics if all next times are determined. -/
theorem panics_of_determined
    (determined : ∀ schedule ∈ batch, (nextExecutionTime cronexpr now schedule).isOk = true) :
    panics cronexpr now batch = false := by
  rw [panics, List.any_eq_false]
  intro schedule member
  have found := determined schedule member
  split
  · rename_i failed
    rw [failed] at found
    cases found
  · exact Bool.false_ne_true

end Plan

inductive Pass where
  | idle
  | fetching (last : Option ScheduleId)
  | adding (now : Time) (batch : List PendingSchedule)
  | stopping (now : Time) (batch : List PendingSchedule)

/-- The batch whose jobs are added next. -/
def Pass.batch : Pass → List PendingSchedule
  | .adding _ batch => batch
  | _ => []

theorem Pass.adding_of_mem {pass : Pass} {schedule : PendingSchedule}
    (fetched : schedule ∈ pass.batch) : ∃ now, pass = .adding now pass.batch := by
  cases pass with
  | adding now batch => exact ⟨now, rfl⟩
  | _ => cases fetched

/-- The batch after this one is fetched next. -/
def nextFetch (batch : List PendingSchedule) : Pass :=
  .fetching (batch.getLast?.map PendingSchedule.scheduleId)

/-- A job that was created for a schedule, which was pending as given. -/
structure CreatedJob where
  job : JobRow
  schedule : PendingSchedule

structure SchedulingState where
  store : Store
  pass : Pass
  /-- All jobs that were created, in order. -/
  created : List CreatedJob
  /-- All schedules that were stopped as they ended. -/
  ended : List ScheduleId

namespace SchedulingState

def initial : SchedulingState := ⟨.empty, .idle, [], []⟩

def createdOf (batch : List PendingSchedule) (job : JobRow) : Option CreatedJob :=
  (batch.find? fun schedule => job.scheduleId == some schedule.scheduleId).map fun schedule =>
    ⟨job, schedule⟩

/-- The jobs that were added for the schedules of a batch. -/
def newlyCreated (batch : List PendingSchedule) (before after : Store) : List CreatedJob :=
  (after.jobs.rows.drop before.jobs.rows.length).filterMap (createdOf batch)

inductive Action where
  | perform (operation : Operation)
  | startPass
  | fetchPending (systemNow : Time)
  | fetchFails
  | addNewJobs (now : Time) (pick : Pick)
  | addFails
  | stopEnded (now : Time)
  | stopFails

/-- Only the loop adds jobs to schedules, `add_jobs` of the admin service does not. -/
def unscheduled : Operation → Bool
  | .addJobs _ _ jobs _ => jobs.all fun new => new.scheduleId.isNone
  | _ => true

/-- The condition holds of every schedule that the action fetches, with its clock. -/
def everyFetched (state : SchedulingState) (holds : Time → ScheduleRow → Prop) : Action → Prop
  | .fetchPending systemNow =>
      match state.pass with
      | .fetching last =>
          ∀ row ∈ Postgres.PostgresBackend.pendingRows state.store last, holds systemNow row
      | _ => True
  | _ => True

instance (state : SchedulingState) (holds : Time → ScheduleRow → Prop)
    [∀ systemNow row, Decidable (holds systemNow row)] (action : Action) :
    Decidable (state.everyFetched holds action) := by
  unfold everyFetched
  cases action <;> dsimp only <;> try split
  all_goals infer_instance

variable (cronexpr : Cronexpr) (fromTs : Time → Time)

/-- A panic ends the loop with the batch that it has fetched, the other operations
go on without it. -/
def step (state : SchedulingState) : Action → Option SchedulingState
  | .perform operation =>
      if unscheduled operation then
        (operation.apply state.store).map fun store => { state with store := store }
      else
        none
  | .startPass =>
      match state.pass with
      | .idle => some { state with pass := .fetching none }
      | _ => none
  | .fetchPending systemNow =>
      match state.pass with
      | .fetching last =>
          let batch := pendingSchedules fromTs state.store last
          some { state with pass := if batch.isEmpty then .idle else .adding systemNow batch }
      | _ => none
  | .fetchFails =>
      match state.pass with
      | .fetching _ => some { state with pass := .idle }
      | _ => none
  | .addNewJobs now pick =>
      match state.pass with
      | .adding systemNow batch =>
          let newJobs := (plan cronexpr systemNow batch).1
          if panics cronexpr systemNow batch then
            none
          else
            (Postgres.PostgresBackend.addJobs state.store now pick newJobs none).map fun added =>
              { state with
                store := added.1
                pass := .stopping systemNow batch
                created := state.created ++ newlyCreated batch state.store added.1 }
      | _ => none
  | .addFails =>
      match state.pass with
      | .adding systemNow batch =>
          if panics cronexpr systemNow batch then
            none
          else
            some { state with pass := .stopping systemNow batch }
      | _ => none
  | .stopEnded now =>
      match state.pass with
      | .stopping systemNow batch =>
          let stopIds := (plan cronexpr systemNow batch).2
          if stopIds.isEmpty then
            some { state with pass := nextFetch batch }
          else
            let stopped := Postgres.stopSchedules state.store now { scheduleIds := some stopIds }
            some { state with
              store := stopped.1
              pass := nextFetch batch
              ended := state.ended ++ stopped.2 }
      | _ => none
  | .stopFails =>
      match state.pass with
      | .stopping _ batch => some { state with pass := nextFetch batch }
      | _ => none

/-- A step performs an operation that adds no job to a schedule, goes on with
the pass, adds the jobs of a batch or stops its schedules that ended. -/
theorem step_cases {cronexpr : Cronexpr} {fromTs : Time → Time} {state after : SchedulingState}
    {action : Action} (done : state.step cronexpr fromTs action = some after) :
    (∃ operation store, action = .perform operation ∧ unscheduled operation = true ∧
      operation.apply state.store = some store ∧ after = { state with store := store }) ∨
    (∃ pass, after = { state with pass := pass } ∧
      ∀ systemNow batch, pass = .adding systemNow batch → ∃ last, state.pass = .fetching last ∧
        action = .fetchPending systemNow ∧ batch = pendingSchedules fromTs state.store last) ∨
    (∃ systemNow batch now pick store result, state.pass = .adding systemNow batch ∧
      Postgres.PostgresBackend.addJobs state.store now pick (plan cronexpr systemNow batch).1 none =
        some (store, result) ∧
      after = { state with
        store := store
        pass := .stopping systemNow batch
        created := state.created ++ newlyCreated batch state.store store }) ∨
    ∃ now systemNow batch,
      after = { state with
        store := (Postgres.stopSchedules state.store now
          { scheduleIds := some (plan cronexpr systemNow batch).2 }).1
        pass := nextFetch batch
        ended := state.ended ++ (Postgres.stopSchedules state.store now
          { scheduleIds := some (plan cronexpr systemNow batch).2 }).2 } := by
  cases action with
  | perform operation =>
      simp only [step] at done
      split at done
      · rename_i outside
        obtain ⟨store, applied, rfl⟩ := Option.map_eq_some_iff.mp done
        exact .inl ⟨operation, store, rfl, outside, applied, rfl⟩
      · cases done
  | startPass =>
      simp only [step] at done
      split at done <;> cases done
      exact .inr (.inl ⟨_, rfl, fun _ _ other => by cases other⟩)
  | fetchPending systemNow =>
      simp only [step] at done
      split at done
      · rename_i last fetching
        cases done
        refine .inr (.inl ⟨_, rfl, fun clock batch adding => ?_⟩)
        split at adding <;> cases adding
        exact ⟨last, fetching, rfl, rfl⟩
      · cases done
  | fetchFails =>
      simp only [step] at done
      split at done <;> cases done
      exact .inr (.inl ⟨_, rfl, fun _ _ other => by cases other⟩)
  | addNewJobs now pick =>
      simp only [step] at done
      split at done
      · rename_i systemNow batch adding
        split at done
        · cases done
        obtain ⟨⟨store, result⟩, inserted, rfl⟩ := Option.map_eq_some_iff.mp done
        exact .inr (.inr (.inl
          ⟨systemNow, batch, now, pick, store, result, adding, inserted, rfl⟩))
      · cases done
  | addFails =>
      simp only [step] at done
      split at done
      · split at done <;> cases done
        exact .inr (.inl ⟨_, rfl, fun _ _ other => by cases other⟩)
      · cases done
  | stopEnded now =>
      simp only [step] at done
      split at done
      · rename_i systemNow batch _
        split at done <;> cases done
        · exact .inr (.inl ⟨_, rfl, fun _ _ other => by cases other⟩)
        · exact .inr (.inr (.inr ⟨now, systemNow, batch, rfl⟩))
      · cases done
  | stopFails =>
      simp only [step] at done
      split at done <;> cases done
      exact .inr (.inl ⟨_, rfl, fun _ _ other => by cases other⟩)

/-- A step leaves the store alone, performs an operation that adds no job to a
schedule, or adds the jobs of a batch. -/
theorem step_store {cronexpr : Cronexpr} {fromTs : Time → Time} {state after : SchedulingState}
    {action : Action} (done : state.step cronexpr fromTs action = some after) :
    after.store = state.store ∨
    (∃ operation : Operation, operation.apply state.store = some after.store ∧
      unscheduled operation = true ∧ (action = .perform operation ∨
        ∃ now filters, operation = .stopSchedules now filters)) ∨
    ∃ systemNow batch now pick result, state.pass = .adding systemNow batch ∧
      Postgres.PostgresBackend.addJobs state.store now pick (plan cronexpr systemNow batch).1 none =
        some (after.store, result) := by
  rcases step_cases done with ⟨operation, store, same, outside, applied, rfl⟩ | ⟨_, rfl, _⟩ |
    ⟨systemNow, batch, now, pick, store, result, adding, inserted, rfl⟩ |
    ⟨now, systemNow, batch, rfl⟩
  · exact .inr (.inl ⟨operation, applied, outside, .inl same⟩)
  · exact .inl rfl
  · exact .inr (.inr ⟨systemNow, batch, now, pick, result, adding, inserted⟩)
  · exact .inr (.inl ⟨.stopSchedules now { scheduleIds := some (plan cronexpr systemNow batch).2 },
      rfl, rfl, .inr ⟨_, _, rfl⟩⟩)

/-- Every step is one operation on the store or leaves it alone. -/
theorem step_operation {cronexpr : Cronexpr} {fromTs : Time → Time} {state after : SchedulingState}
    {action : Action} (done : state.step cronexpr fromTs action = some after) :
    after.store = state.store ∨ ∃ operation : Operation,
      operation.apply state.store = some after.store := by
  rcases step_store done with same | ⟨operation, applied, _⟩ |
    ⟨systemNow, batch, now, pick, result, _, added⟩
  · exact .inl same
  · exact .inr ⟨operation, applied⟩
  · exact .inr ⟨.addJobs now pick (plan cronexpr systemNow batch).1 none,
      Option.map_eq_some_iff.mpr ⟨_, added, rfl⟩⟩

/-- The batch of a pass was fetched from the store. -/
theorem adding_of_step {cronexpr : Cronexpr} {fromTs : Time → Time} {state after : SchedulingState}
    {action : Action} (done : state.step cronexpr fromTs action = some after) {systemNow : Time}
    {batch : List PendingSchedule} (adding : after.pass = .adding systemNow batch) :
    state.pass = .adding systemNow batch ∨ ∃ last, state.pass = .fetching last ∧
      action = .fetchPending systemNow ∧ batch = pendingSchedules fromTs state.store last := by
  rcases step_cases done with ⟨_, _, _, _, _, rfl⟩ | ⟨_, rfl, fetched⟩ |
    ⟨_, _, _, _, _, _, _, _, rfl⟩ | ⟨_, _, _, rfl⟩
  · exact .inl adding
  · exact .inr (fetched systemNow batch adding)
  · cases adding
  · cases adding

theorem link_step {cronexpr : Cronexpr} {fromTs : Time → Time} {state after : SchedulingState}
    {action : Action} (link : ScheduleLink state.store)
    (done : state.step cronexpr fromTs action = some after) : ScheduleLink after.store := by
  rcases step_operation done with same | ⟨operation, applied⟩
  · rwa [same]
  · exact link.step applied

end SchedulingState

/-- The rows added for new jobs, in their order. -/
theorem addJobs_newRows {store after : Store} {now : Time} {pick : Pick} {jobs : List NewJob}
    {ifNotExists : Option JobFilters} {result : AddedJobs}
    (done : Postgres.PostgresBackend.addJobs store now pick jobs ifNotExists =
      some (after, result)) :
    ∃ entries : List (NewJob × JobId),
      after.jobs.rows = store.jobs.rows ++
        entries.map (Postgres.PostgresBackend.newJobRow now) ∧
      (entries.map Prod.fst).Sublist jobs := by
  unfold Postgres.PostgresBackend.addJobs at done
  split at done
  · cases done
    exact ⟨[], (List.append_nil _).symm, List.nil_sublist _⟩
  split at done
  · cases done
    exact ⟨[], (List.append_nil _).symm, List.nil_sublist _⟩
  obtain ⟨_, claimedJobs, _, _⟩ := Postgres.claimSchedules_spec (store.nowV7 jobs.length).2 pick
    (Postgres.PostgresBackend.claims (jobs.zip (store.nowV7 jobs.length).1))
  simp only [Postgres.PostgresBackend.admitJobs] at done
  split at done
  · cases done
    refine ⟨[], ?_, List.nil_sublist _⟩
    rw [claimedJobs]
    exact (List.append_nil _).symm
  · obtain ⟨inserted, insertDone, pair⟩ := Option.map_eq_some_iff.mp done
    cases pair
    have rows := (Postgres.insertNewJobs_spec insertDone).1
    rw [claimedJobs] at rows
    refine ⟨_, rows, (List.filter_sublist.map Prod.fst).trans ?_⟩
    rw [List.map_fst_zip (by simp [Store.nowV7])]

/-- The rows added for new schedules, in their order. -/
theorem addSchedules_newRows {store after : Store} {now : Time}
    {schedules : List ScheduleDefinition} {ifNotExists : Option ScheduleFilters}
    {result : AddedSchedules}
    (done : Postgres.PostgresBackend.addSchedules store now schedules ifNotExists =
      some (after, result)) :
    ∃ entries : List (ScheduleDefinition × ScheduleId),
      after.schedules.rows = store.schedules.rows ++
        entries.map (Postgres.PostgresBackend.newScheduleRow now) ∧
      ∀ entry ∈ entries, entry.1 ∈ schedules := by
  unfold Postgres.PostgresBackend.addSchedules at done
  split at done
  · cases done
    exact ⟨[], (List.append_nil _).symm, by simp⟩
  split at done
  · cases done
    exact ⟨[], (List.append_nil _).symm, by simp⟩
  split at done
  · cases done
  obtain ⟨withRows, rowsDone, done⟩ := Option.bind_eq_some_iff.mp done
  obtain ⟨withLabels, labelsDone, pair⟩ := Option.map_eq_some_iff.mp done
  cases pair
  obtain ⟨rows, _⟩ := Store.insertSchedules?_spec rowsDone
  obtain ⟨labelRows, _⟩ := Store.insertScheduleLabels?_spec labelsDone
  refine ⟨schedules.zip (List.range' store.nextUuid schedules.length), ?_, ?_⟩
  · rw [labelRows, rows]
  · exact fun entry member => (List.of_mem_zip member).1

/-- A job of a schedule was stored before every operation of others. -/
theorem unscheduled_known {store after : Store} {operation : Operation} (link : ScheduleLink store)
    (outside : SchedulingState.unscheduled operation = true)
    (done : operation.apply store = some after) {job : JobRow} (member : job ∈ after.jobs.rows)
    {id : ScheduleId} (scheduled : job.scheduleId = some id) : job.id < store.nextUuid := by
  by_cases noJobs : ∀ now pick jobs ifNotExists, operation ≠ .addJobs now pick jobs ifNotExists
  · obtain ⟨known, present, same⟩ := Postgres.jobs_known done noJobs job member
    exact same ▸ link.issuedJobs known present
  · simp only [not_forall, not_not] at noJobs
    obtain ⟨now, pick, jobs, ifNotExists, rfl⟩ := noJobs
    obtain ⟨⟨_, result⟩, added, rfl⟩ := Option.map_eq_some_iff.mp done
    obtain ⟨entries, rows, source⟩ := addJobs_newRows added
    rw [rows, List.mem_append] at member
    rcases member with known | added
    · exact link.issuedJobs job known
    · obtain ⟨entry, present, rfl⟩ := List.mem_map.mp added
      have free := List.all_eq_true.mp outside entry.1
        (source.subset (List.mem_map_of_mem present))
      rw [Option.isNone_iff_eq_none] at free
      cases free.symm.trans scheduled

/-- Only schedules that are accepted by `validate_schedule` are added. -/
def addsValidated (cronexpr : Cronexpr) (_ : SchedulingState) : SchedulingState.Action → Prop
  | .perform (.addSchedules now schedules _) => ∀ schedule ∈ schedules,
      (validateSchedule cronexpr now schedule).isOk = true
  | _ => True

instance (cronexpr : Cronexpr) (state : SchedulingState) (action : SchedulingState.Action) :
    Decidable (addsValidated cronexpr state action) := by
  unfold addsValidated
  split <;> infer_instance

/-- No cron expression is supported. -/
def noCron : Cronexpr := fun _ => .error "unsupported"

/-- A pass over a single batch, with the given clock. -/
def passAt (now : Time) : List SchedulingState.Action :=
  [.startPass, .fetchPending now, .addNewJobs now fun _ => 0, .stopEnded now, .fetchPending now]

end Ora.Server
