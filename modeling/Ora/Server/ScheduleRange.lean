import Ora.Server.Schedules
import Ora.Server.StoppedSchedules

/-!
# Time ranges of schedules

The jobs of a schedule are not before its start, since no next time is before
the last one and the clock is moved to the start; and they are before its end,
which is compared with every next time.  Both are read from the store, where a
time before the epoch is read as the epoch and others may be read as the next
or the previous fraction of a second.
-/

namespace Ora.Server

open Ora.Backend
open Ora.Library
open Ora.Postgres (Store Pick Operation ScheduleLink StoreKept ScheduleRow JobRow systemtimeFromTs)
open Ora.Postgres.PostgresBackend (pendingSchedule pendingSchedules schedulePending lastJob)

/-- The time is in the range of the schedule. -/
structure InRange (row : ScheduleRow) (time : Time) : Prop where
  start : ∀ start, row.startAfter = some start → start ≤ time
  stop : ∀ stop, row.endBefore = some stop → time < stop

theorem InRange.congr {row other : ScheduleRow} {time : Time} (inRange : InRange row time)
    (same : row.columns = other.columns) : InRange other time := by
  simp only [ScheduleRow.columns, ScheduleRow.mk.injEq] at same
  obtain ⟨_, _, _, _, _, start, stop, _⟩ := same
  exact ⟨start ▸ inRange.start, stop ▸ inRange.stop⟩

namespace SchedulingState

/-- The clock, moved to the start, and the last time are not before the bound. -/
def NotBefore (bound now : Time) (schedule : PendingSchedule) : Prop :=
  bound ≤ aheadOf now schedule.timeRange.start ∧
    ∀ last ∈ schedule.lastTargetExecutionTime, bound ≤ last

instance (bound now : Time) (schedule : PendingSchedule) :
    Decidable (NotBefore bound now schedule) :=
  inferInstanceAs (Decidable (_ ∧ _))

/-- No start is read as an earlier time and no end as a later one where the next
time can be between the two. -/
def boundsSound (state : SchedulingState) (action : Action) : Prop :=
  state.everyFetched (fun systemNow row =>
    let schedule := pendingSchedule systemtimeFromTs state.store row
    (∀ start ∈ row.startAfter,
      start ≤ systemtimeFromTs start ∨ NotBefore start systemNow schedule) ∧
    ∀ stop ∈ row.endBefore,
      systemtimeFromTs stop ≤ stop ∨ NotBefore (systemtimeFromTs stop) systemNow schedule) action

instance (state : SchedulingState) (action : Action) : Decidable (state.boundsSound action) :=
  inferInstanceAs (Decidable (state.everyFetched _ action))

end SchedulingState

section Next

variable {cronexpr : Cronexpr} {now next : Time} {store : Store} {row : ScheduleRow}

/-- The last job of a schedule is in its range, and so is the next one. -/
theorem next_inRange
    (jobs : ∀ job ∈ store.jobs.rows, job.scheduleId = some row.id → InRange row job.targetExecutionTime)
    (starts : ∀ start ∈ row.startAfter, start ≤ systemtimeFromTs start ∨
      SchedulingState.NotBefore start now (pendingSchedule systemtimeFromTs store row))
    (stops : ∀ stop ∈ row.endBefore, systemtimeFromTs stop ≤ stop ∨
      SchedulingState.NotBefore (systemtimeFromTs stop) now
        (pendingSchedule systemtimeFromTs store row))
    (found : nextExecutionTime cronexpr now (pendingSchedule systemtimeFromTs store row) =
      .ok (some next))
    (unpassed : passedEnd (pendingSchedule systemtimeFromTs store row) next = false) :
    InRange row next := by
  constructor
  · intro start given
    rcases starts start given with exactly | ⟨clock, last⟩
    · -- the start as it is read, and then the times of the jobs, are not before it
      refine Int.le_trans exactly (le_nextExecutionTime ?_ ?_ found)
      · simp only [pendingSchedule, given, Option.map_some]
        exact start_le_aheadOf now (systemtimeFromTs start)
      · intro time known
        obtain ⟨job, newest, rfl⟩ := Option.map_eq_some_iff.mp known
        obtain ⟨member, scheduled, _⟩ := Postgres.PostgresBackend.lastJob_eq_some newest
        exact Postgres.systemtimeFromTs_mono ((jobs job member scheduled).start start given)
    · exact le_nextExecutionTime clock last found
  · intro stop given
    simp only [passedEnd, pendingSchedule, given, Option.map_some, Option.any_some,
      decide_eq_false_iff_not, Int.not_le] at unpassed
    rcases stops stop given with exactly | ⟨clock, last⟩
    · exact Int.lt_of_lt_of_le unpassed exactly
    · -- the next time is not before the end as it is read
      exact absurd unpassed (Int.not_lt.mpr (le_nextExecutionTime clock last found))

end Next

/-- A planned job is in the range of its schedule, if it is still stored. -/
structure PlannedInRange (store : Store) (new : NewJob) : Prop where
  issued : ∀ id, new.scheduleId = some id → id < store.nextUuid
  inRange : ∀ row ∈ store.schedules.rows, new.scheduleId = some row.id →
    InRange row new.job.targetExecutionTime

structure RangeInvariant (cronexpr : Cronexpr) (state : SchedulingState) : Prop where
  link : ScheduleLink state.store
  jobs : ∀ job ∈ state.store.jobs.rows, ∀ row ∈ state.store.schedules.rows,
    job.scheduleId = some row.id → InRange row job.targetExecutionTime
  planned : ∀ now batch, state.pass = .adding now batch →
    ∀ new ∈ (plan cronexpr now batch).1, PlannedInRange state.store new
  ended : ∀ id ∈ state.ended, Stopped state.store id

namespace RangeInvariant

variable {cronexpr : Cronexpr} {state after : SchedulingState}

theorem initial : RangeInvariant cronexpr .initial where
  link := .empty
  jobs := by simp [SchedulingState.initial, Store.empty]
  planned _ _ adding := by cases adding
  ended := by simp [SchedulingState.initial]

/-- A schedule that is stored afterwards has the range that it had before. -/
theorem inRange_of_kept {store later : Store} (kept : StoreKept store later) {row : ScheduleRow}
    (member : row ∈ later.schedules.rows) (issued : row.id < store.nextUuid) {time : Time}
    (inRange : ∀ before ∈ store.schedules.rows, before.id = row.id → InRange before time) :
    InRange row time := by
  obtain ⟨before, present, same⟩ := kept.schedules.rows row member issued
  exact (inRange before present (ScheduleRow.columns_id _ _ same)).congr same

theorem planned_kept {store later : Store} (kept : StoreKept store later) {new : NewJob}
    (planned : PlannedInRange store new) : PlannedInRange later new where
  issued id scheduled := Nat.lt_of_lt_of_le (planned.issued id scheduled) kept.next
  inRange row member scheduled :=
    inRange_of_kept kept member (planned.issued row.id scheduled) fun before present same =>
      planned.inRange before present (same ▸ scheduled)

/-- The jobs after an operation are those before or planned ones. -/
theorem jobs_kept (inv : RangeInvariant cronexpr state) {later : Store}
    (kept : StoreKept state.store later)
    (new : ∀ job ∈ later.jobs.rows, ∀ id, job.scheduleId = some id →
      job.id < state.store.nextUuid ∨ ∃ planned : NewJob,
        PlannedInRange state.store planned ∧ planned.scheduleId = job.scheduleId ∧
          planned.job.targetExecutionTime = job.targetExecutionTime) :
    ∀ job ∈ later.jobs.rows, ∀ row ∈ later.schedules.rows, job.scheduleId = some row.id →
      InRange row job.targetExecutionTime := by
  intro job member row rowMember scheduled
  rcases new job member row.id scheduled with old | ⟨planned, sound, sameSchedule, sameTarget⟩
  · obtain ⟨before, present, same⟩ := kept.jobs.rows job member old
    simp only [JobRow.columns, JobRow.mk.injEq] at same
    obtain ⟨_, _, sameSchedule, _, sameTarget, _⟩ := same
    rw [← sameSchedule] at scheduled
    rw [← sameTarget]
    exact inRange_of_kept kept rowMember (inv.link.issuedLinks before present _ scheduled)
      fun known found same => inv.jobs before present known found (same ▸ scheduled)
  · rw [← sameTarget]
    exact (planned_kept kept sound).inRange row rowMember (sameSchedule.trans scheduled)

theorem ended_step (inv : RangeInvariant cronexpr state) {action : SchedulingState.Action}
    {fromTs : Time → Time} (done : state.step cronexpr fromTs action = some after) :
    ∀ id ∈ state.ended, Stopped after.store id := by
  intro id member
  rcases SchedulingState.step_operation done with same | ⟨operation, applied⟩
  · rw [same]
    exact inv.ended id member
  · exact (inv.ended id member).step applied

/-- An operation that adds no job to a schedule. -/
theorem perform (inv : RangeInvariant cronexpr state) {operation : Operation} {later : Store}
    (outside : SchedulingState.unscheduled operation = true)
    (done : operation.apply state.store = some later) :
    RangeInvariant cronexpr { state with store := later } where
  link := inv.link.step done
  jobs := inv.jobs_kept (.of_apply done) fun _ member _ scheduled =>
    .inl (unscheduled_known inv.link outside done member scheduled)
  planned now batch adding new member :=
    planned_kept (.of_apply done) (inv.planned now batch adding new member)
  ended id member := (inv.ended id member).step done

/-- A step of the loop that leaves the store alone. -/
theorem pass (inv : RangeInvariant cronexpr state) {pass : Pass}
    (planned : ∀ now batch, pass = .adding now batch →
      ∀ new ∈ (plan cronexpr now batch).1, PlannedInRange state.store new) :
    RangeInvariant cronexpr { state with pass := pass } :=
  ⟨inv.link, inv.jobs, planned, inv.ended⟩

theorem fetched (inv : RangeInvariant cronexpr state) {last : Option ScheduleId} {systemNow : Time}
    (fetching : state.pass = .fetching last)
    (sound : state.boundsSound (.fetchPending systemNow)) :
    ∀ new ∈ (plan cronexpr systemNow (pendingSchedules systemtimeFromTs state.store last)).1,
      PlannedInRange state.store new := by
  intro new member
  simp only [SchedulingState.boundsSound, SchedulingState.everyFetched, fetching] at sound
  obtain ⟨schedule, fetched, nextTime, found, unpassed, rfl⟩ := plan_newJobs member
  obtain ⟨row, pending, rfl⟩ := Postgres.PostgresBackend.mem_pendingSchedules fetched
  have present := Postgres.PostgresBackend.mem_pendingRows pending
  obtain ⟨starts, stops⟩ := sound row pending
  have inRange : InRange row nextTime :=
    next_inRange (fun job known scheduled => inv.jobs job known row present scheduled)
      starts stops found unpassed
  refine ⟨fun id scheduled => ?_, fun other known scheduled => ?_⟩
  · cases scheduled
    exact inv.link.issuedSchedules row present
  · have same := state.store.schedules.eq_of_key present known (Option.some.inj scheduled)
    exact same ▸ inRange

theorem added (inv : RangeInvariant cronexpr state) {systemNow now : Time}
    {batch : List PendingSchedule} (adding : state.pass = .adding systemNow batch) {pick : Pick}
    {later : Store} {result : AddedJobs} {created : List CreatedJob}
    (done : Postgres.PostgresBackend.addJobs state.store now pick (plan cronexpr systemNow batch).1
      none = some (later, result)) :
    RangeInvariant cronexpr ⟨later, .stopping systemNow batch, created, state.ended⟩ := by
  have applied : (Operation.addJobs now pick (plan cronexpr systemNow batch).1 none).apply
      state.store = some later := Option.map_eq_some_iff.mpr ⟨_, done, rfl⟩
  refine ⟨inv.link.step applied, ?_, fun _ _ other => (by cases other),
    fun id member => (inv.ended id member).step applied⟩
  refine inv.jobs_kept (.addsJobs done) fun job member _ _ => ?_
  obtain ⟨entries, rows, source⟩ := addJobs_newRows done
  rw [rows, List.mem_append] at member
  rcases member with known | added
  · exact .inl (inv.link.issuedJobs job known)
  · obtain ⟨entry, present, rfl⟩ := List.mem_map.mp added
    exact .inr ⟨entry.1, inv.planned systemNow batch adding entry.1
      (source.subset (List.mem_map_of_mem present)), rfl, rfl⟩

theorem step (inv : RangeInvariant cronexpr state) {action : SchedulingState.Action}
    (sound : state.boundsSound action)
    (done : state.step cronexpr systemtimeFromTs action = some after) :
    RangeInvariant cronexpr after := by
  have ended := inv.ended_step done
  rcases SchedulingState.step_cases done with ⟨operation, store, _, outside, applied, rfl⟩ |
    ⟨pass, rfl, fetched⟩ | ⟨_, _, _, _, _, _, adding, inserted, rfl⟩ |
    ⟨now, systemNow, batch, rfl⟩
  · exact inv.perform outside applied
  · refine inv.pass fun systemNow batch adding => ?_
    obtain ⟨last, fetching, rfl, rfl⟩ := fetched systemNow batch adding
    exact inv.fetched fetching sound
  · exact inv.added adding inserted
  · have applied : (Operation.stopSchedules now
        { scheduleIds := some (plan cronexpr systemNow batch).2 }).apply state.store = some _ := rfl
    have stopped := inv.perform rfl applied
    refine ⟨stopped.link, stopped.jobs, fun _ _ other => (by cases other), ?_⟩
    simp only [List.forall_mem_append]
    exact ⟨ended, fun id named => stopped_of_stopSchedules inv.link now _ named⟩

end RangeInvariant

/-- A schedule every second until its end. -/
def everySecondUntil (immediate : Bool) (endTime : Time) : ScheduleDefinition :=
  { Postgres.everySecond with
    scheduling := .fixedInterval 1000000000 immediate .skip
    timeRange := ⟨none, some endTime⟩ }

/-- The job after a second is cancelled, and the next one is after the end. -/
def endedAfterOne : List SchedulingState.Action :=
  .perform (.addSchedules 0 [everySecondUntil false 1500000000] none) :: passAt 0 ++
    .perform (.cancelJobs 1 1 (fun _ => 0) {}) :: passAt 2000000000

/-- A schedule that ends ten seconds before the epoch gets a job five seconds
before the epoch. -/
def endsBeforeEpoch : List SchedulingState.Action :=
  .perform (.addSchedules 0 [everySecondUntil true (-10000000000)] none) :: passAt (-5000000000)

end Ora.Server
