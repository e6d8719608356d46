import Ora.Server.MissedIntervals
import Ora.Server.ScheduleRange

/-!
# Errors of accepted schedules

A schedule that was accepted has a regular time, but not all of its later times
are supported.  When those end, `next_execution_time` of a cron expression finds
none and that of an interval fails, so that the schedule is neither continued
nor stopped by any later pass.  The search for a cron expression may also panic,
which ends the loop.
-/

namespace Ora.Server

open Ora.Backend
open Ora.Library
open Ora.Postgres (Store Pick Operation ScheduleLink StoreKept ScheduleRow JobRow systemtimeFromTs)
open Ora.Postgres.PostgresBackend (pendingSchedule pendingSchedules schedulePending lastJob)

/-- What `validate_schedule` tells about all later calls. -/
def Accepted (cronexpr : Cronexpr) : SchedulingPolicy → Prop
  | .fixedInterval interval _ _ => interval ≠ 0
  | .cron expression _ _ => ∃ cron, cronexpr expression = .ok cron

section Accepted

variable {cronexpr : Cronexpr} {now : Time}

theorem accepted_of_nextExecutionTime {schedule : PendingSchedule}
    (found : (nextExecutionTime cronexpr now schedule).isOk = true) :
    Accepted cronexpr schedule.scheduling := by
  unfold nextExecutionTime at found
  dsimp only at found
  split at found
  · rename_i interval immediate missed policy
    rw [policy]
    intro zero
    unfold nextFixedInterval at found
    rw [if_pos zero] at found
    cases found
  · rename_i expression immediate missed policy
    rw [policy]
    unfold nextCron at found
    cases parsed : cronexpr expression with
    | error error =>
        rw [parsed] at found
        cases found
    | ok cron => exact ⟨cron, parsed⟩

theorem accepted_of_validateSchedule {schedule : ScheduleDefinition}
    (valid : (validateSchedule cronexpr now schedule).isOk = true) :
    Accepted cronexpr schedule.scheduling := by
  have accepted : Accepted cronexpr (withoutImmediate schedule.scheduling) := by
    unfold validateSchedule at valid
    cases found : nextExecutionTime cronexpr now ⟨0, none, withoutImmediate schedule.scheduling,
        schedule.timeRange, schedule.jobTemplate⟩ with
    | error error =>
        rw [found] at valid
        cases valid
    | ok next =>
        have first := congrArg Except.isOk found
        exact accepted_of_nextExecutionTime first
  cases policy : schedule.scheduling <;> rw [policy] at accepted <;> exact accepted

end Accepted

/-- Where the search for the next time of a cron expression starts, if there is one.
A last time that is not supported is passed over if missed times are skipped. -/
def searchStart (clock : Time) (lastTime : Option Time) (immediate : Bool)
    (missed : MissedTimePolicy) : Option Time :=
  match lastTime with
  | some lastTime =>
      match missed with
      | .skip => some (if Supported lastTime ∧ clock ≤ lastTime then lastTime else clock)
      | .create => some lastTime
  | none => if immediate then none else some clock

/-- The search of an expression from this time panics. -/
def searchPanics (cronexpr : Cronexpr) (expression : String) (time : Time) : Bool :=
  match cronexpr expression, toTimestamp time with
  | .ok cron, .ok timestamp =>
      match cron.findNext timestamp with
      | .error .panic => true
      | _ => false
  | _, _ => false

/-- The clock, or a later start, leaves a supported time: itself for a cron
expression, whose search starts at a supported time and does not panic, and as the
first time, and otherwise a regular time after the last one, which is not missed
if missed times are skipped. -/
def TimesRemain (cronexpr : Cronexpr) (now : Time) (schedule : PendingSchedule) : Prop :=
  let clock := aheadOf now schedule.timeRange.start
  match schedule.scheduling with
  | .cron expression immediate missed => Supported clock ∧
      ∀ time ∈ searchStart clock schedule.lastTargetExecutionTime immediate missed,
        Supported time ∧ searchPanics cronexpr expression time = false
  | .fixedInterval interval immediate missed =>
      match schedule.lastTargetExecutionTime with
      | none => Supported (if immediate then clock else clock + interval)
      | some last =>
          let bound := match missed with
            | .skip => clock
            | .create => last
          ∃ time ∈ regularTimes last bound interval, time ≤ maxTimestamp

section Remaining

variable {last bound limit : Int} {interval : Nat}

/-- The last regular time before the limit is by a quotient. -/
theorem exists_regularTimes_le_iff :
    (∃ time ∈ regularTimes last bound interval, time ≤ limit) ↔
      last + interval ≤ limit ∧
        bound ≤ last + ((limit - last).toNat / interval * interval : Nat) := by
  constructor
  · rintro ⟨time, ⟨reached, intervals, positive, rfl⟩, within⟩
    have once : 1 * interval ≤ intervals * interval := Nat.mul_le_mul_right interval positive
    have cast : ((1 * interval : Nat) : Int) ≤ (intervals * interval : Nat) := Int.ofNat_le.mpr once
    push_cast at cast
    have fits : intervals * interval ≤ (limit - last).toNat := by
      refine Int.ofNat_le.mp ?_
      push_cast
      linarith [Int.self_le_toNat (limit - last)]
    have least : intervals * interval ≤ (limit - last).toNat / interval * interval := by
      by_cases zero : interval = 0
      · simp [zero]
      · exact Nat.mul_le_mul_right interval
          ((Nat.le_div_iff_mul_le (Nat.pos_of_ne_zero zero)).mpr fits)
    have castLeast := Int.ofNat_le.mpr least
    push_cast at castLeast ⊢
    exact ⟨by linarith, by linarith⟩
  · rintro ⟨within, reached⟩
    by_cases zero : interval = 0
    · subst zero
      exact ⟨last, ⟨by simpa using reached, 1, Nat.one_pos, by simp⟩, by simpa using within⟩
    · have behind : ((limit - last).toNat : Int) = limit - last :=
        Int.toNat_of_nonneg (by linarith [Int.natCast_nonneg interval])
      have covered : interval ≤ (limit - last).toNat := by
        refine Int.ofNat_le.mp ?_
        linarith
      have below := Int.ofNat_le.mpr (Nat.div_mul_le_self (limit - last).toNat interval)
      refine ⟨_, ⟨reached, (limit - last).toNat / interval,
        Nat.div_pos covered (Nat.pos_of_ne_zero zero), by push_cast; rfl⟩, by linarith⟩

end Remaining

instance (cronexpr : Cronexpr) (now : Time) (schedule : PendingSchedule) :
    Decidable (TimesRemain cronexpr now schedule) := by
  unfold TimesRemain
  cases schedule.scheduling with
  | cron expression immediate missed => exact inferInstanceAs (Decidable (Supported _ ∧ _))
  | fixedInterval interval immediate missed =>
      cases schedule.lastTargetExecutionTime with
      | none => exact inferInstanceAs (Decidable (Supported _))
      | some last => exact decidable_of_iff _ exists_regularTimes_le_iff.symm

section Determined

variable {cronexpr : Cronexpr} {clock last time : Time} {interval : Duration} {immediate : Bool}
  {expression : String}

theorem toTimestamp_isOk_iff : (toTimestamp time).isOk = true ↔ Supported time := by
  unfold toTimestamp
  split
  · rename_i supported
    exact iff_of_true rfl supported
  · rename_i unsupported
    exact iff_of_false Bool.false_ne_true unsupported

theorem addTime_isOk_iff : (addTime time interval).isOk = true ↔ Supported (time + interval) := by
  rw [addTime_eq]
  split
  · rename_i supported
    exact iff_of_true rfl supported
  · rename_i unsupported
    exact iff_of_false Bool.false_ne_true unsupported

theorem isOk_map {ε α β : Type} (result : Except ε α) (change : α → β) :
    (result.map change).isOk = result.isOk := by
  cases result <;> rfl

theorem isOk_mapError {ε ε' α : Type} (result : Except ε α) (change : ε → ε') :
    (result.mapError change).isOk = result.isOk := by
  cases result <;> rfl

theorem nextFixedInterval_first_isOk_iff (positive : interval ≠ 0) (missed : MissedTimePolicy) :
    (nextFixedInterval clock none interval immediate missed).isOk = true ↔
      Supported (if immediate then clock else clock + interval) := by
  unfold nextFixedInterval
  rw [if_neg positive]
  dsimp only
  cases immediate with
  | true =>
      simp only [if_true, isOk_map]
      exact toTimestamp_isOk_iff
  | false =>
      simp only [Bool.false_eq_true, if_false, isOk_map]
      exact addTime_isOk_iff

/-- A regular time that is supported is not before the next one. -/
theorem nextFixedInterval_create_isOk_iff (positive : interval ≠ 0) (lower : minTimestamp ≤ last) :
    (nextFixedInterval clock (some last) interval immediate .create).isOk = true ↔
      ∃ time ∈ regularTimes last last interval, time ≤ maxTimestamp := by
  have computed : nextFixedInterval clock (some last) interval immediate .create =
      (addTime last interval).map some := by
    unfold nextFixedInterval
    rw [if_neg positive]
    dsimp only [bind, Except.bind]
    cases addTime last interval <;> rfl
  rw [computed, isOk_map, addTime_isOk_iff, exists_regularTimes_le_iff]
  have ahead : last ≤ last + interval := Int.le_add_of_nonneg_right (Int.natCast_nonneg interval)
  constructor
  · intro next
    exact ⟨next.2, Int.le_add_of_nonneg_right (Int.natCast_nonneg _)⟩
  · rintro ⟨within, _⟩
    exact ⟨Int.le_trans lower ahead, within⟩

theorem nextFixedInterval_skip_isOk_iff (positive : interval ≠ 0) (lower : minTimestamp ≤ last) :
    (nextFixedInterval clock (some last) interval immediate .skip).isOk = true ↔
      ∃ time ∈ regularTimes last clock interval, time ≤ maxTimestamp := by
  obtain ⟨first, ⟨member, least⟩, computed⟩ :=
    nextFixedInterval_isLeast clock last immediate (Nat.pos_of_ne_zero positive)
  rw [computed]
  split
  · rename_i inRange
    exact iff_of_true rfl ⟨first, member, inRange.2.2⟩
  · rename_i beyond
    refine iff_of_false Bool.false_ne_true ?_
    rintro ⟨time, found, within⟩
    obtain ⟨next, _⟩ := exists_regularTimes_le_iff.mp ⟨time, found, within⟩
    have ahead : last ≤ last + interval := Int.le_add_of_nonneg_right (Int.natCast_nonneg interval)
    have firstLater : last ≤ first := by
      obtain ⟨_, intervals, _, rfl⟩ := member
      exact Int.le_add_of_nonneg_right (Int.mul_nonneg (Int.natCast_nonneg _) (Int.natCast_nonneg _))
    exact beyond ⟨⟨Int.le_trans lower ahead, next⟩,
      ⟨Int.le_trans lower firstLater, Int.le_trans (least found) within⟩⟩

/-- The search starts at a supported time and does not panic. -/
theorem search_isOk_iff {cron : Crontab} (parsed : cronexpr expression = .ok cron) (time : Time) :
    (((toTimestamp time).mapError Failure.error).bind (findNextCron cron)).isOk = true ↔
      Supported time ∧ searchPanics cronexpr expression time = false := by
  unfold searchPanics
  rw [parsed]
  cases read : toTimestamp time with
  | error error =>
      exact iff_of_false Bool.false_ne_true fun both => toTimestamp_eq_error read both.1
  | ok timestamp =>
      rw [and_iff_right (toTimestamp_eq_ok read).2]
      change (findNextCron cron timestamp).isOk = true ↔ _
      unfold findNextCron
      dsimp only
      split
      · rename_i found
        rw [found]
        exact iff_of_true rfl rfl
      · rename_i found
        rw [found]
        exact iff_of_true rfl rfl
      · rename_i found
        rw [found]
        exact iff_of_false Bool.false_ne_true fun same => Bool.false_ne_true same.symm

/-- A parsed expression fails for an unsupported time and with a search that panics. -/
theorem nextCron_isOk_iff (parsed : ∃ cron, cronexpr expression = .ok cron)
    (lastTime : Option Time) (missed : MissedTimePolicy) :
    (nextCron cronexpr clock lastTime expression immediate missed).isOk = true ↔
      Supported clock ∧ ∀ time ∈ searchStart clock lastTime immediate missed,
        Supported time ∧ searchPanics cronexpr expression time = false := by
  obtain ⟨cron, parsed⟩ := parsed
  have found := search_isOk_iff parsed
  unfold nextCron
  rw [parsed]
  cases read : toTimestamp clock with
  | error error =>
      exact iff_of_false Bool.false_ne_true fun both => toTimestamp_eq_error read both.1
  | ok clockTs =>
      obtain ⟨sameClock, inRange⟩ := toTimestamp_eq_ok read
      rw [and_iff_right inRange]
      have fromClock := found clock
      rw [read] at fromClock
      cases lastTime with
      | none =>
          cases immediate with
          | true => exact iff_of_true rfl nofun
          | false =>
              simp only [searchStart, Bool.false_eq_true, if_false, Option.mem_some, forall_eq']
              exact fromClock
      | some last =>
          simp only [searchStart]
          cases missed with
          | create =>
              simp only [Option.mem_some, forall_eq']
              exact found last
          | skip =>
              have fromLast := found last
              simp only [Option.mem_some, forall_eq']
              cases readLast : toTimestamp last with
              | error error =>
                  rw [if_neg fun both => toTimestamp_eq_error readLast both.1]
                  simp only [Except.mapError, bind, Except.bind]
                  exact fromClock
              | ok lastTs =>
                  obtain ⟨sameLast, supported⟩ := toTimestamp_eq_ok readLast
                  rw [readLast] at fromLast
                  simp only [Except.mapError, bind, Except.bind]
                  rw [sameClock, sameLast]
                  by_cases ahead : clock ≤ last
                  · rw [if_pos ahead, if_pos ⟨supported, ahead⟩]
                    exact fromLast
                  · rw [if_neg ahead, if_neg fun both => ahead both.2]
                    exact fromClock

/-- The next time of an accepted schedule is determined as long as times remain. -/
theorem nextExecutionTime_isOk_iff {schedule : PendingSchedule} {now : Time}
    (accepted : Accepted cronexpr schedule.scheduling)
    (lower : ∀ last, schedule.lastTargetExecutionTime = some last → minTimestamp ≤ last) :
    (nextExecutionTime cronexpr now schedule).isOk = true ↔
      TimesRemain cronexpr now schedule := by
  unfold nextExecutionTime TimesRemain
  dsimp only
  cases policy : schedule.scheduling with
  | cron expression immediate missed =>
      rw [policy] at accepted
      exact nextCron_isOk_iff accepted _ missed
  | fixedInterval interval immediate missed =>
      rw [policy] at accepted
      simp only [isOk_mapError]
      cases known : schedule.lastTargetExecutionTime with
      | none => exact nextFixedInterval_first_isOk_iff accepted missed
      | some last =>
          cases missed with
          | create => exact nextFixedInterval_create_isOk_iff accepted (lower last known)
          | skip => exact nextFixedInterval_skip_isOk_iff accepted (lower last known)

/-- Beyond the supported times an interval fails, whatever the clock. -/
theorem nextExecutionTime_of_beyond {schedule : PendingSchedule} {missed : MissedTimePolicy}
    (policy : schedule.scheduling = .fixedInterval interval immediate missed)
    (positive : interval ≠ 0) (known : schedule.lastTargetExecutionTime = some last)
    (beyond : maxTimestamp < last + interval) (now : Time) :
    nextExecutionTime cronexpr now schedule = .error (.error .outOfRange) := by
  unfold nextExecutionTime
  dsimp only
  rw [policy, known]
  dsimp only
  unfold nextFixedInterval
  rw [if_neg positive]
  dsimp only [bind, Except.bind]
  rw [addTime_eq, if_neg fun supported => Int.not_le.mpr beyond supported.2]
  rfl

end Determined

namespace SchedulingState

/-- Every added schedule was accepted by `validate_schedule` at some time. -/
def addsAccepted (cronexpr : Cronexpr) : Action → Prop
  | .perform (.addSchedules _ schedules _) => ∀ schedule ∈ schedules,
      ∃ now, (validateSchedule cronexpr now schedule).isOk = true
  | _ => True

/-- Times remain for every pending schedule that is fetched. -/
def timesRemain (cronexpr : Cronexpr) (state : SchedulingState) (action : Action) : Prop :=
  state.everyFetched (fun systemNow row =>
    TimesRemain cronexpr systemNow (pendingSchedule systemtimeFromTs state.store row)) action

instance (cronexpr : Cronexpr) (state : SchedulingState) (action : Action) :
    Decidable (state.timesRemain cronexpr action) :=
  inferInstanceAs (Decidable (state.everyFetched _ action))

theorem addsAccepted_of_addsValidated {cronexpr : Cronexpr} {state : SchedulingState}
    {action : Action} (valid : addsValidated cronexpr state action) :
    addsAccepted cronexpr action := by
  cases action with
  | perform operation =>
      cases operation with
      | addSchedules now schedules ifNotExists =>
          exact fun schedule member => ⟨now, valid schedule member⟩
      | _ => trivial
  | _ => trivial

end SchedulingState

structure ErrorInvariant (cronexpr : Cronexpr) (state : SchedulingState) : Prop where
  link : ScheduleLink state.store
  accepted : ∀ row ∈ state.store.schedules.rows, Accepted cronexpr row.schedulingPolicyJson

namespace ErrorInvariant

variable {cronexpr : Cronexpr} {state after : SchedulingState}

theorem initial : ErrorInvariant cronexpr .initial where
  link := .empty
  accepted := by simp [SchedulingState.initial, Store.empty]

/-- A row that was stored before keeps its policy. -/
theorem accepted_kept (inv : ErrorInvariant cronexpr state) {later : Store}
    (kept : StoreKept state.store later) {row : ScheduleRow} (member : row ∈ later.schedules.rows)
    (issued : row.id < state.store.nextUuid) : Accepted cronexpr row.schedulingPolicyJson := by
  obtain ⟨before, present, same⟩ := kept.schedules.rows row member issued
  have accepted := inv.accepted before present
  simp only [ScheduleRow.columns, ScheduleRow.mk.injEq] at same
  exact same.2.2.2.2.1 ▸ accepted

theorem accepted_known (inv : ErrorInvariant cronexpr state) {operation : Operation} {later : Store}
    (noSchedules : ∀ now schedules ifNotExists,
      operation ≠ .addSchedules now schedules ifNotExists)
    (done : operation.apply state.store = some later) :
    ∀ row ∈ later.schedules.rows, Accepted cronexpr row.schedulingPolicyJson := by
  intro row member
  obtain ⟨known, present, same⟩ := Postgres.schedules_known done noSchedules row member
  exact inv.accepted_kept (.of_apply done) member
    (same ▸ inv.link.issuedSchedules known present)

theorem accepted_added (inv : ErrorInvariant cronexpr state) {now : Time}
    {schedules : List ScheduleDefinition} {ifNotExists : Option ScheduleFilters} {later : Store}
    (valid : ∀ schedule ∈ schedules, ∃ at_, (validateSchedule cronexpr at_ schedule).isOk = true)
    (done : (Operation.addSchedules now schedules ifNotExists).apply state.store = some later) :
    ∀ row ∈ later.schedules.rows, Accepted cronexpr row.schedulingPolicyJson := by
  obtain ⟨⟨_, result⟩, added, rfl⟩ := Option.map_eq_some_iff.mp done
  obtain ⟨entries, rows, source⟩ := addSchedules_newRows added
  rw [rows, List.forall_mem_append, List.forall_mem_map]
  refine ⟨inv.accepted, fun entry member => ?_⟩
  obtain ⟨_, validated⟩ := valid entry.1 (source entry member)
  exact accepted_of_validateSchedule validated

theorem step (inv : ErrorInvariant cronexpr state) {action : SchedulingState.Action}
    (valid : SchedulingState.addsAccepted cronexpr action) {fromTs : Time → Time}
    (done : state.step cronexpr fromTs action = some after) : ErrorInvariant cronexpr after := by
  refine ⟨SchedulingState.link_step inv.link done, ?_⟩
  rcases SchedulingState.step_store done with same | ⟨operation, applied, _, source⟩ |
    ⟨systemNow, batch, now, pick, result, _, added⟩
  · rw [same]
    exact inv.accepted
  · cases operation with
    | addSchedules now schedules ifNotExists =>
        rcases source with rfl | ⟨_, _, other⟩
        · exact inv.accepted_added valid applied
        · cases other
    | _ => exact inv.accepted_known (by simp) applied
  · have applied : (Operation.addJobs now pick (plan cronexpr systemNow batch).1 none).apply
        state.store = some after.store := Option.map_eq_some_iff.mpr ⟨_, added, rfl⟩
    exact inv.accepted_known (by simp) applied

/-- The next time of a stored schedule is determined as long as times remain. -/
theorem isOk_iff (inv : ErrorInvariant cronexpr state) {row : ScheduleRow}
    (member : row ∈ state.store.schedules.rows) (now : Time) :
    (nextExecutionTime cronexpr now
      (pendingSchedule systemtimeFromTs state.store row)).isOk = true ↔
      TimesRemain cronexpr now (pendingSchedule systemtimeFromTs state.store row) := by
  refine nextExecutionTime_isOk_iff (inv.accepted row member) fun last known => ?_
  obtain ⟨job, _, rfl⟩ := Option.map_eq_some_iff.mp known
  exact Int.le_trans (by decide) (Postgres.systemtimeFromTs_nonneg job.targetExecutionTime)

end ErrorInvariant

/-- The next times of a fetched batch are determined. -/
structure ContinuedInvariant (cronexpr : Cronexpr) (state : SchedulingState) : Prop where
  errors : ErrorInvariant cronexpr state
  fetched : ∀ now batch, state.pass = .adding now batch → ∀ schedule ∈ batch,
    (nextExecutionTime cronexpr now schedule).isOk = true

namespace ContinuedInvariant

variable {cronexpr : Cronexpr} {state after : SchedulingState}

theorem initial : ContinuedInvariant cronexpr .initial where
  errors := .initial
  fetched _ _ adding := by cases adding

theorem step (inv : ContinuedInvariant cronexpr state) {action : SchedulingState.Action}
    (valid : SchedulingState.addsAccepted cronexpr action) (remain : state.timesRemain cronexpr action)
    (done : state.step cronexpr systemtimeFromTs action = some after) :
    ContinuedInvariant cronexpr after where
  errors := inv.errors.step valid done
  fetched now batch adding schedule member := by
    rcases SchedulingState.adding_of_step done adding with same | ⟨last, fetching, rfl, rfl⟩
    · exact inv.fetched now batch same schedule member
    · obtain ⟨row, pending, rfl⟩ := Postgres.PostgresBackend.mem_pendingSchedules member
      simp only [SchedulingState.timesRemain, SchedulingState.everyFetched, fetching] at remain
      have present := Postgres.PostgresBackend.mem_pendingRows pending
      exact (inv.errors.isOk_iff present now).mpr (remain row pending)

end ContinuedInvariant

/-- The next time of a fetched schedule is determined, and the pass adds a job
to the schedule or stops it.  No other schedule of the batch ends the loop. -/
structure Continued (cronexpr : Cronexpr) (now : Time) (batch : List PendingSchedule)
    (schedule : PendingSchedule) : Prop where
  determined : (nextExecutionTime cronexpr now schedule).isOk = true
  handled : (∃ nextTime, plannedJob schedule nextTime ∈ (plan cronexpr now batch).1) ∨
    schedule.scheduleId ∈ (plan cronexpr now batch).2
  continues : panics cronexpr now batch = false

/-- The job of a second is cancelled before the next pass. -/
def cancelledOnce : List SchedulingState.Action :=
  .perform (.addSchedules 0 [Postgres.everySecond] none) :: passAt 0 ++
    [.perform (.cancelJobs 1 1 (fun _ => 0) {}), .startPass, .fetchPending 2000000000]

/-- A schedule every five thousand years, whose first job is cancelled. -/
def everyFiveMillennia : ScheduleDefinition :=
  { Postgres.everySecond with
    scheduling := .fixedInterval 157680000000000000000 false .skip }

def farJobCancelled : List SchedulingState.Action :=
  .perform (.addSchedules 0 [everyFiveMillennia] none) :: passAt 0 ++
    [.perform (.cancelJobs 1 1 (fun _ => 0) {})]

end Ora.Server
