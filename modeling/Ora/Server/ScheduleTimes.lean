import Ora.Backend.Types
import Ora.Library.Codec
import Mathlib.Tactic.Linarith
import Mathlib.Tactic.Ring

/-!
# Execution times of schedules

`next_execution_time` and `validate_schedule` of `server/schedules.rs`.  Cron
expressions are read by a library, of which only that it finds later times is
used; it may fail or panic.
-/

namespace Ora.Server

open Ora.Backend
open Ora.Library

def nanosPerSec : Nat := 1000000000

/-- The last `SystemTime`, which counts seconds in an `i64`. -/
def maxSystemTime : Time := 9223372036854775807 * nanosPerSec + 999999999

/-- `Timestamp::MIN`, -009999-01-02T01:59:59Z. -/
def minTimestamp : Time := -377705023201 * nanosPerSec

/-- `Timestamp::MAX`, 9999-12-30T22:00:00.999999999Z. -/
def maxTimestamp : Time := 253402207200 * nanosPerSec + 999999999

/-- A time that cron schedules and the backend support. -/
structure Timestamp where
  time : Time
  lower : minTimestamp ≤ time
  upper : time ≤ maxTimestamp

inductive ScheduleTimeError where
  | zeroInterval
  | outOfRange
  | cron (error : String)
  | noExecutionTimes
  deriving DecidableEq, Repr

/-- What a function ends with instead of a result.  A panic ends the task that
called it as well. -/
inductive Failure (ε : Type) where
  | error (error : ε)
  | panic
  deriving DecidableEq, Repr

def Failure.map {ε ε' : Type} (change : ε → ε') : Failure ε → Failure ε'
  | .error e => .error (change e)
  | .panic => .panic

def toTimestamp (time : Time) : Except ScheduleTimeError Timestamp :=
  if supported : minTimestamp ≤ time ∧ time ≤ maxTimestamp then
    .ok ⟨time, supported.1, supported.2⟩
  else
    .error .outOfRange

/-- `SystemTime::checked_add` -/
def checkedAdd (time : Time) (duration : Duration) : Option Time :=
  if time + duration ≤ maxSystemTime then some (time + duration) else none

/-- Add a duration to a time, the result must be in the supported range. -/
def addTime (time : Time) (duration : Duration) : Except ScheduleTimeError Time :=
  match checkedAdd time duration with
  | none => .error .outOfRange
  | some time => (toTimestamp time).map fun _ => time

/-- The seconds of a `Duration` are a `u64`. -/
def durationFromNanos (nanos : Nat) : Option Duration :=
  if nanos / nanosPerSec < Nat.pow 2 64 then some nanos else none

/-- A parsed cron expression.  The search panics where it leaves the times that the
library represents. -/
structure Crontab where
  findNext : Timestamp → Except (Failure String) Timestamp
  later : ∀ time next, findNext time = .ok next → time.time < next.time

/-- `parse_crontab_with` -/
abbrev Cronexpr := String → Except String Crontab

def findNextCron (cron : Crontab) (time : Timestamp) :
    Except (Failure ScheduleTimeError) (Option Time) :=
  match cron.findNext time with
  | .ok next => .ok (some next.time)
  | .error (.error _) => .ok none
  | .error .panic => .error .panic

section Times

variable (cronexpr : Cronexpr)

/-- The clock, or the start of the schedule when it is ahead of the clock. -/
def aheadOf (now : Time) (start : Option Time) : Time :=
  match start with
  | some start => if now < start then start else now
  | none => now

/-- The smallest multiple of the interval that is not before now. -/
def skipMissed (now nextTime : Time) (interval : Duration) : Except ScheduleTimeError Time :=
  if now < nextTime then
    .ok nextTime
  else
    let behind := (now - nextTime).toNat
    let missedIntervals := (behind + interval - 1) / interval
    match durationFromNanos (missedIntervals * interval) with
    | none => .error .outOfRange
    | some skipped => addTime nextTime skipped

def nextFixedInterval (now : Time) (lastTime : Option Time) (interval : Duration)
    (immediate : Bool) (missed : MissedTimePolicy) : Except ScheduleTimeError (Option Time) :=
  if interval = 0 then
    .error .zeroInterval
  else
    match lastTime with
    | some lastTime => do
        let nextTime ← addTime lastTime interval
        match missed with
        | .skip => (skipMissed now nextTime interval).map some
        | .create => .ok (some nextTime)
    | none =>
        if immediate then
          (toTimestamp now).map fun _ => some now
        else
          (addTime now interval).map some

def nextCron (now : Time) (lastTime : Option Time) (expression : String) (immediate : Bool)
    (missed : MissedTimePolicy) : Except (Failure ScheduleTimeError) (Option Time) := do
  let cron ← (cronexpr expression).mapError fun error => .error (.cron error)
  let nowTs ← (toTimestamp now).mapError .error
  match lastTime with
  | some lastTime =>
      match missed with
      | .skip =>
          match toTimestamp lastTime with
          | .ok lastTs => findNextCron cron (if nowTs.time ≤ lastTs.time then lastTs else nowTs)
          | .error _ => findNextCron cron nowTs
      | .create => do
          let lastTs ← (toTimestamp lastTime).mapError .error
          findNextCron cron lastTs
  | none => if immediate then .ok (some now) else findNextCron cron nowTs

/-- The next execution time of a pending schedule, `none` if it has no more. -/
def nextExecutionTime (now : Time) (schedule : PendingSchedule) :
    Except (Failure ScheduleTimeError) (Option Time) :=
  let now := aheadOf now schedule.timeRange.start
  match schedule.scheduling with
  | .fixedInterval interval immediate missed =>
      (nextFixedInterval now schedule.lastTargetExecutionTime interval immediate missed).mapError
        .error
  | .cron expression immediate missed =>
      nextCron cronexpr now schedule.lastTargetExecutionTime expression immediate missed

/-- The policy without an immediate first job. -/
def withoutImmediate : SchedulingPolicy → SchedulingPolicy
  | .fixedInterval interval _ missed => .fixedInterval interval false missed
  | .cron expression _ missed => .cron expression false missed

/-- Validate a new schedule by determining its first execution time. -/
def validateSchedule (now : Time) (schedule : ScheduleDefinition) :
    Except (Failure ScheduleTimeError) Unit := do
  let next ← nextExecutionTime cronexpr now
    ⟨0, none, withoutImmediate schedule.scheduling, schedule.timeRange, schedule.jobTemplate⟩
  match next with
  | some _ => .ok ()
  | none => .error (.error .noExecutionTimes)

end Times

section NextTime

variable {cronexpr : Cronexpr} {now time next bound : Time} {interval : Duration}
  {lastTime : Option Time} {expression : String} {immediate : Bool} {missed : MissedTimePolicy}

def Supported (time : Time) : Prop :=
  minTimestamp ≤ time ∧ time ≤ maxTimestamp

theorem toTimestamp_eq_ok {timestamp : Timestamp} (read : toTimestamp time = .ok timestamp) :
    timestamp.time = time ∧ Supported time := by
  unfold toTimestamp at read
  split at read
  · rename_i supported
    cases read
    exact ⟨rfl, supported⟩
  · cases read

theorem toTimestamp_eq_error {error : ScheduleTimeError} (read : toTimestamp time = .error error) :
    ¬Supported time := by
  unfold toTimestamp at read
  split at read
  · cases read
  · assumption

theorem addTime_eq_ok (added : addTime time interval = .ok next) :
    next = time + interval ∧ Supported next := by
  unfold addTime checkedAdd at added
  split at added
  · cases added
  · rename_i sum represented
    split at represented
    · cases represented
      cases read : toTimestamp (time + interval) with
      | error error =>
          rw [read] at added
          cases added
      | ok timestamp =>
          rw [read] at added
          cases added
          exact ⟨rfl, (toTimestamp_eq_ok read).2⟩
    · cases represented

theorem start_le_aheadOf (now start : Time) : start ≤ aheadOf now (some start) := by
  unfold aheadOf
  dsimp only
  split
  · exact Int.le_refl _
  · exact Int.not_lt.mp (by assumption)

theorem le_ceil_mul (behind interval : Nat) (positive : interval ≠ 0) :
    behind ≤ (behind + interval - 1) / interval * interval := by
  have split := Nat.div_add_mod' (behind + interval - 1) interval
  have rest := Nat.mod_lt (behind + interval - 1) (Nat.pos_of_ne_zero positive)
  omega

/-- Missed times are skipped by whole intervals, until now. -/
theorem skipMissed_eq_ok (supported : Supported time) (positive : interval ≠ 0)
    (skipped : skipMissed now time interval = .ok next) :
    ∃ intervals : Nat, next = time + intervals * interval ∧ now ≤ next ∧ Supported next := by
  unfold skipMissed at skipped
  split at skipped
  · rename_i ahead
    cases skipped
    exact ⟨0, by simp, Int.le_of_lt ahead, supported⟩
  · rename_i behind
    dsimp only at skipped
    split at skipped
    · cases skipped
    · rename_i duration bounded
      unfold durationFromNanos at bounded
      split at bounded
      · cases bounded
        obtain ⟨rfl, inRange⟩ := addTime_eq_ok skipped
        refine ⟨((now - time).toNat + interval - 1) / interval, by push_cast; rfl, ?_, inRange⟩
        have enough := le_ceil_mul (now - time).toNat interval positive
        have behind : now - time ≤ ((now - time).toNat : Int) := Int.self_le_toNat _
        linarith [Int.ofNat_le.mpr enough]
      · cases bounded

/-- The times after the first are later by whole intervals. -/
theorem nextFixedInterval_after
    (found : nextFixedInterval now (some time) interval immediate missed = .ok (some next)) :
    interval ≠ 0 ∧ (∃ intervals : Nat, 0 < intervals ∧ next = time + intervals * interval ∧
      (missed = .create → intervals = 1)) ∧ Supported next := by
  unfold nextFixedInterval at found
  split at found
  · cases found
  · rename_i positive
    dsimp only [bind, Except.bind] at found
    split at found
    · cases found
    · rename_i regular added
      obtain ⟨rfl, supported⟩ := addTime_eq_ok added
      refine ⟨positive, ?_⟩
      cases missed with
      | create =>
          cases found
          exact ⟨⟨1, Nat.one_pos, by simp, fun _ => rfl⟩, supported⟩
      | skip =>
          dsimp only at found
          cases skipped : skipMissed now (time + interval) interval with
          | error error =>
              rw [skipped] at found
              cases found
          | ok other =>
              rw [skipped] at found
              cases found
              obtain ⟨intervals, same, _, inRange⟩ := skipMissed_eq_ok supported positive skipped
              refine ⟨⟨intervals + 1, Nat.succ_pos _, ?_, fun other => by cases other⟩, inRange⟩
              rw [same]
              push_cast
              ring

theorem nextFixedInterval_first
    (found : nextFixedInterval now none interval immediate missed = .ok (some next)) :
    interval ≠ 0 ∧ (next = if immediate then now else now + interval) ∧ Supported next := by
  unfold nextFixedInterval at found
  split at found
  · cases found
  · rename_i positive
    refine ⟨positive, ?_⟩
    dsimp only at found
    cases immediate with
    | true =>
        cases read : toTimestamp now with
        | error error => simp [read, Except.map] at found
        | ok timestamp =>
            simp only [read, if_true, Except.map, Except.ok.injEq, Option.some.injEq] at found
            subst found
            exact ⟨rfl, (toTimestamp_eq_ok read).2⟩
    | false =>
        cases added : addTime now interval with
        | error error => simp [added, Except.map] at found
        | ok sum =>
            simp only [added, Bool.false_eq_true, if_false, Except.map, Except.ok.injEq,
              Option.some.injEq] at found
            subst found
            exact addTime_eq_ok added

theorem findNextCron_eq_some {cron : Crontab} {timestamp : Timestamp}
    (found : findNextCron cron timestamp = .ok (some next)) :
    timestamp.time < next ∧ Supported next := by
  unfold findNextCron at found
  split at found
  · rename_i later same
    cases found
    exact ⟨cron.later timestamp later same, later.lower, later.upper⟩
  · cases found
  · cases found

/-- A time after the last one is found after it, or after now if the last one is
not supported. -/
theorem nextCron_after
    (found : nextCron cronexpr now (some time) expression immediate missed = .ok (some next)) :
    (time < next ∨ ¬Supported time ∧ now < next) ∧ Supported next := by
  unfold nextCron at found
  simp only [bind_eq_ok, mapError_eq_ok] at found
  obtain ⟨cron, _, nowTs, readNow, found⟩ := found
  obtain ⟨sameNow, _⟩ := toTimestamp_eq_ok readNow
  cases missed with
  | create =>
      dsimp only at found
      simp only [bind_eq_ok, mapError_eq_ok] at found
      obtain ⟨lastTs, readLast, found⟩ := found
      obtain ⟨sameLast, _⟩ := toTimestamp_eq_ok readLast
      obtain ⟨later, supported⟩ := findNextCron_eq_some found
      exact ⟨.inl (sameLast ▸ later), supported⟩
  | skip =>
      dsimp only at found
      split at found
      · rename_i lastTs readLast
        obtain ⟨sameLast, _⟩ := toTimestamp_eq_ok readLast
        obtain ⟨later, supported⟩ := findNextCron_eq_some found
        refine ⟨.inl ?_, supported⟩
        split at later
        · exact sameLast ▸ later
        · rename_i before
          rw [sameLast] at before
          exact Int.lt_trans (Int.not_le.mp before) later
      · rename_i unread
        obtain ⟨later, supported⟩ := findNextCron_eq_some found
        exact ⟨.inr ⟨toTimestamp_eq_error unread, sameNow ▸ later⟩, supported⟩

theorem nextCron_first
    (found : nextCron cronexpr now none expression immediate missed = .ok (some next)) :
    (if immediate then next = now else now < next) ∧ Supported next := by
  unfold nextCron at found
  simp only [bind_eq_ok, mapError_eq_ok] at found
  obtain ⟨cron, _, nowTs, readNow, found⟩ := found
  obtain ⟨sameNow, inRange⟩ := toTimestamp_eq_ok readNow
  cases immediate with
  | true =>
      cases found
      exact ⟨rfl, inRange⟩
  | false =>
      simp only [Bool.false_eq_true, if_false] at found ⊢
      obtain ⟨later, supported⟩ := findNextCron_eq_some found
      exact ⟨sameNow ▸ later, supported⟩

variable {schedule : PendingSchedule}

theorem nextExecutionTime_supported
    (found : nextExecutionTime cronexpr now schedule = .ok (some next)) : Supported next := by
  unfold nextExecutionTime at found
  dsimp only at found
  split at found
  · rw [mapError_eq_ok] at found
    cases last : schedule.lastTargetExecutionTime with
    | none => exact (nextFixedInterval_first (last ▸ found)).2.2
    | some time => exact (nextFixedInterval_after (last ▸ found)).2.2
  · cases last : schedule.lastTargetExecutionTime with
    | none => exact (nextCron_first (last ▸ found)).2
    | some time => exact (nextCron_after (last ▸ found)).2

/-- A bound of the clock and of the last time is a bound of the next time. -/
theorem le_nextExecutionTime (clock : bound ≤ aheadOf now schedule.timeRange.start)
    (last : ∀ time, schedule.lastTargetExecutionTime = some time → bound ≤ time)
    (found : nextExecutionTime cronexpr now schedule = .ok (some next)) : bound ≤ next := by
  unfold nextExecutionTime at found
  dsimp only at found
  split at found
  · rename_i interval immediate missed _
    rw [mapError_eq_ok] at found
    cases known : schedule.lastTargetExecutionTime with
    | none =>
        obtain ⟨_, same, _⟩ := nextFixedInterval_first (known ▸ found)
        rw [same]
        split
        · exact clock
        · exact le_add_of_le_of_nonneg clock (Int.natCast_nonneg interval)
    | some time =>
        obtain ⟨_, ⟨intervals, _, same, _⟩, _⟩ := nextFixedInterval_after (known ▸ found)
        rw [same]
        exact le_add_of_le_of_nonneg (last time known)
          (Int.mul_nonneg (Int.natCast_nonneg _) (Int.natCast_nonneg _))
  · cases known : schedule.lastTargetExecutionTime with
    | none =>
        have first := (nextCron_first (known ▸ found)).1
        split at first
        · exact first ▸ clock
        · exact Int.le_of_lt (Int.lt_of_le_of_lt clock first)
    | some time =>
        rcases (nextCron_after (known ▸ found)).1 with later | ⟨_, ahead⟩
        · exact Int.le_of_lt (Int.lt_of_le_of_lt (last time known) later)
        · exact Int.le_of_lt (Int.lt_of_le_of_lt clock ahead)

end NextTime

end Ora.Server
