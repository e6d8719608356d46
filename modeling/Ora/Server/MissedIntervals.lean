import Mathlib.Order.Bounds.Basic
import Ora.Library.MachineTime
import Ora.Server.ScheduleTimes

/-!
# Missed intervals

`next_execution_time` of a fixed interval with its words: `as_nanos`, the
division and the multiplication in a `u128`, and the conversion back to the
seconds and nanoseconds of a `Duration`.
-/

namespace Ora.Server

open Ora.Backend
open Ora.Library

namespace Machine

/-- There is no result if the conversion itself panics or drops bits. -/
def durationFromNanos (nanos : Nat) : Option (Option StdDuration) :=
  match word u64Max (nanos / nanosPerSec) with
  | none => some none
  | some secs => do
      let nanos ← word u32Max (nanos % nanosPerSec)
      (StdDuration.new secs nanos).map some

def addTime (time : StdTime) (duration : StdDuration) : Except ScheduleTimeError StdTime :=
  match time.checkedAdd duration with
  | none => .error .outOfRange
  | some time => (toTimestamp time.total).map fun _ => time

def aheadOf (now : StdTime) (start : Option StdTime) : StdTime :=
  match start with
  | some start => if now.lt start then start else now
  | none => now

/-- The duration of the missed intervals. -/
def skipped (behind interval : StdDuration) : Option (Option StdDuration) := do
  let behindNanos ← behind.asNanos
  let intervalNanos ← interval.asNanos
  let missedIntervals ← divCeil behindNanos intervalNanos
  (word u128Max (missedIntervals * intervalNanos)).elim (some none) durationFromNanos

def skipMissed (now nextTime : StdTime) (interval : StdDuration) :
    Option (Except ScheduleTimeError StdTime) :=
  match now.durationSince nextTime with
  | none => some (.ok nextTime)
  | some behind => do
      match ← skipped behind interval with
      | none => some (.error .outOfRange)
      | some skipped => some (addTime nextTime skipped)

def nextFixedInterval (now : StdTime) (lastTime : Option StdTime) (interval : StdDuration)
    (immediate : Bool) (missed : MissedTimePolicy) :
    Option (Except ScheduleTimeError (Option StdTime)) :=
  if interval.isZero then
    some (.error .zeroInterval)
  else
    match lastTime with
    | some lastTime =>
        match addTime lastTime interval with
        | .error error => some (.error error)
        | .ok nextTime =>
            match missed with
            | .skip => (skipMissed now nextTime interval).map (Except.map some)
            | .create => some (.ok (some nextTime))
    | none =>
        if immediate then
          some ((toTimestamp now.total).map fun _ => some now)
        else
          some ((addTime now interval).map some)

/-- `next_execution_time` of a fixed interval. -/
def nextExecutionTime (now : StdTime) (start lastTime : Option StdTime) (interval : StdDuration)
    (immediate : Bool) (missed : MissedTimePolicy) :
    Option (Except ScheduleTimeError (Option StdTime)) :=
  nextFixedInterval (aheadOf now start) lastTime interval immediate missed

end Machine

section Exact

variable {interval : StdDuration}

instance (time : Time) : Decidable (Supported time) :=
  inferInstanceAs (Decidable (_ ∧ _))

theorem latest_eq : StdTime.latest = maxSystemTime := by
  decide

theorem durationFromNanos_eq (nanos : Nat) :
    durationFromNanos nanos = if nanos / nanosPerSec ≤ u64Max then some nanos else none := by
  have size : Nat.pow 2 64 = u64Max + 1 := by decide
  unfold durationFromNanos
  rw [size]
  by_cases bounded : nanos / nanosPerSec ≤ u64Max
  · rw [if_pos bounded, if_pos (Nat.lt_succ_of_le bounded)]
  · rw [if_neg bounded, if_neg fun bound => bounded (Nat.le_of_lt_succ bound)]

theorem addTime_eq (time : Time) (duration : Duration) :
    addTime time duration =
      if Supported (time + duration) then .ok (time + duration) else .error .outOfRange := by
  unfold addTime checkedAdd
  split
  · rename_i exceeds
    split at exceeds
    · cases exceeds
    · rename_i beyond
      rw [if_neg]
      intro supported
      refine beyond (Int.le_trans supported.2 ?_)
      decide
  · rename_i sum represented
    split at represented
    · cases represented
      unfold toTimestamp
      split
      · rename_i supported
        exact (if_pos supported).symm
      · rename_i unsupported
        exact (if_neg unsupported).symm
    · cases represented

theorem addTime_total (time : StdTime) (duration : StdDuration) :
    (Machine.addTime time duration).map StdTime.total = addTime time.total duration.total := by
  have sum := time.checkedAdd_total duration
  rw [latest_eq] at sum
  unfold Machine.addTime addTime checkedAdd
  cases added : time.checkedAdd duration with
  | none =>
      rw [added] at sum
      split at sum
      · cases sum
      · rename_i exceeds
        rw [if_neg exceeds]
        rfl
  | some later =>
      rw [added] at sum
      split at sum
      · rename_i bounded
        rw [if_pos bounded]
        obtain same := Option.some.inj sum
        dsimp only
        rw [← same]
        cases toTimestamp later.total <;> rfl
      · cases sum

theorem aheadOf_total (now : StdTime) (start : Option StdTime) :
    (Machine.aheadOf now start).total = aheadOf now.total (start.map StdTime.total) := by
  cases start with
  | none => rfl
  | some start =>
      unfold Machine.aheadOf aheadOf
      dsimp only [Option.map_some]
      split
      · rename_i before
        rw [if_pos (StdTime.lt_iff.mp before)]
      · rename_i after
        rw [if_neg fun before => after (StdTime.lt_iff.mpr before)]

theorem durationFromNanos_total (nanos : Nat) :
    ∃ result, Machine.durationFromNanos nanos = some result ∧
      result.map StdDuration.total = durationFromNanos nanos := by
  have split := Nat.div_add_mod' nanos nanosPerSec
  have below := Nat.mod_lt nanos (by decide : 0 < nanosPerSec)
  rw [durationFromNanos_eq]
  unfold Machine.durationFromNanos
  by_cases bounded : nanos / nanosPerSec ≤ u64Max
  · obtain ⟨duration, same, whole⟩ := StdDuration.new_total bounded below
    refine ⟨some duration, ?_, ?_⟩
    · have narrowed : nanos % nanosPerSec ≤ u32Max :=
        Nat.le_of_lt (Nat.lt_of_lt_of_le below (by decide))
      rw [word_of_le bounded]
      dsimp only
      rw [word_of_le narrowed, Option.bind_eq_bind, Option.bind_some, same]
      rfl
    · rw [if_pos bounded, Option.map_some, whole]
      exact congrArg some split
  · refine ⟨none, ?_, ?_⟩
    · unfold word
      rw [if_neg bounded]
    · rw [if_neg bounded]
      rfl

/-- The rounded up product is less than an interval above the time behind. -/
theorem missed_mul_lt {behind quotient : Nat} (interval : Nat) (positive : 0 < interval)
    (first : ∀ other, quotient ≤ other ↔ behind ≤ other * interval) :
    quotient * interval < behind + interval := by
  cases quotient with
  | zero =>
      rw [Nat.zero_mul]
      exact Nat.lt_add_left behind positive
  | succ before =>
      have short : ¬behind ≤ before * interval := fun covered =>
        Nat.lt_irrefl before ((first before).mpr covered)
      rw [Nat.succ_mul]
      omega

theorem divCeil_eq {behind quotient : Nat} (interval : Nat) (positive : 0 < interval)
    (first : ∀ other, quotient ≤ other ↔ behind ≤ other * interval) :
    (behind + interval - 1) / interval = quotient := by
  refine Nat.le_antisymm ?_ ((first _).mpr (le_ceil_mul behind interval (Nat.ne_of_gt positive)))
  refine Nat.le_of_lt_succ (Nat.div_lt_of_lt_mul ?_)
  have covered := (first quotient).mp (Nat.le_refl _)
  rw [Nat.mul_comm, Nat.succ_mul]
  omega

theorem add_total_le (duration other : StdDuration) :
    duration.total + other.total ≤ u128Max :=
  Nat.le_trans (Nat.add_le_add duration.total_le other.total_le) (by decide)

theorem skipped_total (behind : StdDuration) (positive : 0 < interval.total) :
    ∃ result, Machine.skipped behind interval = some result ∧
      result.map StdDuration.total = durationFromNanos
        ((behind.total + interval.total - 1) / interval.total * interval.total) := by
  obtain ⟨quotient, divided, first⟩ := divCeil_eq_some behind.total positive
  have exceeded := missed_mul_lt interval.total positive first
  have fits : quotient * interval.total ≤ u128Max :=
    Nat.le_trans (Nat.le_of_lt exceeded) (add_total_le behind interval)
  unfold Machine.skipped
  rw [behind.asNanos_eq, interval.asNanos_eq, Option.bind_eq_bind, Option.bind_some,
    Option.bind_some, divided, Option.bind_some, word_of_le fits, Option.elim_some,
    divCeil_eq interval.total positive first]
  exact durationFromNanos_total _

theorem skipMissed_total (now time : StdTime) (positive : 0 < interval.total) :
    ∃ result, Machine.skipMissed now time interval = some result ∧
      result.map StdTime.total = skipMissed now.total time.total interval.total := by
  unfold Machine.skipMissed skipMissed
  by_cases ahead : now.total < time.total
  · rw [StdTime.durationSince_of_lt ahead, if_pos ahead]
    exact ⟨_, rfl, rfl⟩
  · obtain ⟨behind, same, whole⟩ := StdTime.durationSince_of_le (Int.not_lt.mp ahead)
    have behindEq : (now.total - time.total).toNat = behind.total := by
      rw [← whole]
      rfl
    obtain ⟨result, converted, total⟩ := skipped_total behind positive
    rw [same, if_neg ahead, behindEq]
    dsimp only
    rw [← total, converted, Option.bind_eq_bind, Option.bind_some]
    cases result with
    | none => exact ⟨_, rfl, rfl⟩
    | some skipped => exact ⟨_, rfl, addTime_total time skipped⟩

theorem map_total_some (result : Except ScheduleTimeError StdTime) :
    (result.map some).map (Option.map StdTime.total) = (result.map StdTime.total).map some := by
  cases result <;> rfl

/-- The words hold every intermediate value, and the result is the exact one. -/
theorem nextFixedInterval_total (now : StdTime) (lastTime : Option StdTime)
    (interval : StdDuration) (immediate : Bool) (missed : MissedTimePolicy) :
    ∃ result, Machine.nextFixedInterval now lastTime interval immediate missed = some result ∧
      result.map (Option.map StdTime.total) =
        nextFixedInterval now.total (lastTime.map StdTime.total) interval.total immediate
          missed := by
  unfold Machine.nextFixedInterval nextFixedInterval
  by_cases zero : interval.total = 0
  · rw [if_pos (StdDuration.isZero_iff.mpr zero), if_pos zero]
    exact ⟨_, rfl, rfl⟩
  · rw [if_neg fun isZero => zero (StdDuration.isZero_iff.mp isZero), if_neg zero]
    cases lastTime with
    | none =>
        cases immediate with
        | true =>
            refine ⟨_, rfl, ?_⟩
            dsimp only [Option.map_none]
            rw [if_pos rfl]
            cases toTimestamp now.total <;> rfl
        | false =>
            refine ⟨_, rfl, ?_⟩
            rw [map_total_some, addTime_total]
            rfl
    | some lastTime =>
        have sum := addTime_total lastTime interval
        dsimp only [Option.map_some, bind, Except.bind]
        rw [← sum]
        cases added : Machine.addTime lastTime interval with
        | error error => exact ⟨_, rfl, rfl⟩
        | ok nextTime =>
            cases missed with
            | create => exact ⟨_, rfl, rfl⟩
            | skip =>
                obtain ⟨result, same, total⟩ :=
                  skipMissed_total now nextTime (Nat.pos_of_ne_zero zero)
                refine ⟨result.map some, ?_, ?_⟩
                · dsimp only
                  rw [same]
                  rfl
                · rw [map_total_some, total]
                  rfl

end Exact

section Regular

variable {last bound time : Int} {interval : Nat}

/-- The times by whole intervals after the last one that are not before the bound. -/
def regularTimes (last bound : Time) (interval : Duration) : Set Time :=
  {time | bound ≤ time ∧ ∃ intervals : Nat, 0 < intervals ∧ time = last + intervals * interval}

/-- The next regular time, when it is not missed. -/
theorem isLeast_regularTimes_of_lt (ahead : bound < last + interval) :
    IsLeast (regularTimes last bound interval) (last + interval) := by
  constructor
  · exact ⟨Int.le_of_lt ahead, 1, Nat.one_pos, by simp⟩
  · rintro time ⟨_, intervals, positive, rfl⟩
    have once : 1 * interval ≤ intervals * interval := Nat.mul_le_mul_right interval positive
    rw [Nat.one_mul] at once
    have cast : (interval : Int) ≤ intervals * interval := by exact_mod_cast once
    exact Int.add_le_add_left cast last

/-- Otherwise it is later by the first multiple that covers what was missed. -/
theorem isLeast_regularTimes_of_le {quotient : Nat} (missed : last + interval ≤ bound)
    (first : ∀ other : Nat,
      quotient ≤ other ↔ (bound - (last + interval)).toNat ≤ other * interval) :
    IsLeast (regularTimes last bound interval) (last + interval + (quotient * interval : Nat)) := by
  have behind : ((bound - (last + interval)).toNat : Int) = bound - (last + interval) :=
    Int.toNat_of_nonneg (Int.sub_nonneg_of_le missed)
  constructor
  · have covered := Int.ofNat_le.mpr ((first quotient).mp (Nat.le_refl _))
    refine ⟨by linarith, quotient + 1, Nat.succ_pos _, ?_⟩
    push_cast
    ring
  · rintro time ⟨reached, intervals, positive, rfl⟩
    obtain ⟨later, rfl⟩ := Nat.exists_eq_succ_of_ne_zero (Nat.ne_of_gt positive)
    have whole : (last + (later.succ : Nat) * interval : Int) =
        last + interval + (later * interval : Nat) := by
      push_cast
      ring
    rw [whole] at reached ⊢
    have enough : (bound - (last + interval)).toNat ≤ later * interval :=
      Int.toNat_le.mpr (by linarith)
    have before := Nat.mul_le_mul_right interval ((first later).mpr enough)
    exact Int.add_le_add_left (Int.ofNat_le.mpr before) _

/-- Durations that are too long for their words lead out of the supported range. -/
theorem unsupported_of_exceeds {nanos : Nat} (supported : Supported time)
    (exceeds : durationFromNanos nanos = none) : ¬Supported (time + nanos) := by
  rw [durationFromNanos_eq] at exceeds
  split at exceeds
  · cases exceeds
  · rename_i bounded
    intro later
    have lower : -377705023201 * nanosPerSec ≤ time := supported.1
    have upper : time + (nanos : Int) ≤ 253402207200 * nanosPerSec + 999999999 := later.2
    unfold u64Max at bounded
    unfold nanosPerSec at *
    omega

theorem durationFromNanos_eq_some {nanos : Nat} {duration : Duration}
    (converted : durationFromNanos nanos = some duration) : duration = nanos := by
  rw [durationFromNanos_eq] at converted
  split at converted
  · exact (Option.some.inj converted).symm
  · cases converted

theorem skipMissed_isLeast (now : Int) (positive : 0 < interval)
    (supported : Supported (last + interval)) :
    ∃ time, IsLeast (regularTimes last now interval) time ∧
      skipMissed now (last + interval) interval =
        if Supported time then .ok time else .error .outOfRange := by
  unfold skipMissed
  by_cases ahead : now < last + interval
  · exact ⟨_, isLeast_regularTimes_of_lt ahead, by rw [if_pos ahead, if_pos supported]⟩
  · obtain ⟨quotient, _, first⟩ :=
      divCeil_eq_some (now - (last + interval)).toNat positive
    refine ⟨_, isLeast_regularTimes_of_le (Int.not_lt.mp ahead) first, ?_⟩
    rw [if_neg ahead]
    dsimp only
    rw [divCeil_eq interval positive first]
    cases converted : durationFromNanos (quotient * interval) with
    | none =>
        dsimp only
        rw [if_neg (unsupported_of_exceeds supported converted)]
    | some skipped =>
        dsimp only
        rw [durationFromNanos_eq_some converted, addTime_eq]

theorem nextFixedInterval_isLeast (now last : Int) (immediate : Bool) (positive : 0 < interval) :
    ∃ time, IsLeast (regularTimes last now interval) time ∧
      nextFixedInterval now (some last) interval immediate .skip =
        if Supported (last + interval) ∧ Supported time then .ok (some time)
        else .error .outOfRange := by
  unfold nextFixedInterval
  rw [if_neg (Nat.ne_of_gt positive)]
  dsimp only [bind, Except.bind]
  rw [addTime_eq]
  by_cases supported : Supported (last + interval)
  · obtain ⟨time, least, same⟩ := skipMissed_isLeast now positive supported
    refine ⟨time, least, ?_⟩
    rw [if_pos supported]
    dsimp only
    rw [same]
    by_cases inRange : Supported time
    · rw [if_pos inRange, if_pos ⟨supported, inRange⟩]
      rfl
    · rw [if_neg inRange, if_neg fun both => inRange both.2]
      rfl
  · obtain ⟨time, least⟩ : ∃ time, IsLeast (regularTimes last now interval) time := by
      by_cases ahead : now < last + interval
      · exact ⟨_, isLeast_regularTimes_of_lt ahead⟩
      · obtain ⟨quotient, _, first⟩ :=
          divCeil_eq_some (now - (last + interval)).toNat positive
        exact ⟨_, isLeast_regularTimes_of_le (Int.not_lt.mp ahead) first⟩
    refine ⟨time, least, ?_⟩
    rw [if_neg supported, if_neg fun both => supported both.1]

theorem aheadOf_eq_max (now : Time) (start : Option Time) :
    aheadOf now start = start.elim now (max now) := by
  cases start with
  | none => rfl
  | some start =>
      unfold aheadOf
      dsimp only [Option.elim]
      split
      · rename_i before
        exact (max_eq_right (Int.le_of_lt before)).symm
      · rename_i after
        exact (max_eq_left (Int.not_lt.mp after)).symm

end Regular

/-- The next time is the first regular time that is not before the clock and the
start, or it is out of range together with that time. -/
def SkipsMissed (cronexpr : Cronexpr) (now last : StdTime) (start : Option StdTime)
    (interval : StdDuration) (immediate : Bool) : Prop :=
  ∃ time result,
    IsLeast (regularTimes last.total ((start.map StdTime.total).elim now.total (max now.total))
      interval.total) time ∧
    Machine.nextExecutionTime now start (some last) interval immediate .skip = some result ∧
    result.map (Option.map StdTime.total) =
      (if Supported (last.total + interval.total) ∧ Supported time then .ok (some time)
        else .error .outOfRange) ∧
    ∀ schedule : PendingSchedule,
      schedule.scheduling = .fixedInterval interval.total immediate .skip →
      schedule.timeRange.start = start.map StdTime.total →
      schedule.lastTargetExecutionTime = some last.total →
      nextExecutionTime cronexpr now.total schedule =
        (result.map (Option.map StdTime.total)).mapError .error

theorem missedIntervals_skipped (cronexpr : Cronexpr) (now last : StdTime)
    (start : Option StdTime) (interval : StdDuration) (immediate : Bool)
    (nonzero : interval.isZero = false) :
    SkipsMissed cronexpr now last start interval immediate := by
  have positive : 0 < interval.total := by
    refine Nat.pos_of_ne_zero fun zero => ?_
    rw [StdDuration.isZero_iff.mpr zero] at nonzero
    cases nonzero
  obtain ⟨result, computed, exactly⟩ :=
    nextFixedInterval_total (Machine.aheadOf now start) (some last) interval immediate .skip
  rw [aheadOf_total, Option.map_some] at exactly
  obtain ⟨time, least, same⟩ := nextFixedInterval_isLeast
    (aheadOf now.total (start.map StdTime.total)) last.total immediate positive
  refine ⟨time, result, ?_, computed, exactly.trans same, ?_⟩
  · rw [← aheadOf_eq_max]
    exact least
  · intro schedule scheduling starts known
    unfold nextExecutionTime
    dsimp only
    rw [scheduling, starts, known]
    exact congrArg (Except.mapError Failure.error) exactly.symm

/-- Behind by a part of an interval of ten seconds. -/
theorem missedIntervals_skipped_behind :
    SkipsMissed (fun _ => .error "") ⟨151, 0, by decide, by decide, by decide⟩
      ⟨100, 0, by decide, by decide, by decide⟩ none ⟨10, 0, by decide, by decide⟩ false :=
  missedIntervals_skipped _ _ _ _ _ _ rfl

end Ora.Server
