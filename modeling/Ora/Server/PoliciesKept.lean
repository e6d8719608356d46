import Ora.Postgres.ScheduleLink
import Ora.Proto.Policies
import Ora.Server.Loops
import Ora.Server.ScheduleTimes

/-!
# Policies after transport

The effect of a policy that the client library sent: the delays of retries, the
instants at which executions time out and the times of schedules.  A timeout
that is not representable is never reached and an interval that is not is
refused, but a backoff that is not representable becomes zero.
-/

namespace Ora.Server

open Ora.Backend
open Ora.Postgres (Store systemtimeFromTs)
open Ora.Postgres.PostgresBackend (inProgressExecutions)
open Ora.Proto (Durations Fits IntervalFits longest)

section Effects

variable (durations : Durations)

/-- The received policy has the same base time, executions that are in progress
time out at the same times, and what fits is read back. -/
structure TimeoutPolicyKept (policy received : TimeoutPolicy) : Prop where
  baseTime : received.baseTime = policy.baseTime
  timedOut : ∀ store last, ∀ execution ∈ inProgressExecutions store last, ∀ now ≤ maxSystemTime,
    timedOut now { execution with timeoutPolicy := received } =
      timedOut now { execution with timeoutPolicy := policy }
  back : Fits policy.timeout →
    Proto.Client.toTimeoutPolicy durations (Proto.Server.fromTimeoutPolicy durations received) =
      policy

structure RetryPolicyKept (policy received : RetryPolicy) : Prop where
  retries : received.retries = policy.retries
  backoffStrategy : received.backoffStrategy = policy.backoffStrategy
  retryBackoff : ∀ attemptNumber, retryBackoff received attemptNumber =
    retryBackoff policy attemptNumber
  back : Fits policy.backoffDuration → (∀ max ∈ policy.maxBackoffDuration, Fits max) →
    Proto.Client.toRetryPolicy durations (Proto.Server.fromRetryPolicy durations received) = policy

/-- The request with the received scheduling policy fails, or the policy is kept. -/
structure SchedulingPolicyKept (cronexpr : Cronexpr) (now : Time) (schedule : ScheduleDefinition)
    (received : SchedulingPolicy) : Prop where
  scheduling : (∃ error, validateSchedule cronexpr now { schedule with scheduling := received } =
    .error error) ∨ received = schedule.scheduling
  back : IntervalFits schedule.scheduling →
    Proto.Client.toSchedulingPolicy durations
      (Proto.Server.fromSchedulingPolicy durations received) = .ok schedule.scheduling

/-- The policies the server receives from the client library have the effect
they were given. -/
structure PoliciesKept (cronexpr : Cronexpr) (now : Time) (timeout : TimeoutPolicy)
    (retry : RetryPolicy) (schedule : ScheduleDefinition) : Prop where
  timeoutPolicy : TimeoutPolicyKept durations timeout
    (Proto.Server.timeoutPolicy durations (Proto.Client.timeoutPolicy durations timeout))
  retryPolicy : RetryPolicyKept durations retry
    (Proto.Server.retryPolicy durations (Proto.Client.retryPolicy durations retry))
  schedulingPolicy : ∃ received, Proto.Server.schedulingPolicy durations
      (some (Proto.Client.schedulingPolicy durations schedule.scheduling)) = .ok received ∧
    SchedulingPolicyKept durations cronexpr now schedule received

end Effects

/-- The backoff fits, or no delay is allowed between retries. -/
def BackoffKept (policy : RetryPolicy) : Prop :=
  Fits policy.backoffDuration ∨ policy.maxBackoffDuration = some 0

/-- The interval fits, or the longest one that does leads out of the supported times. -/
def IntervalKept (now : Time) (schedule : ScheduleDefinition) : Prop :=
  IntervalFits schedule.scheduling ∨
    ¬Supported (aheadOf now schedule.timeRange.start + longest)

/-- Executions in progress are read with times from the epoch on. -/
theorem inProgressExecutions_times {store : Store} {last : Option ExecutionId}
    {execution : InProgressExecution} (member : execution ∈ inProgressExecutions store last) :
    0 ≤ execution.targetExecutionTime ∧ 0 ≤ execution.startedAt := by
  have read : ∀ time, 0 ≤ systemtimeFromTs time := Postgres.systemtimeFromTs_nonneg
  obtain ⟨_, _, _, _, _, _, _, fetched⟩ := Postgres.PostgresBackend.mem_inProgressExecutions member
  rw [fetched]
  exact ⟨read _, read _⟩

/-- A timeout that does not fit ends after all times. -/
theorem timedOut_exceeds {execution : InProgressExecution} {now : Time}
    (exceeds : ¬Fits execution.timeoutPolicy.timeout) (target : 0 ≤ execution.targetExecutionTime)
    (started : 0 ≤ execution.startedAt) (representable : now ≤ maxSystemTime) :
    timedOut now execution = false := by
  have long := Int.ofNat_lt.mpr (Nat.not_le.mp (mt (Proto.fits_iff _).mpr exceeds))
  have last : maxSystemTime = (longest : Int) := by decide
  rw [last] at representable
  unfold timedOut
  simp only [Bool.and_eq_false_imp, decide_eq_false_iff_not, Int.not_lt]
  intro _
  split <;> linarith

theorem timeoutPolicyKept (durations : Durations) (policy : TimeoutPolicy) :
    TimeoutPolicyKept durations policy
      (Proto.Server.timeoutPolicy durations (Proto.Client.timeoutPolicy durations policy)) := by
  rw [Proto.timeoutPolicy_received]
  by_cases fits : Fits policy.timeout
  · rw [if_pos fits]
    exact ⟨rfl, fun _ _ _ _ _ _ => rfl, fun _ => Proto.timeoutPolicy_back durations fits⟩
  · rw [if_neg fits]
    refine ⟨rfl, ?_, fun representable => absurd representable fits⟩
    intro store last execution member now representable
    obtain ⟨target, started⟩ := inProgressExecutions_times member
    have never := @timedOut_exceeds { execution with timeoutPolicy := policy } now fits target
      started representable
    rw [never]
    simp [timedOut]

theorem longest_delay {duration : Backend.Duration} (exceeds : ¬Fits duration) :
    maxRetryBackoff < duration := by
  have year : maxRetryBackoff < longest := by decide
  exact Nat.lt_trans year (Nat.not_le.mp (mt (Proto.fits_iff duration).mpr exceeds))

/-- A maximum that does not fit is above the delays. -/
theorem retryBackoff_maxExceeds (policy : RetryPolicy) (attemptNumber : Nat) :
    retryBackoff { policy with
        maxBackoffDuration := policy.maxBackoffDuration.filter fun max => decide (Fits max) }
      attemptNumber = retryBackoff policy attemptNumber := by
  cases given : policy.maxBackoffDuration with
  | none => simp [retryBackoff, given]
  | some max =>
      by_cases fits : Fits max
      · simp [retryBackoff, given, Option.filter, fits]
      · have above := longest_delay fits
        simp only [retryBackoff, given, Option.filter, fits, decide_false, Bool.false_eq_true,
          if_false]
        rw [Nat.min_assoc, Nat.min_eq_right (Nat.le_of_lt above)]

theorem retryBackoff_zero (policy : RetryPolicy) (attemptNumber : Nat) :
    retryBackoff { policy with backoffDuration := 0 } attemptNumber = 0 := by
  unfold retryBackoff
  dsimp only
  split <;> split <;> simp

/-- A backoff that does not fit delays retries unless the maximum is zero. -/
theorem retryBackoff_exceeds {policy : RetryPolicy} (exceeds : ¬Fits policy.backoffDuration)
    (delayed : policy.maxBackoffDuration ≠ some 0) : retryBackoff policy 1 ≠ 0 := by
  have positive : 0 < policy.backoffDuration := Nat.lt_of_le_of_lt (Nat.zero_le _)
    (longest_delay exceeds)
  have year : 0 < maxRetryBackoff := by decide
  cases given : policy.maxBackoffDuration with
  | none =>
      have first : retryBackoff policy 1 = min policy.backoffDuration maxRetryBackoff := by
        unfold retryBackoff
        cases policy.backoffStrategy <;> simp [given]
      rw [first]
      exact Nat.pos_iff_ne_zero.mp (Nat.lt_min.mpr ⟨positive, year⟩)
  | some max =>
      have first : retryBackoff policy 1 = min (min policy.backoffDuration max) maxRetryBackoff := by
        unfold retryBackoff
        cases policy.backoffStrategy <;> simp [given]
      have allowed : 0 < max := Nat.pos_of_ne_zero fun zero => delayed (given.trans (by rw [zero]))
      rw [first]
      exact Nat.pos_iff_ne_zero.mp (Nat.lt_min.mpr ⟨Nat.lt_min.mpr ⟨positive, allowed⟩, year⟩)

theorem retryBackoff_noDelay {policy : RetryPolicy} (none : policy.maxBackoffDuration = some 0)
    (attemptNumber : Nat) : retryBackoff policy attemptNumber = 0 := by
  unfold retryBackoff
  simp [none]

theorem retryPolicyKept_iff (durations : Durations) (policy : RetryPolicy) :
    RetryPolicyKept durations policy
        (Proto.Server.retryPolicy durations (Proto.Client.retryPolicy durations policy)) ↔
      BackoffKept policy := by
  rw [Proto.retryPolicy_received]
  constructor
  · intro kept
    by_contra lost
    obtain ⟨exceeds, delayed⟩ := not_or.mp lost
    have same := kept.retryBackoff 1
    rw [if_neg exceeds, @retryBackoff_maxExceeds { policy with backoffDuration := 0 } 1,
      retryBackoff_zero] at same
    exact retryBackoff_exceeds exceeds delayed same.symm
  · intro kept
    refine ⟨rfl, rfl, ?_, ?_⟩
    · intro attemptNumber
      by_cases fits : Fits policy.backoffDuration
      · rw [if_pos fits]
        exact retryBackoff_maxExceeds policy attemptNumber
      · have none := kept.resolve_left fits
        rw [if_neg fits, @retryBackoff_maxExceeds { policy with backoffDuration := 0 },
          retryBackoff_zero, retryBackoff_noDelay none]
    · intro fits max
      have same : (policy.maxBackoffDuration.filter fun max => decide (Fits max)) =
          policy.maxBackoffDuration := by
        cases given : policy.maxBackoffDuration with
        | none => rfl
        | some duration => simp [Option.filter, max duration given]
      rw [if_pos fits, same]
      exact Proto.retryPolicy_back durations fits max

theorem addTime_of_supported {time : Time} {interval : Backend.Duration}
    (supported : Supported (time + interval)) : addTime time interval = .ok (time + interval) := by
  have last : maxTimestamp ≤ maxSystemTime := by decide
  have represented : checkedAdd time interval = some (time + interval) :=
    if_pos (Int.le_trans supported.2 last)
  have read : toTimestamp (time + interval) = .ok ⟨_, supported.1, supported.2⟩ := dif_pos supported
  rw [addTime, represented]
  simp only [read, Except.map]

/-- The first time of an interval is the only one that is validated. -/
theorem validateSchedule_interval (cronexpr : Cronexpr) (now : Time) (schedule : ScheduleDefinition)
    {interval : Backend.Duration} (positive : interval ≠ 0) (immediate : Bool)
    (missed : MissedTimePolicy) :
    (∃ error, validateSchedule cronexpr now
        { schedule with scheduling := .fixedInterval interval immediate missed } = .error error) ↔
      ¬Supported (aheadOf now schedule.timeRange.start + interval) := by
  unfold validateSchedule withoutImmediate nextExecutionTime nextFixedInterval
  simp only [positive, if_false, Bool.false_eq_true]
  constructor
  · rintro ⟨error, failed⟩ supported
    rw [addTime_of_supported supported] at failed
    cases failed
  · intro unsupported
    cases added : addTime (aheadOf now schedule.timeRange.start) interval with
    | error error => exact ⟨.error error, rfl⟩
    | ok next =>
        obtain ⟨rfl, supported⟩ := addTime_eq_ok added
        exact absurd supported unsupported

theorem schedulingPolicyKept_iff (durations : Durations) (cronexpr : Cronexpr) (now : Time)
    (schedule : ScheduleDefinition) :
    SchedulingPolicyKept durations cronexpr now schedule
        (Proto.receivedSchedulingPolicy schedule.scheduling) ↔ IntervalKept now schedule := by
  unfold IntervalKept
  cases given : schedule.scheduling with
  | cron expression immediate missed =>
      refine ⟨fun _ => .inl trivial, fun _ => ⟨.inr given.symm, fun _ => ?_⟩⟩
      rw [given]
      exact Proto.schedulingPolicy_back durations trivial
  | fixedInterval interval immediate missed =>
      have positive : longest ≠ 0 := by decide
      have refused := validateSchedule_interval cronexpr now schedule positive immediate missed
      unfold Proto.receivedSchedulingPolicy
      dsimp only
      by_cases fits : Fits interval
      · rw [if_pos fits]
        refine ⟨fun _ => .inl fits, fun _ => ⟨.inr given.symm, fun _ => ?_⟩⟩
        rw [given]
        exact Proto.schedulingPolicy_back durations fits
      · rw [if_neg fits]
        constructor
        · intro kept
          rcases kept.scheduling with failed | same
          · exact .inr (refused.mp failed)
          · rw [given, SchedulingPolicy.fixedInterval.injEq] at same
            exact absurd (same.1 ▸ Proto.longest_fits) fits
        · intro kept
          refine ⟨.inl (refused.mpr (kept.resolve_left fits)), fun representable => ?_⟩
          rw [given] at representable
          exact absurd representable fits

/-- The policies of the client library survive transport exactly when the
backoff is representable, or the maximum allows no delay, and the interval is
representable, or the request with the longest interval fails. -/
theorem policies_survive_transport (durations : Durations) (cronexpr : Cronexpr) (now : Time)
    (timeout : TimeoutPolicy) (retry : RetryPolicy) (schedule : ScheduleDefinition) :
    PoliciesKept durations cronexpr now timeout retry schedule ↔
      BackoffKept retry ∧ IntervalKept now schedule := by
  constructor
  · rintro ⟨_, retryKept, received, sent, kept⟩
    rw [Proto.schedulingPolicy_received] at sent
    cases sent
    exact ⟨(retryPolicyKept_iff durations retry).mp retryKept,
      (schedulingPolicyKept_iff durations cronexpr now schedule).mp kept⟩
  · rintro ⟨backoff, interval⟩
    exact ⟨timeoutPolicyKept durations timeout, (retryPolicyKept_iff durations retry).mpr backoff, _,
      Proto.schedulingPolicy_received durations schedule.scheduling,
      (schedulingPolicyKept_iff durations cronexpr now schedule).mpr interval⟩

/-- Retries after the longest duration there is, which does not fit. -/
def longestBackoff : RetryPolicy := ⟨1, 18446744073709551615999999999, none, .fixed⟩

theorem longestBackoff_not_kept :
    ¬∀ (durations : Durations) (cronexpr : Cronexpr) (now : Time) (timeout : TimeoutPolicy)
      (retry : RetryPolicy) (schedule : ScheduleDefinition),
      PoliciesKept durations cronexpr now timeout retry schedule := by
  intro claim
  have kept := (claim .standard (fun _ => .error "") 0 ⟨0, .startTime⟩ longestBackoff
    Postgres.everySecond).retryPolicy.retryBackoff 1
  revert kept
  decide

end Ora.Server
