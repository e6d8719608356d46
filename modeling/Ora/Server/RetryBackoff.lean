import Ora.Library.MachineTime
import Ora.Server.Loops

/-!
# The backoff of retries

`retry_backoff` with its words, beside the exponential law in exact numbers.
The multiplier is a `u32`, so the law is left once the power does not fit and
the caps are still out of its reach.
-/

namespace Ora.Server

open Ora.Backend
open Ora.Library

namespace Machine

structure RetryPolicy where
  retries : Nat
  backoffDuration : StdDuration
  maxBackoffDuration : Option StdDuration
  backoffStrategy : BackoffStrategy

def RetryPolicy.total (policy : RetryPolicy) : Backend.RetryPolicy :=
  ⟨policy.retries, policy.backoffDuration.total, policy.maxBackoffDuration.map StdDuration.total,
    policy.backoffStrategy⟩

def maxRetryBackoff : StdDuration :=
  ⟨365 * 24 * 3600, 0, by decide, by decide⟩

/-- `2u32.checked_pow` -/
def checkedPow (exponent : Nat) : Option Nat :=
  if exponent < 32 then some (Nat.pow 2 exponent) else none

def backoffMultiplier (attemptNumber : Nat) : Nat :=
  ((word u32Max (attemptNumber - 1)).bind checkedPow).getD u32Max

def retryBackoff (retryPolicy : RetryPolicy) (attemptNumber : Nat) : StdDuration :=
  let backoffDuration :=
    match retryPolicy.backoffStrategy with
    | .fixed => retryPolicy.backoffDuration
    | .exponential =>
        retryPolicy.backoffDuration.saturatingMul (backoffMultiplier attemptNumber)
  let backoffDuration :=
    match retryPolicy.maxBackoffDuration with
    | some maxBackoff => backoffDuration.least maxBackoff
    | none => backoffDuration
  backoffDuration.least maxRetryBackoff

end Machine

/-- The smaller one of the two caps. -/
def backoffCap (policy : RetryPolicy) : Duration :=
  policy.maxBackoffDuration.elim maxRetryBackoff (min maxRetryBackoff)

/-- The duration doubled for each attempt after the first, up to the caps. -/
def exponentialBackoff (policy : RetryPolicy) (attemptNumber : Nat) : Duration :=
  min (policy.backoffDuration * Nat.pow 2 (attemptNumber - 1)) (backoffCap policy)

section Law

variable {policy : RetryPolicy} {attemptNumber later : Nat}

theorem backoffCap_le (policy : RetryPolicy) : backoffCap policy ≤ maxRetryBackoff := by
  unfold backoffCap
  cases policy.maxBackoffDuration with
  | none => exact Nat.le_refl _
  | some maxBackoff => exact Nat.min_le_left ..

theorem checkedPow_eq_none {exponent : Nat} (exceeds : 32 ≤ exponent) :
    Machine.checkedPow exponent = none :=
  if_neg (Nat.not_lt.mpr exceeds)

theorem backoffMultiplier_of_le (short : attemptNumber ≤ 32) :
    Machine.backoffMultiplier attemptNumber = Nat.pow 2 (attemptNumber - 1) := by
  have fits : attemptNumber - 1 ≤ u32Max := Nat.le_trans (Nat.sub_le ..) (Nat.le_trans short (by decide))
  have power : attemptNumber - 1 < 32 := by omega
  unfold Machine.backoffMultiplier Machine.checkedPow
  rw [word_of_le fits, Option.bind_some, if_pos power, Option.getD_some]

theorem backoffMultiplier_of_lt (long : 32 < attemptNumber) :
    Machine.backoffMultiplier attemptNumber = u32Max := by
  have power : 32 ≤ attemptNumber - 1 := by omega
  unfold Machine.backoffMultiplier word
  split
  · rw [Option.bind_some, checkedPow_eq_none power, Option.getD_none]
  · rfl

theorem two_pow_le {exponent : Nat} (short : exponent ≤ 31) : Nat.pow 2 exponent ≤ u32Max :=
  Nat.le_trans (Nat.pow_le_pow_right (by decide) short) (by decide)

theorem u32Max_lt_two_pow {exponent : Nat} (long : 32 ≤ exponent) : u32Max < Nat.pow 2 exponent :=
  Nat.lt_of_lt_of_le (by decide : u32Max < Nat.pow 2 32) (Nat.pow_le_pow_right (by decide) long)

/-- The multiplier grows until it is saturated. -/
theorem backoffMultiplier_mono (ordered : attemptNumber ≤ later) :
    Machine.backoffMultiplier attemptNumber ≤ Machine.backoffMultiplier later := by
  by_cases long : 32 < later
  · rw [backoffMultiplier_of_lt long]
    by_cases short : attemptNumber ≤ 32
    · rw [backoffMultiplier_of_le short]
      exact two_pow_le (by omega)
    · rw [backoffMultiplier_of_lt (Nat.not_le.mp short)]
  · rw [backoffMultiplier_of_le (Nat.not_lt.mp long), backoffMultiplier_of_le (by omega)]
    exact Nat.pow_le_pow_right (by decide) (by omega)

theorem retryBackoff_eq_min (exponential : policy.backoffStrategy = .exponential) :
    retryBackoff policy attemptNumber =
      min (policy.backoffDuration * Machine.backoffMultiplier attemptNumber)
        (backoffCap policy) := by
  have multiplier : (if attemptNumber - 1 < 32 then Nat.pow 2 (attemptNumber - 1) else maxU32) =
      Machine.backoffMultiplier attemptNumber := by
    split
    · rename_i power
      exact (backoffMultiplier_of_le (by omega)).symm
    · rename_i exceeds
      exact (backoffMultiplier_of_lt (by omega)).symm
  unfold retryBackoff backoffCap
  rw [exponential]
  dsimp only
  rw [multiplier]
  cases policy.maxBackoffDuration with
  | none => rfl
  | some maxBackoff =>
      dsimp only [Option.elim]
      rw [Nat.min_assoc, Nat.min_comm maxBackoff]

theorem min_eq_min_iff {value other : Nat} (cap : Nat) (less : value < other) :
    min value cap = min other cap ↔ cap ≤ value := by
  omega

theorem backoffCap_none (policy : RetryPolicy) (uncapped : policy.maxBackoffDuration = none) :
    backoffCap policy = maxRetryBackoff := by
  unfold backoffCap
  rw [uncapped, Option.elim_none]

theorem backoffCap_some {maxBackoff : Duration}
    (capped : policy.maxBackoffDuration = some maxBackoff) :
    backoffCap policy = min maxRetryBackoff maxBackoff := by
  unfold backoffCap
  rw [capped, Option.elim_some]

theorem maxRetryBackoff_total : Machine.maxRetryBackoff.total = maxRetryBackoff := by
  decide

/-- Saturation beyond the longest duration is hidden by the caps. -/
theorem retryBackoff_total (policy : Machine.RetryPolicy) (attemptNumber : Nat)
    (exponential : policy.backoffStrategy = .exponential) :
    (Machine.retryBackoff policy attemptNumber).total =
      retryBackoff policy.total attemptNumber := by
  rw [@retryBackoff_eq_min policy.total _ exponential]
  unfold Machine.retryBackoff
  rw [exponential]
  cases given : policy.maxBackoffDuration with
  | none =>
      rw [backoffCap_none policy.total (by rw [Machine.RetryPolicy.total, given]; rfl)]
      dsimp only
      rw [StdDuration.saturatingMul_least_total, maxRetryBackoff_total]
      rfl
  | some maxBackoff =>
      rw [@backoffCap_some policy.total maxBackoff.total
        (by rw [Machine.RetryPolicy.total, given]; rfl)]
      dsimp only
      rw [StdDuration.least_total, StdDuration.saturatingMul_least_total, maxRetryBackoff_total,
        Nat.min_assoc, Nat.min_comm maxBackoff.total]
      rfl

/-- The law is left exactly when the saturated multiplier shows below the caps. -/
theorem retryBackoff_eq_iff (exponential : policy.backoffStrategy = .exponential) :
    retryBackoff policy attemptNumber = exponentialBackoff policy attemptNumber ↔
      attemptNumber ≤ 32 ∨ policy.backoffDuration = 0 ∨
        backoffCap policy ≤ policy.backoffDuration * u32Max := by
  unfold exponentialBackoff
  rw [retryBackoff_eq_min exponential]
  by_cases short : attemptNumber ≤ 32
  · rw [backoffMultiplier_of_le short]
    exact ⟨fun _ => .inl short, fun _ => rfl⟩
  · have power : 32 ≤ attemptNumber - 1 := by omega
    have exceeds := u32Max_lt_two_pow power
    rw [backoffMultiplier_of_lt (Nat.not_le.mp short)]
    constructor
    · intro same
      refine .inr ?_
      by_cases none : policy.backoffDuration = 0
      · exact .inl none
      · have grows := Nat.mul_lt_mul_of_pos_left exceeds (Nat.pos_of_ne_zero none)
        exact .inr ((min_eq_min_iff _ grows).mp same)
    · rintro (impossible | none | capped)
      · exact absurd impossible short
      · rw [none, Nat.zero_mul, Nat.zero_mul]
      · have grows := Nat.mul_le_mul_left policy.backoffDuration (Nat.le_of_lt exceeds)
        rw [Nat.min_eq_right capped, Nat.min_eq_right (Nat.le_trans capped grows)]

theorem retryBackoff_mono (exponential : policy.backoffStrategy = .exponential)
    (ordered : attemptNumber ≤ later) :
    retryBackoff policy attemptNumber ≤ retryBackoff policy later := by
  rw [retryBackoff_eq_min exponential, retryBackoff_eq_min exponential]
  exact min_le_min_right _ (Nat.mul_le_mul_left _ (backoffMultiplier_mono ordered))

theorem retryBackoff_le_cap (exponential : policy.backoffStrategy = .exponential) :
    retryBackoff policy attemptNumber ≤ backoffCap policy := by
  rw [retryBackoff_eq_min exponential]
  exact Nat.min_le_right ..

end Law

/-- The backoff follows the law up to the caps, never decreases, and can be added
to every clock that is not within the longest backoff of the end of its range. -/
structure BackoffLaw (policy : Machine.RetryPolicy) (attemptNumber : Nat) : Prop where
  exact : (Machine.retryBackoff policy attemptNumber).total =
    exponentialBackoff policy.total attemptNumber
  mono : ∀ later, attemptNumber ≤ later →
    (Machine.retryBackoff policy attemptNumber).total ≤ (Machine.retryBackoff policy later).total
  le_max : ∀ maxBackoff, policy.maxBackoffDuration = some maxBackoff →
    (Machine.retryBackoff policy attemptNumber).total ≤ maxBackoff.total
  le_year : (Machine.retryBackoff policy attemptNumber).total ≤ Machine.maxRetryBackoff.total
  representable : ∀ now : StdTime, now.total + Machine.maxRetryBackoff.total ≤ StdTime.latest →
    ∃ time, now.checkedAdd (Machine.retryBackoff policy attemptNumber) = some time ∧
      time.total = now.total + (Machine.retryBackoff policy attemptNumber).total

/-- The multiplier is not saturated, or the caps hide that it is. -/
def Unsaturated (policy : Machine.RetryPolicy) (attemptNumber : Nat) : Prop :=
  attemptNumber ≤ 32 ∨ policy.backoffDuration.total = 0 ∨
    backoffCap policy.total ≤ policy.backoffDuration.total * u32Max

theorem retryBackoff_follows_iff (policy : Machine.RetryPolicy) (attemptNumber : Nat)
    (exponential : policy.backoffStrategy = .exponential) :
    BackoffLaw policy attemptNumber ↔ Unsaturated policy attemptNumber := by
  have strategy : policy.total.backoffStrategy = .exponential := exponential
  have year : (Machine.retryBackoff policy attemptNumber).total ≤
      Machine.maxRetryBackoff.total := by
    rw [retryBackoff_total policy _ exponential]
    exact Nat.le_trans (retryBackoff_le_cap strategy) (backoffCap_le _)
  refine ⟨fun law => ?_, fun unsaturated => ⟨?_, ?_, ?_, year, ?_⟩⟩
  · refine (retryBackoff_eq_iff strategy).mp ?_
    rw [← retryBackoff_total policy _ exponential]
    exact law.exact
  · rw [retryBackoff_total policy _ exponential]
    exact (retryBackoff_eq_iff strategy).mpr unsaturated
  · intro later ordered
    rw [retryBackoff_total policy _ exponential, retryBackoff_total policy _ exponential]
    exact retryBackoff_mono strategy ordered
  · intro maxBackoff given
    rw [retryBackoff_total policy _ exponential]
    refine Nat.le_trans (retryBackoff_le_cap strategy) ?_
    rw [@backoffCap_some policy.total maxBackoff.total
      (by rw [Machine.RetryPolicy.total, given]; rfl)]
    exact Nat.min_le_right ..
  · intro now room
    exact now.checkedAdd_of_le (Int.add_le_add_left (Int.ofNat_le.mpr year) _) room

/-- A backoff of a nanosecond without a cap of its own. -/
def shortBackoff : Machine.RetryPolicy :=
  ⟨18446744073709551615, ⟨0, 1, by decide, by decide⟩, none, .exponential⟩

theorem retryBackoff_follows_iff_third : BackoffLaw shortBackoff 3 ↔ Unsaturated shortBackoff 3 :=
  retryBackoff_follows_iff shortBackoff 3 rfl

/-- The backoff after the attempt 33 is a nanosecond short, and it stays there. -/
theorem shortBackoff_saturated :
    ¬∀ (policy : Machine.RetryPolicy) (attemptNumber : Nat),
      policy.backoffStrategy = .exponential → 1 ≤ attemptNumber → attemptNumber ≤ u64Max →
        BackoffLaw policy attemptNumber := by
  intro follows
  have same := (follows shortBackoff 33 rfl (by decide) (by decide)).exact
  have differs : ¬(Machine.retryBackoff shortBackoff 33).total =
      exponentialBackoff shortBackoff.total 33 := by decide
  exact differs same

end Ora.Server
