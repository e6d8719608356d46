import Mathlib.Data.Int.Notation
import Mathlib.Tactic.Linarith
import Mathlib.Tactic.Ring

/-!
# Words, durations and clock times

Durations and clock times are whole seconds in a word and nanoseconds below a
second.  An operation has no result where the machine's would differ from the
exact one, because it panics, wraps or drops bits.
-/

namespace Ora.Library

def u32Max : Nat := 4294967295

def u64Max : Nat := 18446744073709551615

def u128Max : Nat := 340282366920938463463374607431768211455

def i64Min : Int := -9223372036854775808

def i64Max : Int := 9223372036854775807

def secondNanos : Nat := 1000000000

/-- The value, in a word that holds values up to the greatest. -/
def word (greatest value : Nat) : Option Nat :=
  if value ≤ greatest then some value else none

theorem word_of_le {greatest value : Nat} (fits : value ≤ greatest) :
    word greatest value = some value :=
  if_pos fits

/-- The quotient rounded up, there is none by zero. -/
def divCeil (dividend divisor : Nat) : Option Nat :=
  if divisor = 0 then
    none
  else
    some (if 0 < dividend % divisor then dividend / divisor + 1 else dividend / divisor)

/-- The quotient is the first whose multiple covers the dividend. -/
theorem divCeil_eq_some {divisor : Nat} (dividend : Nat) (positive : 0 < divisor) :
    ∃ quotient, divCeil dividend divisor = some quotient ∧
      ∀ other, quotient ≤ other ↔ dividend ≤ other * divisor := by
  refine ⟨_, if_neg (Nat.ne_of_gt positive), fun other => ?_⟩
  have split := Nat.div_add_mod' dividend divisor
  have rest := Nat.mod_lt dividend positive
  split
  · rename_i remainder
    constructor
    · intro least
      have covered := Nat.mul_le_mul_right divisor least
      rw [Nat.succ_mul] at covered
      omega
    · intro covered
      refine Nat.succ_le_of_lt (Nat.div_lt_of_lt_mul ?_)
      rw [Nat.mul_comm]
      have differs : dividend ≠ other * divisor := by
        rintro rfl
        rw [Nat.mul_mod_left] at remainder
        exact Nat.lt_irrefl 0 remainder
      exact lt_of_le_of_ne covered differs
  · rename_i exactly
    have whole : dividend / divisor * divisor = dividend := by omega
    constructor
    · intro least
      exact whole ▸ Nat.mul_le_mul_right divisor least
    · intro covered
      rw [← whole] at covered
      exact Nat.le_of_mul_le_mul_right covered positive

/-- `std::time::Duration` -/
structure StdDuration where
  secs : Nat
  nanos : Nat
  secs_le : secs ≤ u64Max
  nanos_lt : nanos < secondNanos

namespace StdDuration

variable {duration other : StdDuration}

/-- All nanoseconds of the duration. -/
def total (duration : StdDuration) : Nat :=
  duration.secs * secondNanos + duration.nanos

/-- `Duration::MAX` -/
def longest : StdDuration :=
  ⟨u64Max, 999999999, Nat.le_refl _, by decide⟩

def isZero (duration : StdDuration) : Bool :=
  duration.secs == 0 && duration.nanos == 0

theorem isZero_iff : duration.isZero = true ↔ duration.total = 0 := by
  unfold isZero total secondNanos
  rw [Bool.and_eq_true, beq_iff_eq, beq_iff_eq]
  omega

theorem total_le (duration : StdDuration) : duration.total ≤ longest.total := by
  have secs := duration.secs_le
  have nanos := duration.nanos_lt
  unfold total longest
  unfold secondNanos at *
  dsimp only
  omega

/-- The order of the fields is the order of the nanoseconds. -/
def le (duration other : StdDuration) : Bool :=
  decide (duration.secs < other.secs) ||
    duration.secs == other.secs && decide (duration.nanos ≤ other.nanos)

theorem le_iff : duration.le other = true ↔ duration.total ≤ other.total := by
  have nanos := duration.nanos_lt
  have others := other.nanos_lt
  unfold le total
  unfold secondNanos at *
  rw [Bool.or_eq_true, Bool.and_eq_true, decide_eq_true_iff, decide_eq_true_iff, beq_iff_eq]
  omega

/-- `Ord::min` -/
def least (duration other : StdDuration) : StdDuration :=
  if duration.le other then duration else other

@[simp]
theorem least_total : (duration.least other).total = min duration.total other.total := by
  unfold least
  split
  · rename_i before
    exact (Nat.min_eq_left (le_iff.mp before)).symm
  · rename_i after
    rw [le_iff] at after
    exact (Nat.min_eq_right (Nat.le_of_not_le after)).symm

/-- `Duration::as_nanos` -/
def asNanos (duration : StdDuration) : Option Nat := do
  let scaled ← word u128Max (duration.secs * secondNanos)
  word u128Max (scaled + duration.nanos)

theorem asNanos_eq (duration : StdDuration) : duration.asNanos = some duration.total := by
  have secs := duration.secs_le
  have nanos := duration.nanos_lt
  unfold u64Max at secs
  unfold secondNanos at nanos
  have scaled : duration.secs * secondNanos ≤ u128Max := by
    unfold secondNanos u128Max
    omega
  have whole : duration.secs * secondNanos + duration.nanos ≤ u128Max := by
    unfold secondNanos u128Max
    omega
  unfold asNanos
  rw [word_of_le scaled, Option.bind_eq_bind, Option.bind_some, word_of_le whole]
  rfl

/-- `Duration::new` -/
def new (secs nanos : Nat) : Option StdDuration :=
  if carried : secs + nanos / secondNanos ≤ u64Max then
    some ⟨secs + nanos / secondNanos, nanos % secondNanos, carried, Nat.mod_lt _ (by decide)⟩
  else
    none

theorem new_total {secs nanos : Nat} (bounded : secs ≤ u64Max) (below : nanos < secondNanos) :
    ∃ duration, new secs nanos = some duration ∧
      duration.total = secs * secondNanos + nanos := by
  have none : nanos / secondNanos = 0 := Nat.div_eq_of_lt below
  refine ⟨_, dif_pos (by rwa [none]), ?_⟩
  unfold total
  dsimp only
  rw [none, Nat.mod_eq_of_lt below, Nat.add_zero]

/-- `Duration::checked_mul` -/
def checkedMul (duration : StdDuration) (factor : Nat) : Option StdDuration :=
  let totalNanos := duration.nanos * factor
  let secs := duration.secs * factor + totalNanos / secondNanos
  if bounded : secs ≤ u64Max then
    some ⟨secs, totalNanos % secondNanos, bounded, Nat.mod_lt _ (by decide)⟩
  else
    none

/-- `Duration::saturating_mul` -/
def saturatingMul (duration : StdDuration) (factor : Nat) : StdDuration :=
  (duration.checkedMul factor).getD longest

@[simp]
theorem saturatingMul_total (duration : StdDuration) (factor : Nat) :
    (duration.saturatingMul factor).total = min (duration.total * factor) longest.total := by
  have carried := Nat.div_add_mod' (duration.nanos * factor) secondNanos
  have below := Nat.mod_lt (duration.nanos * factor) (by decide : 0 < secondNanos)
  have scaled : duration.total * factor =
      duration.secs * factor * secondNanos + duration.nanos * factor := by
    unfold total
    ring
  unfold saturatingMul checkedMul
  dsimp only
  split
  · rename_i bounded
    have sum : duration.total * factor =
        (duration.secs * factor + duration.nanos * factor / secondNanos) * secondNanos +
          duration.nanos * factor % secondNanos := by
      rw [scaled, Nat.add_mul]
      omega
    rw [Option.getD_some, sum]
    symm
    exact Nat.min_eq_left (total_le ⟨_, _, bounded, below⟩)
  · rename_i exceeds
    rw [Option.getD_none]
    symm
    refine Nat.min_eq_right ?_
    rw [scaled]
    unfold total longest
    unfold secondNanos at *
    dsimp only
    omega

/-- A cap hides that the product is saturated. -/
theorem saturatingMul_least_total (duration : StdDuration) (factor : Nat) (cap : StdDuration) :
    ((duration.saturatingMul factor).least cap).total =
      min (duration.total * factor) cap.total := by
  have longer := cap.total_le
  rw [least_total, saturatingMul_total, Nat.min_assoc, Nat.min_eq_right longer]

end StdDuration

/-- `std::time::SystemTime`, seconds and nanoseconds since the epoch. -/
structure StdTime where
  secs : Int
  nanos : Nat
  lower : i64Min ≤ secs
  upper : secs ≤ i64Max
  nanos_lt : nanos < secondNanos

namespace StdTime

variable {time other : StdTime}

/-- All nanoseconds since the epoch. -/
def total (time : StdTime) : Int :=
  time.secs * secondNanos + time.nanos

def latest : Int :=
  i64Max * secondNanos + 999999999

theorem total_le (time : StdTime) : time.total ≤ latest := by
  have secs := time.upper
  have nanos := time.nanos_lt
  unfold total latest
  unfold secondNanos at *
  push_cast
  omega

def lt (time other : StdTime) : Bool :=
  decide (time.secs < other.secs) ||
    time.secs == other.secs && decide (time.nanos < other.nanos)

theorem lt_iff : time.lt other = true ↔ time.total < other.total := by
  have nanos := time.nanos_lt
  have others := other.nanos_lt
  unfold lt total
  unfold secondNanos at *
  push_cast
  rw [Bool.or_eq_true, Bool.and_eq_true, decide_eq_true_iff, decide_eq_true_iff, beq_iff_eq]
  omega

theorem le_carried (secs : Int) (more carry : Nat) : secs ≤ secs + more + carry := by
  omega

/-- `SystemTime::checked_add` -/
def checkedAdd (time : StdTime) (duration : StdDuration) : Option StdTime :=
  let nanos := time.nanos + duration.nanos
  let secs : Int := time.secs + duration.secs + (nanos / secondNanos : Nat)
  if bounded : secs ≤ i64Max then
    some ⟨secs, nanos % secondNanos, Int.le_trans time.lower (le_carried ..), bounded,
      Nat.mod_lt _ (by decide)⟩
  else
    none

theorem checkedAdd_total (time : StdTime) (duration : StdDuration) :
    (time.checkedAdd duration).map total =
      if time.total + duration.total ≤ latest then some (time.total + duration.total) else none := by
  have carried := Nat.div_add_mod' (time.nanos + duration.nanos) secondNanos
  have below := Nat.mod_lt (time.nanos + duration.nanos) (by decide : 0 < secondNanos)
  unfold checkedAdd
  dsimp only
  split
  · rename_i bounded
    have sum : (⟨_, (time.nanos + duration.nanos) % secondNanos,
        Int.le_trans time.lower (le_carried ..), bounded, below⟩ : StdTime).total =
        time.total + duration.total := by
      unfold total StdDuration.total
      unfold secondNanos at *
      dsimp only
      push_cast
      omega
    rw [Option.map_some, sum, if_pos (sum ▸ total_le _)]
  · rename_i exceeds
    rw [Option.map_none, if_neg]
    unfold total latest StdDuration.total
    unfold secondNanos at *
    push_cast
    omega

theorem checkedAdd_of_le {later : Int} {duration : StdDuration}
    (room : time.total + duration.total ≤ later) (bounded : later ≤ latest) :
    ∃ sum, time.checkedAdd duration = some sum ∧ sum.total = time.total + duration.total := by
  have exactly := time.checkedAdd_total duration
  rw [if_pos (Int.le_trans room bounded)] at exactly
  exact Option.map_eq_some_iff.mp exactly

/-- `SystemTime::duration_since`, if the other time is not after the time. -/
def durationSince (time other : StdTime) : Option StdDuration :=
  if time.lt other then
    none
  else if other.nanos ≤ time.nanos then
    StdDuration.new (time.secs - other.secs).toNat (time.nanos - other.nanos)
  else
    StdDuration.new (time.secs - other.secs - 1).toNat (time.nanos + secondNanos - other.nanos)

theorem durationSince_of_lt (before : time.total < other.total) :
    time.durationSince other = none :=
  if_pos (lt_iff.mpr before)

theorem durationSince_of_le (after : other.total ≤ time.total) :
    ∃ duration, time.durationSince other = some duration ∧
      (duration.total : Int) = time.total - other.total := by
  have ordered : ¬time.lt other = true := fun before =>
    Int.not_lt.mpr after (lt_iff.mp before)
  have nanos := time.nanos_lt
  have others := other.nanos_lt
  have upper := time.upper
  have lower := other.lower
  unfold i64Max at upper
  unfold i64Min at lower
  unfold durationSince
  rw [if_neg ordered]
  unfold total at after ⊢
  unfold secondNanos at nanos others after
  split
  · rename_i carried
    obtain ⟨duration, same, whole⟩ := StdDuration.new_total
      (by unfold u64Max; omega : (time.secs - other.secs).toNat ≤ u64Max)
      (by unfold secondNanos; omega : time.nanos - other.nanos < secondNanos)
    refine ⟨duration, same, ?_⟩
    rw [whole]
    unfold secondNanos
    push_cast
    omega
  · rename_i borrowed
    obtain ⟨duration, same, whole⟩ := StdDuration.new_total
      (by unfold u64Max; omega : (time.secs - other.secs - 1).toNat ≤ u64Max)
      (by unfold secondNanos; omega : time.nanos + secondNanos - other.nanos < secondNanos)
    refine ⟨duration, same, ?_⟩
    rw [whole]
    unfold secondNanos
    push_cast
    omega

end StdTime

end Ora.Library
