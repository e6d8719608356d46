import Ora.Backend.Types
import Ora.Library.Binary

/-!
# Times in queries

`systemtime_to_ts` and `systemtime_from_ts` of `util.rs`, with what the database
does before and after them: times are passed as seconds in an `f64`, of which
`to_timestamp` makes whole microseconds.  Whole seconds of the times that occur
are exact in an `f64`.
-/

namespace Ora.Postgres

open Ora.Backend
open Ora.Library

def nanosPerSec : Nat := 1000000000

def microsPerSec : Nat := 1000000

/-- An `f64` of seconds is written as the number of these units in it, which are
smaller than its last digit. -/
def unitsPerSec : Nat := 2 ^ 82

/-- The `f64` that is nearest to a quotient of units. -/
def roundF64 (n d : Nat) : Nat := roundDigits 53 n d

/-- `Duration::as_secs_f64`, the sum of two `f64`. -/
def asSecsF64 (duration : Duration) : Nat :=
  roundF64 (duration / nanosPerSec * unitsPerSec +
    roundF64 (duration % nanosPerSec * unitsPerSec) nanosPerSec) 1

/-- `Duration::try_from_secs_f64` of a number that is not negative. -/
def tryFromSecsF64 (secs : Nat) : Duration :=
  roundDiv (secs * nanosPerSec) unitsPerSec

/-- The seconds from the Unix epoch to the year 2000, from which the database counts. -/
def postgresEpoch : Nat := 946684800

/-- `to_timestamp`, whose two operations on `f64` are followed by `rint`. -/
def toTimestamptz (secs : Nat) : Time :=
  let secs := signed (roundF64 · 1) (secs - postgresEpoch * unitsPerSec)
  let micros := signed (roundF64 · 1) (secs * microsPerSec)
  (signed (roundDiv · unitsPerSec) micros + postgresEpoch * microsPerSec) * 1000

/-- `EXTRACT(EPOCH FROM ts)::DOUBLE PRECISION` of a time that is not before the epoch. -/
def extractEpoch (ts : Nat) : Nat :=
  roundF64 (ts * unitsPerSec) nanosPerSec

/-- A stored time as it is read. -/
def systemtimeFromTs : Time → Time
  | .ofNat ts => tryFromSecsF64 (extractEpoch ts)
  -- a negative `f64` is no duration
  | .negSucc _ => 0

/-- A time as it is compared and stored. -/
def systemtimeToTs : Time → Time
  | .ofNat st => toTimestamptz (asSecsF64 st)
  -- `duration_since` fails, the seconds are zero
  | .negSucc _ => 0

/-- A stored time after it was read and passed back. -/
def cursorTime (ts : Time) : Time :=
  systemtimeToTs (systemtimeFromTs ts)

/-- The first time from the given one on that can be stored. -/
def wholeMicros (time : Time) : Time :=
  -(-time / 1000) * 1000

theorem unitsPerSec_pos : 0 < unitsPerSec := Nat.two_pow_pos 82

theorem roundF64_mono {d : Nat} (positive : 0 < d) : Monotone fun n => roundF64 n d :=
  roundDigits_mono positive (by decide)

theorem asSecsF64_mono : Monotone asSecsF64 := by
  intro duration longer less
  refine roundF64_mono Nat.one_pos ?_
  have seconds : duration / nanosPerSec ≤ longer / nanosPerSec := Nat.div_le_div_right less
  rcases Nat.lt_or_eq_of_le seconds with earlier | same
  · -- the fraction of a second is at most a second
    have fraction : roundF64 (duration % nanosPerSec * unitsPerSec) nanosPerSec ≤
        roundF64 (nanosPerSec * unitsPerSec) nanosPerSec :=
      roundF64_mono (by decide)
        (Nat.mul_le_mul_right _ (Nat.le_of_lt (Nat.mod_lt _ (by decide))))
    have second : roundF64 (nanosPerSec * unitsPerSec) nanosPerSec = unitsPerSec := by
      decide +kernel
    rw [second] at fraction
    calc duration / nanosPerSec * unitsPerSec +
          roundF64 (duration % nanosPerSec * unitsPerSec) nanosPerSec
        ≤ duration / nanosPerSec * unitsPerSec + unitsPerSec := Nat.add_le_add_left fraction _
      _ = (duration / nanosPerSec + 1) * unitsPerSec := (Nat.succ_mul ..).symm
      _ ≤ longer / nanosPerSec * unitsPerSec := Nat.mul_le_mul_right _ earlier
      _ ≤ _ := Nat.le_add_right ..
  · have rest : duration % nanosPerSec ≤ longer % nanosPerSec := by
      have sum : nanosPerSec * (duration / nanosPerSec) + duration % nanosPerSec ≤
          nanosPerSec * (duration / nanosPerSec) + longer % nanosPerSec := by
        rw [Nat.div_add_mod, same, Nat.div_add_mod]
        exact less
      exact Nat.le_of_add_le_add_left sum
    rw [same]
    exact Nat.add_le_add_left (roundF64_mono (by decide) (Nat.mul_le_mul_right _ rest)) _

theorem toTimestamptz_mono {secs more : Nat} (less : secs ≤ more) :
    toTimestamptz secs ≤ toTimestamptz more := by
  have seconds : signed (roundF64 · 1) (secs - postgresEpoch * unitsPerSec) ≤
      signed (roundF64 · 1) (more - postgresEpoch * unitsPerSec) :=
    signed_mono (roundF64_mono Nat.one_pos) (Int.sub_le_sub_right (Int.ofNat_le.mpr less) _)
  have micros := signed_mono (roundF64_mono Nat.one_pos)
    (Int.mul_le_mul_of_nonneg_right seconds (Int.natCast_nonneg microsPerSec))
  have whole := signed_mono (roundDiv_mono unitsPerSec_pos) micros
  exact Int.mul_le_mul_of_nonneg_right (Int.add_le_add_right whole _) (by decide)

theorem tryFromSecsF64_mono : Monotone tryFromSecsF64 := fun _ _ less =>
  roundDiv_mono unitsPerSec_pos (Nat.mul_le_mul_right _ less)

theorem extractEpoch_mono : Monotone extractEpoch := fun _ _ less =>
  roundF64_mono (by decide) (Nat.mul_le_mul_right _ less)

theorem systemtimeToTs_zero : systemtimeToTs 0 = 0 := by
  decide +kernel

theorem systemtimeToTs_nonneg (time : Time) : 0 ≤ systemtimeToTs time := by
  cases time with
  | ofNat time =>
      have zero : toTimestamptz (asSecsF64 0) = 0 := systemtimeToTs_zero
      rw [← zero]
      exact toTimestamptz_mono (asSecsF64_mono (Nat.zero_le time))
  | negSucc => exact Int.le_refl 0

theorem systemtimeFromTs_nonneg (time : Time) : 0 ≤ systemtimeFromTs time := by
  cases time with
  | ofNat => exact Int.natCast_nonneg _
  | negSucc => exact Int.le_refl 0

theorem systemtimeToTs_mono {time later : Time} (less : time ≤ later) :
    systemtimeToTs time ≤ systemtimeToTs later := by
  cases time with
  | ofNat time =>
      cases later with
      | ofNat later => exact toTimestamptz_mono (asSecsF64_mono (Int.ofNat_le.mp less))
      | negSucc => exact absurd ((Int.natCast_nonneg time).trans less) (Int.negSucc_not_nonneg _).mp
  | negSucc => exact systemtimeToTs_nonneg later

theorem systemtimeFromTs_mono {time later : Time} (less : time ≤ later) :
    systemtimeFromTs time ≤ systemtimeFromTs later := by
  cases time with
  | ofNat time =>
      cases later with
      | ofNat later =>
          exact Int.ofNat_le.mpr (tryFromSecsF64_mono (extractEpoch_mono (Int.ofNat_le.mp less)))
      | negSucc => exact absurd ((Int.natCast_nonneg time).trans less) (Int.negSucc_not_nonneg _).mp
  | negSucc => exact systemtimeFromTs_nonneg later

theorem cursorTime_mono {time later : Time} (less : time ≤ later) :
    cursorTime time ≤ cursorTime later :=
  systemtimeToTs_mono (systemtimeFromTs_mono less)

theorem dvd_wholeMicros (time : Time) : 1000 ∣ wholeMicros time :=
  Int.dvd_mul_left ..

theorem wholeMicros_le_iff {time ts : Time} (whole : 1000 ∣ ts) :
    wholeMicros time ≤ ts ↔ time ≤ ts := by
  obtain ⟨micros, rfl⟩ := whole
  have rounded : -(-time / 1000) ≤ micros ↔ time ≤ 1000 * micros := by
    grind
  rw [wholeMicros, Int.mul_comm, Int.mul_le_mul_left (by decide), rounded]

theorem lt_wholeMicros_iff {time ts : Time} (whole : 1000 ∣ ts) :
    ts < wholeMicros time ↔ ts < time := by
  rw [← Int.not_le, wholeMicros_le_iff whole, Int.not_le]

theorem dvd_systemtimeToTs (time : Time) : 1000 ∣ systemtimeToTs time := by
  cases time with
  | ofNat => exact Int.dvd_mul_left ..
  | negSucc => exact Int.dvd_zero _

end Ora.Postgres
