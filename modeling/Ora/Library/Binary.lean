import Mathlib.Data.Nat.Log
import Mathlib.Order.Monotone.Basic
import Mathlib.Tactic.Ring

/-!
# Rounding to binary digits

A quotient of whole numbers is rounded to the nearest whole number, or to the
nearest one with so many significant binary digits, ties to even.  Numbers with
a fraction are counted in small units, of which a quotient is taken.
-/

namespace Ora.Library

/-- The nearest whole number, the even one if there are two. -/
def roundDiv (n d : Nat) : Nat :=
  if 2 * (n % d) < d then
    n / d
  else if d < 2 * (n % d) then
    n / d + 1
  else
    n / d + n / d % 2

/-- A number is rounded down to `k` before the middle of `k` and `k + 1`. -/
theorem roundDiv_le_iff {n d k : Nat} (positive : 0 < d) :
    roundDiv n d ≤ k ↔ 2 * n < (2 * k + 1) * d ∨ 2 * n = (2 * k + 1) * d ∧ k % 2 = 0 := by
  have split : n = n / d * d + n % d := (Nat.div_add_mod' n d).symm
  have rest : n % d < d := Nat.mod_lt n positive
  have middle : (2 * k + 1) * d = 2 * (k * d) + d := by ring
  have whole : roundDiv n d = n / d ∨ roundDiv n d = n / d + 1 := by
    unfold roundDiv
    split_ifs <;> omega
  rcases Nat.lt_trichotomy k (n / d) with below | rfl | above
  · have covered : (k + 1) * d ≤ n / d * d := Nat.mul_le_mul_right d below
    rw [Nat.succ_mul] at covered
    refine iff_of_false (by omega) ?_
    omega
  · unfold roundDiv
    split_ifs <;> omega
  · have covered : (n / d + 1) * d ≤ k * d := Nat.mul_le_mul_right d above
    rw [Nat.succ_mul] at covered
    refine iff_of_true (by omega) ?_
    omega

theorem roundDiv_mono {d : Nat} (positive : 0 < d) : Monotone fun n => roundDiv n d := by
  intro n larger less
  have below := (roundDiv_le_iff positive).mp (Nat.le_refl (roundDiv larger d))
  have double : 2 * n ≤ 2 * larger := Nat.mul_le_mul_left 2 less
  refine (roundDiv_le_iff positive).mpr ?_
  rcases below with before | ⟨middle, even⟩
  · exact .inl (Nat.lt_of_le_of_lt double before)
  · exact (Nat.lt_or_eq_of_le (middle ▸ double)).imp_right fun same => ⟨same, even⟩

theorem roundDiv_mul (k : Nat) {d : Nat} (positive : 0 < d) : roundDiv (k * d) d = k := by
  unfold roundDiv
  rw [Nat.mul_mod_left, Nat.mul_div_cancel k positive, if_pos (by omega)]

section Digits

variable {digits : Nat}

/-- The distance of the numbers with `digits` significant digits around `q`. -/
def spacing (digits q : Nat) : Nat :=
  2 ^ (Nat.log2 q + 1 - digits)

/-- The number with `digits` significant digits that is nearest to a quotient. -/
def roundDigits (digits n d : Nat) : Nat :=
  roundDiv n (d * spacing digits (n / d)) * spacing digits (n / d)

theorem spacing_pos (digits q : Nat) : 0 < spacing digits q :=
  Nat.two_pow_pos _

theorem log2_mono {q larger : Nat} (less : q ≤ larger) : Nat.log2 q ≤ Nat.log2 larger := by
  rw [Nat.log2_eq_log_two, Nat.log2_eq_log_two]
  exact Nat.log_mono_right less

/-- What is below a power of two is not rounded beyond it. -/
theorem roundDigits_le {n d exponent : Nat} (positive : 0 < d) (enough : 0 < digits)
    (below : n / d < 2 ^ exponent) : roundDigits digits n d ≤ 2 ^ exponent := by
  have inside : Nat.log2 (n / d) + 1 - digits ≤ exponent := by
    by_cases zero : n / d = 0
    · rw [zero, Nat.log2_zero]
      omega
    · have := (Nat.log2_lt zero).mpr below
      omega
  have power : 2 ^ (exponent - (Nat.log2 (n / d) + 1 - digits)) * spacing digits (n / d) =
      2 ^ exponent := by
    rw [spacing, ← Nat.pow_add, Nat.sub_add_cancel inside]
  have bound : n ≤ 2 ^ (exponent - (Nat.log2 (n / d) + 1 - digits)) *
      (d * spacing digits (n / d)) := by
    rw [Nat.mul_left_comm, power]
    exact Nat.le_of_lt ((Nat.div_lt_iff_lt_mul positive).mp below |>.trans_eq (Nat.mul_comm _ _))
  calc roundDigits digits n d
      ≤ 2 ^ (exponent - (Nat.log2 (n / d) + 1 - digits)) * spacing digits (n / d) := by
        refine Nat.mul_le_mul_right _ ?_
        have wide := Nat.mul_pos positive (spacing_pos digits (n / d))
        exact (roundDiv_mono wide bound).trans_eq (roundDiv_mul _ wide)
    _ = 2 ^ exponent := power

/-- What is not below a power of two of enough digits is not rounded below it. -/
theorem le_roundDigits {n d exponent : Nat} (positive : 0 < d)
    (same : Nat.log2 (n / d) = exponent) (wide : digits ≤ exponent + 1) (nonzero : n / d ≠ 0)
    (enough : 0 < digits) : 2 ^ exponent ≤ roundDigits digits n d := by
  subst same
  have power : 2 ^ (digits - 1) * spacing digits (n / d) = 2 ^ Nat.log2 (n / d) := by
    rw [spacing, ← Nat.pow_add]
    congr 1
    omega
  have bound : 2 ^ (digits - 1) * (d * spacing digits (n / d)) ≤ n := by
    rw [Nat.mul_left_comm, power, Nat.mul_comm]
    exact (Nat.le_div_iff_mul_le positive).mp (Nat.log2_self_le nonzero)
  have room := Nat.mul_pos positive (spacing_pos digits (n / d))
  rw [← power, roundDigits]
  refine Nat.mul_le_mul_right _ ?_
  exact (roundDiv_mul _ room).symm.trans_le (roundDiv_mono room bound)

theorem roundDigits_mono {d : Nat} (positive : 0 < d) (enough : 0 < digits) :
    Monotone fun n => roundDigits digits n d := by
  intro n larger less
  have quotients : n / d ≤ larger / d := Nat.div_le_div_right less
  by_cases same : spacing digits (n / d) = spacing digits (larger / d)
  · change roundDigits digits n d ≤ roundDigits digits larger d
    rw [roundDigits, roundDigits, same]
    exact Nat.mul_le_mul_right _
      (roundDiv_mono (Nat.mul_pos positive (spacing_pos digits _)) less)
  · -- a power of two lies between the quotients
    have logs := log2_mono quotients
    have apart : Nat.log2 (n / d) + 1 - digits < Nat.log2 (larger / d) + 1 - digits := by
      refine Nat.lt_of_le_of_ne (by omega) fun equal => same ?_
      rw [spacing, spacing, equal]
    have nonzero : larger / d ≠ 0 := by
      intro zero
      rw [zero, Nat.log2_zero] at apart
      omega
    calc roundDigits digits n d
        ≤ 2 ^ Nat.log2 (larger / d) := by
          refine roundDigits_le positive enough (Nat.lt_log2_self.trans_le ?_)
          exact Nat.pow_le_pow_right Nat.two_pos (by omega)
      _ ≤ roundDigits digits larger d :=
          le_roundDigits positive rfl (by omega) nonzero enough

end Digits

/-- The sign is kept. -/
def signed (round : Nat → Nat) : Int → Int
  | .ofNat n => round n
  | .negSucc n => -(round (n + 1) : Int)

theorem signed_mono {round : Nat → Nat} (mono : Monotone round) {n larger : Int}
    (less : n ≤ larger) : signed round n ≤ signed round larger := by
  cases n with
  | ofNat n =>
      cases larger with
      | ofNat m => exact Int.ofNat_le.mpr (mono (Int.ofNat_le.mp less))
      | negSucc m => exact absurd less (Int.not_le.mpr (Int.negSucc_lt_zero m |>.trans_le (Int.natCast_nonneg n)))
  | negSucc n =>
      cases larger with
      | ofNat m =>
          exact (Int.neg_nonpos_of_nonneg (Int.natCast_nonneg _)).trans (Int.natCast_nonneg _)
      | negSucc m =>
          have bound : m ≤ n := by omega
          exact Int.neg_le_neg (Int.ofNat_le.mpr (mono (Nat.succ_le_succ bound)))

end Ora.Library
