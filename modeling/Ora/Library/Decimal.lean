import Mathlib.Data.Nat.Notation
import Mathlib.Data.List.Basic

/-!
# Decimal numbers

Integers are written in decimal digits after an optional sign, and read back.
-/

namespace Ora.Library

/-- A number of at least one digit. -/
def parseDigits (text : List Char) : Option Nat :=
  if text ≠ [] ∧ text.all Char.isDigit then some (Nat.ofDigitChars 10 text 0) else none

/-- An optional sign and digits. -/
def parseInteger : List Char → Option Int
  | '-' :: digits => (parseDigits digits).map fun n : Nat => -(n : Int)
  | '+' :: digits => (parseDigits digits).map Int.ofNat
  | digits => (parseDigits digits).map Int.ofNat

def showNat (n : Nat) : List Char :=
  Nat.toDigits 10 n

def showInteger (value : Int) : List Char :=
  if 0 ≤ value then showNat value.toNat else '-' :: showNat (-value).toNat

theorem showInteger_eq (value : Int) : showInteger value = (toString value).toList := by
  rw [Int.toString_eq_repr, Int.repr_eq_if, showInteger]
  split
  · rw [showNat, Nat.toList_repr]
  · rw [showNat, String.toList_append, Nat.toList_repr]
    rfl

theorem showNat_ne_nil (n : Nat) : showNat n ≠ [] :=
  Nat.toDigits_ne_nil

theorem isDigit_of_mem_showNat {n : Nat} {c : Char} (member : c ∈ showNat n) :
    c.isDigit = true :=
  Nat.isDigit_of_mem_toDigits (by decide) (by decide) member

theorem parseDigits_showNat (n : Nat) : parseDigits (showNat n) = some n := by
  have digits : (showNat n).all Char.isDigit = true :=
    List.all_eq_true.mpr fun _ member => isDigit_of_mem_showNat member
  rw [parseDigits, if_pos ⟨showNat_ne_nil n, digits⟩, showNat, Nat.ofDigitChars_ten_toDigits]

/-- Text that starts with a digit has no sign. -/
theorem parseInteger_of_isDigit {c : Char} {rest : List Char} (digit : c.isDigit = true) :
    parseInteger (c :: rest) = (parseDigits (c :: rest)).map Int.ofNat := by
  have minus : c ≠ '-' := by
    rintro rfl
    cases digit
  have plus : c ≠ '+' := by
    rintro rfl
    cases digit
  unfold parseInteger
  split
  · rename_i same
    exact absurd (List.cons.inj same).1 minus
  · rename_i same
    exact absurd (List.cons.inj same).1 plus
  · rfl

theorem parseInteger_showInteger (value : Int) : parseInteger (showInteger value) = some value := by
  unfold showInteger
  split
  · rename_i positive
    have read := parseDigits_showNat value.toNat
    cases digits : showNat value.toNat with
    | nil => exact absurd digits (showNat_ne_nil _)
    | cons c rest =>
        rw [digits] at read
        have digit : c.isDigit = true :=
          isDigit_of_mem_showNat (digits ▸ List.mem_cons_self ..)
        rw [parseInteger_of_isDigit digit, read]
        exact congrArg some (Int.toNat_of_nonneg positive)
  · rename_i negative
    rw [parseInteger, parseDigits_showNat, Option.map_some]
    exact congrArg some (by omega)

/-- A written number consists of digits and a minus sign. -/
theorem mem_showInteger {value : Int} {c : Char} (member : c ∈ showInteger value) :
    c.isDigit = true ∨ c = '-' := by
  unfold showInteger at member
  split at member
  · exact .inl (isDigit_of_mem_showNat member)
  · obtain rfl | digit := List.mem_cons.mp member
    · exact .inr rfl
    · exact .inl (isDigit_of_mem_showNat digit)

theorem showInteger_ne_nil (value : Int) : showInteger value ≠ [] := by
  unfold showInteger
  split
  · exact showNat_ne_nil _
  · exact List.cons_ne_nil _ _

end Ora.Library
