import Ora.Proto.Filters
import Mathlib.Data.Nat.Digits.Defs

/-!
# Text of identifiers and timestamps

UUIDs are written in hexadecimal in groups of 8, 4, 4, 4 and 12 digits.
Timestamps are seconds and the nanoseconds after them.
-/

namespace Ora.Proto

open Ora.Backend (Uuid Time)
open Ora.Library

def hexDigits : List Char :=
  ['0', '1', '2', '3', '4', '5', '6', '7', '8', '9', 'a', 'b', 'c', 'd', 'e', 'f']

def hexDigit (value : Nat) : Char :=
  hexDigits.getD value '0'

def hexValue (digit : Char) : Except String Nat :=
  match hexDigits.idxOf? digit with
  | some value => .ok value
  | none => .error "invalid character"

theorem hexValue_hexDigit {value : Nat} (bound : value < 16) :
    hexValue (hexDigit value) = .ok value := by
  revert value
  decide

theorem hexDigit_ne_hyphen {value : Nat} (bound : value < 16) : hexDigit value ≠ '-' := by
  revert value
  decide

def hyphenate (digits : List Char) : List Char :=
  digits.take 8 ++ '-' :: ((digits.drop 8).take 4 ++ '-' :: ((digits.drop 12).take 4 ++
    '-' :: ((digits.drop 16).take 4 ++ '-' :: digits.drop 20)))

theorem filter_hyphenate {digits : List Char} (plain : ∀ digit ∈ digits, digit ≠ '-') :
    (hyphenate digits).filter (fun digit => digit != '-') = digits := by
  have part : ∀ start count, ((digits.drop start).take count).filter (fun digit => digit != '-') =
      (digits.drop start).take count := by
    intro start count
    refine List.filter_eq_self.mpr fun digit member => ?_
    simpa using plain digit (List.mem_of_mem_drop (List.mem_of_mem_take member))
  have first := part 0 8
  have last : (digits.drop 20).filter (fun digit => digit != '-') = digits.drop 20 :=
    List.filter_eq_self.mpr fun digit member => by
      simpa using plain digit (List.mem_of_mem_drop member)
  have join : ∀ start count, (digits.drop start).take count ++ digits.drop (start + count) =
      digits.drop start := by
    intro start count
    rw [← List.drop_drop, List.take_append_drop]
  rw [List.drop_zero] at first
  simp only [hyphenate, List.filter_append, List.filter_cons_of_neg, bne_self_eq_false,
    Bool.false_eq_true, not_false_eq_true, first, part, last]
  rw [join 16 4, join 12 4, join 8 4, List.take_append_drop]

def padded (id : Uuid) : List Nat :=
  Nat.digits 16 id ++ List.replicate (32 - (Nat.digits 16 id).length) 0

theorem padded_lt {id : Uuid} {value : Nat} (member : value ∈ padded id) : value < 16 := by
  obtain digit | zero := List.mem_append.mp member
  · exact Nat.digits_lt_base (by decide) digit
  · rw [List.eq_of_mem_replicate zero]
    decide

def uuidText : Codec String Uuid String where
  encode id := String.ofList (hyphenate ((padded id).reverse.map hexDigit))
  decode text :=
    ((text.toList.filter fun digit => digit != '-').mapM hexValue).map fun values =>
      Nat.ofDigits 16 values.reverse
  decode_encode id := by
    have plain : ∀ digit ∈ (padded id).reverse.map hexDigit, digit ≠ '-' := by
      simp only [List.forall_mem_map, List.mem_reverse]
      exact fun value member => hexDigit_ne_hyphen (padded_lt member)
    have read : ((padded id).reverse.map hexDigit).mapM hexValue = .ok (padded id).reverse :=
      mapM_map_eq_ok fun value member => hexValue_hexDigit (padded_lt (List.mem_reverse.mp member))
    rw [String.toList_ofList, filter_hyphenate plain, read]
    show Except.ok (Nat.ofDigits 16 (padded id).reverse.reverse) = .ok id
    rw [List.reverse_reverse, padded, Nat.ofDigits_append_replicate_zero, Nat.ofDigits_digits]

def timestampSeconds : Codec String Time Timestamp where
  encode time := ⟨time / 1000000000, time % 1000000000⟩
  decode timestamp := .ok (timestamp.seconds * 1000000000 + timestamp.nanos)
  decode_encode time := by
    show Except.ok (time / 1000000000 * 1000000000 + time % 1000000000) = .ok time
    rw [Int.ediv_mul_add_emod]

def Conversions.standard : Conversions := ⟨uuidText, timestampSeconds⟩

end Ora.Proto
