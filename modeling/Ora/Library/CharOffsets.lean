import Mathlib.Data.List.Basic

/-!
# Characters and their byte offsets

Text is edited at byte offsets, which have to lie between characters, while a
caret counts characters.  An offset computed from a number of characters lies
between characters, so that editing there is editing the list of characters.
-/

namespace Ora.Library

variable {text : List Char} {index : Nat}

def byteLength : List Char → Nat
  | [] => 0
  | c :: rest => c.utf8Size + byteLength rest

@[simp] theorem byteLength_nil : byteLength [] = 0 := rfl

@[simp] theorem byteLength_cons (c : Char) (text : List Char) :
    byteLength (c :: text) = c.utf8Size + byteLength text := rfl

/-- The offsets at which characters start, from an offset on. -/
def charIndices : Nat → List Char → List Nat
  | _, [] => []
  | offset, c :: rest => offset :: charIndices (offset + c.utf8Size) rest

/-- The text before and after an offset, nothing within a character or past the end. -/
def splitAtByte : List Char → Nat → Option (List Char × List Char)
  | text, 0 => some ([], text)
  | [], _ + 1 => none
  | c :: rest, offset + 1 =>
      if c.utf8Size ≤ offset + 1 then
        (splitAtByte rest (offset + 1 - c.utf8Size)).map fun parts => (c :: parts.1, parts.2)
      else
        none

/-- Insert a character at a byte offset. -/
def insertAtByte (text : List Char) (offset : Nat) (c : Char) : Option (List Char) :=
  (splitAtByte text offset).map fun parts => parts.1 ++ c :: parts.2

/-- Remove the bytes from one offset up to another. -/
def removeBytes (text : List Char) (start stop : Nat) : Option (List Char) :=
  if start ≤ stop then
    (splitAtByte text start).bind fun first =>
      (splitAtByte text stop).map fun last => first.1 ++ last.2
  else
    none

theorem charIndices_getElem? (offset : Nat) :
    (charIndices offset text)[index]? =
      if index < text.length then some (offset + byteLength (text.take index)) else none := by
  induction text generalizing offset index with
  | nil => simp [charIndices]
  | cons c rest ih =>
      cases index with
      | zero => simp [charIndices]
      | succ index => simp [charIndices, ih, Nat.add_assoc]

/-- The offset after the first characters lies between characters. -/
theorem splitAtByte_byteLength_take (text : List Char) (index : Nat) :
    splitAtByte text (byteLength (text.take index)) =
      some (text.take index, text.drop index) := by
  induction text generalizing index with
  | nil => simp [splitAtByte]
  | cons c rest ih =>
      cases index with
      | zero => simp [splitAtByte]
      | succ index =>
          obtain ⟨size, positive⟩ := Nat.exists_eq_add_one_of_ne_zero
            (Nat.pos_iff_ne_zero.mp c.utf8Size_pos)
          have offset : byteLength ((c :: rest).take (index + 1)) =
              size + byteLength (rest.take index) + 1 := by
            rw [List.take_succ_cons, byteLength_cons, positive]
            omega
          have left : size + byteLength (rest.take index) + 1 - c.utf8Size =
              byteLength (rest.take index) := by omega
          rw [offset, splitAtByte, if_pos (by omega), left, ih]
          rfl

theorem insertAtByte_take (text : List Char) (index : Nat) (c : Char) :
    insertAtByte text (byteLength (text.take index)) c =
      some (text.take index ++ c :: text.drop index) := by
  rw [insertAtByte, splitAtByte_byteLength_take]
  rfl

theorem byteLength_take_mono {first last : Nat} (ordered : first ≤ last) :
    byteLength (text.take first) ≤ byteLength (text.take last) := by
  induction text generalizing first last with
  | nil => simp
  | cons c rest ih =>
      cases first with
      | zero => simp
      | succ first =>
          obtain ⟨last, rfl⟩ := Nat.exists_eq_add_one_of_ne_zero
            (Nat.ne_of_gt (Nat.lt_of_lt_of_le (Nat.succ_pos first) ordered))
          have tail := ih (Nat.le_of_succ_le_succ ordered)
          simp only [List.take_succ_cons, byteLength_cons]
          omega

theorem removeBytes_take {first last : Nat} (ordered : first ≤ last) :
    removeBytes text (byteLength (text.take first)) (byteLength (text.take last)) =
      some (text.take first ++ text.drop last) := by
  rw [removeBytes, if_pos (byteLength_take_mono ordered), splitAtByte_byteLength_take,
    splitAtByte_byteLength_take]
  rfl

/-- A character takes up bytes. -/
theorem byteLength_take_lt_iff :
    byteLength (text.take index) < byteLength (text.take (index + 1)) ↔ index < text.length := by
  induction text generalizing index with
  | nil => simp
  | cons c rest ih =>
      cases index with
      | zero => simp [c.utf8Size_pos]
      | succ index => simp [ih]

end Ora.Library
