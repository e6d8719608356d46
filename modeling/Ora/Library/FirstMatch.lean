import Mathlib.Data.List.Nodup
import Mathlib.Data.List.Perm.Basic

/-!
# The first match in a list

Changing or removing the first entry that meets a condition, and what this
does to the entries gathered from all of the list.
-/

namespace Ora.Library

variable {α β : Type}

/-- Change the first entry that meets the condition. -/
def modifyFirst (p : α → Bool) (change : α → α) : List α → List α
  | [] => []
  | head :: rest => if p head then change head :: rest else head :: modifyFirst p change rest

/-- The entry at the index is replaced by the last one. -/
def swapRemove (list : List α) (index : Nat) : List α :=
  match list.getLast? with
  | none => []
  | some last => (list.set index last).dropLast

/-- The entry with a key is found again when keys are unique. -/
theorem find?_key_of_mem {κ : Type} [BEq κ] [LawfulBEq κ] (key : α → κ) {list : List α} {entry : α}
    (unique : (list.map key).Nodup) (member : entry ∈ list) :
    list.find? (fun other => key other == key entry) = some entry := by
  cases found : list.find? fun other => key other == key entry with
  | none => simpa using List.find?_eq_none.mp found entry member
  | some other =>
      have same : key other = key entry := by simpa using List.find?_some found
      rw [List.inj_on_of_nodup_map unique (List.mem_of_find?_eq_some found) member same]

section ModifyFirst

variable {p : α → Bool} (change : α → α) {list : List α}

theorem modifyFirst_of_find?_none (absent : list.find? p = none) :
    modifyFirst p change list = list := by
  induction list with
  | nil => rfl
  | cons head rest ih =>
      obtain ⟨unmatched, later⟩ := List.forall_mem_cons.mp (List.find?_eq_none.mp absent)
      rw [modifyFirst, if_neg unmatched, ih (List.find?_eq_none.mpr later)]

/-- The entries around the changed one stay as they are. -/
theorem modifyFirst_split {entry : α} (found : list.find? p = some entry) :
    ∃ before after, list = before ++ entry :: after ∧
      modifyFirst p change list = before ++ change entry :: after := by
  induction list with
  | nil => cases found
  | cons head rest ih =>
      rw [List.find?_cons] at found
      cases matched : p head with
      | true =>
          rw [matched] at found
          cases found
          exact ⟨[], rest, rfl, by rw [modifyFirst, if_pos matched]; rfl⟩
      | false =>
          rw [matched] at found
          obtain ⟨before, after, same, changed⟩ := ih found
          refine ⟨head :: before, after, by rw [same]; rfl, ?_⟩
          rw [modifyFirst, if_neg (by simp [matched]), changed]
          rfl

theorem modifyFirst_forall {P : α → Prop} (every : ∀ entry ∈ list, P entry)
    (changed : ∀ entry ∈ list, list.find? p = some entry → P (change entry)) :
    ∀ entry ∈ modifyFirst p change list, P entry := by
  cases found : list.find? p with
  | none =>
      rw [modifyFirst_of_find?_none change found]
      exact every
  | some entry =>
      obtain ⟨before, after, same, split⟩ := modifyFirst_split change found
      have kept := changed entry (List.mem_of_find?_eq_some found) found
      rw [split]
      rw [same] at every
      intro other member
      obtain earlier | here := List.mem_append.mp member
      · exact every other (List.mem_append_left _ earlier)
      · obtain rfl | later := List.mem_cons.mp here
        · exact kept
        · exact every other (List.mem_append_right _ (List.mem_cons_of_mem _ later))

theorem modifyFirst_isEmpty : (modifyFirst p change list).isEmpty = list.isEmpty := by
  cases list with
  | nil => rfl
  | cons head rest =>
      unfold modifyFirst
      split <;> rfl

/-- A view that the change keeps is the same everywhere. -/
theorem modifyFirst_map (view : α → β) (keeps : ∀ entry, view (change entry) = view entry) :
    (modifyFirst p change list).map view = list.map view := by
  induction list with
  | nil => rfl
  | cons head rest ih =>
      unfold modifyFirst
      split
      · rw [List.map_cons, List.map_cons, keeps]
      · rw [List.map_cons, List.map_cons, ih]

/-- A condition that the change of a match keeps holds of some entry as before. -/
theorem modifyFirst_any (q : α → Bool)
    (keeps : ∀ entry, p entry = true → q (change entry) = q entry) :
    (modifyFirst p change list).any q = list.any q := by
  induction list with
  | nil => rfl
  | cons head rest ih =>
      unfold modifyFirst
      split
      · rename_i matched
        rw [List.any_cons, List.any_cons, keeps head matched]
      · rw [List.any_cons, List.any_cons, ih]

theorem any_of_modifyFirst (q : α → Bool) (weaker : ∀ entry, q (change entry) = true → q entry = true)
    (found : (modifyFirst p change list).any q = true) : list.any q = true := by
  induction list with
  | nil => exact found
  | cons head rest ih =>
      unfold modifyFirst at found
      split at found
      · rw [List.any_cons, Bool.or_eq_true] at found ⊢
        exact found.imp_left (weaker head)
      · rw [List.any_cons, Bool.or_eq_true] at found ⊢
        exact found.imp_right ih

/-- What is gathered after the change, up to the order. -/
theorem modifyFirst_flatMap (gather : α → List β) {entry : α} (found : list.find? p = some entry) :
    ∃ rest, (list.flatMap gather).Perm (gather entry ++ rest) ∧
      ((modifyFirst p change list).flatMap gather).Perm (gather (change entry) ++ rest) := by
  obtain ⟨before, after, same, split⟩ := modifyFirst_split change found
  have gathered : ∀ middle, ((before ++ middle :: after).flatMap gather).Perm
      (gather middle ++ (before.flatMap gather ++ after.flatMap gather)) := by
    intro middle
    rw [List.flatMap_append, List.flatMap_cons, ← List.append_assoc, ← List.append_assoc]
    exact List.perm_append_comm.append_right _
  exact ⟨_, same ▸ gathered entry, split ▸ gathered (change entry)⟩

end ModifyFirst

theorem swapRemove_concat (start : List α) (last : α) (index : Nat) :
    swapRemove (start ++ [last]) index =
      if index < start.length then start.set index last else start := by
  rw [swapRemove, List.getLast?_concat]
  dsimp only
  split
  · rename_i inside
    rw [List.set_append_left _ _ inside, List.dropLast_concat]
  · rename_i outside
    rw [List.set_append_right _ _ (Nat.not_lt.mp outside)]
    cases index - start.length with
    | zero => rw [List.set_cons_zero, List.dropLast_concat]
    | succ beyond => rw [List.set_cons_succ, List.set_nil, List.dropLast_concat]

theorem swapRemove_perm {list : List α} {index : Nat} (bound : index < list.length) :
    list.Perm (list[index] :: swapRemove list index) := by
  obtain rfl | ⟨start, last, rfl⟩ := List.eq_nil_or_concat' list
  · exact absurd bound (Nat.not_lt_zero _)
  rw [swapRemove_concat]
  split
  · rename_i inside
    rw [List.getElem_append_left inside]
    calc
      start ++ [last]
      _ |>.Perm (last :: start) := List.perm_append_comm
      _ |>.Perm (last :: start[index] :: start.eraseIdx index) :=
          (List.getElem_cons_eraseIdx_perm inside).symm.cons last
      _ |>.Perm (start[index] :: last :: start.eraseIdx index) := .swap ..
      _ |>.Perm (start[index] :: start.set index last) :=
          (List.set_perm_cons_eraseIdx inside last).symm.cons _
  · rename_i outside
    have same : index = start.length := by
      rw [List.length_append, List.length_singleton] at bound
      omega
    subst same
    rw [List.getElem_concat_length rfl]
    exact List.perm_append_comm

/-- Removing the first match leaves the other entries. -/
theorem swapRemove_findIdx {p : α → Bool} {list : List α} {entry : α}
    (found : list.find? p = some entry) :
    list.Perm (entry :: swapRemove list (list.findIdx p)) := by
  have bound : list.findIdx p < list.length :=
    List.findIdx_lt_length_of_exists
      ⟨entry, List.mem_of_find?_eq_some found, List.find?_some found⟩
  have same : list[list.findIdx p] = entry := by
    rw [List.find?_eq_getElem?_findIdx, List.getElem?_eq_getElem bound] at found
    exact Option.some.inj found
  rw [← same]
  exact swapRemove_perm bound

end Ora.Library
