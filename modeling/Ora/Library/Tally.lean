import Mathlib

/-!
# Counting in lists that change in one place

How the number of elements with a property, or the sum over all elements,
changes with one of them.
-/

namespace Ora.Library

variable {α κ : Type}

/-- One element changes, the one with a key. -/
theorem countP_map_update [DecidableEq κ] {key : α → κ} {rows : List α} {row : α}
    (distinct : (rows.map key).Nodup) (member : row ∈ rows) (change : α → α) (p : α → Bool) :
    (rows.map fun other => if key other = key row then change other else other).countP p +
        (p row).toNat = rows.countP p + (p (change row)).toNat := by
  induction rows with
  | nil => exact absurd member List.not_mem_nil
  | cons head rest ih =>
      rw [List.map_cons, List.nodup_cons] at distinct
      rw [List.map_cons, List.countP_cons, List.countP_cons]
      obtain rfl | member := List.mem_cons.mp member
      · have others : (rest.map fun other => if key other = key row then change other else other) =
            rest := by
          refine (List.map_congr_left fun other known => if_neg fun same => distinct.1 ?_).trans
            (List.map_id rest)
          exact same ▸ List.mem_map_of_mem known
        rw [others, if_pos rfl]
        cases p row <;> cases p (change row) <;> simp
      · have other : key head ≠ key row := fun same =>
          distinct.1 (same ▸ List.mem_map_of_mem member)
        have later := ih distinct.2 member
        rw [if_neg other]
        omega

theorem sum_map_set {l : List α} {i : Nat} {x : α} (f : α → Nat) (found : l[i]? = some x) (y : α) :
    ((l.set i y).map f).sum + f x = (l.map f).sum + f y := by
  induction l generalizing i with
  | nil => cases found
  | cons head rest ih =>
      cases i with
      | zero =>
          cases found
          simp only [List.set_cons_zero, List.map_cons, List.sum_cons]
          omega
      | succ i =>
          have later := ih (i := i) found
          simp only [List.set_cons_succ, List.map_cons, List.sum_cons]
          omega

end Ora.Library
