import Mathlib.Data.List.Basic

/-!
# Paths that lie apart

Two paths are apart if neither of them leads to the other.
-/

namespace Ora.Library

variable {κ : Type} {path other base : List κ} {key : κ}

/-- Neither path is a prefix of the other one. -/
structure Apart (path other : List κ) : Prop where
  before : ¬ path <+: other
  after : ¬ other <+: path

theorem Apart.symm (apart : Apart path other) : Apart other path :=
  ⟨apart.after, apart.before⟩

theorem Apart.ne_nil (apart : Apart path other) : path ≠ [] := by
  rintro rfl
  exact apart.before List.nil_prefix

theorem apart_cons_iff : Apart (key :: path) (key :: other) ↔ Apart path other := by
  constructor
  · intro apart
    exact ⟨fun leads => apart.before (List.prefix_cons_inj key |>.mpr leads),
      fun leads => apart.after (List.prefix_cons_inj key |>.mpr leads)⟩
  · intro apart
    exact ⟨fun leads => apart.before (List.prefix_cons_inj key |>.mp leads),
      fun leads => apart.after (List.prefix_cons_inj key |>.mp leads)⟩

theorem apart_append_iff : Apart (base ++ path) (base ++ other) ↔ Apart path other := by
  induction base with
  | nil => rfl
  | cons key rest ih => rw [List.cons_append, List.cons_append, apart_cons_iff, ih]

/-- Paths that part at once. -/
theorem apart_of_ne {first : κ} (different : key ≠ first) : Apart (key :: path) (first :: other) :=
  ⟨fun leads => different (List.cons_prefix_cons.mp leads).1,
    fun leads => different (List.cons_prefix_cons.mp leads).1.symm⟩

end Ora.Library
