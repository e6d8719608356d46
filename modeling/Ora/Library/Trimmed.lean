import Mathlib.Data.List.DropRight

/-!
# Trimmed lists

Elements of a kind are dropped from both ends of a list.
-/

namespace Ora.Library

variable {α : Type} (drops : α → Bool) {list : List α}

/-- The list without the elements of a kind at its ends. -/
def trimBy (list : List α) : List α :=
  (list.dropWhile drops).rdropWhile drops

variable {drops}

/-- Neither end of the list is dropped. -/
structure TrimmedBy (drops : α → Bool) (list : List α) : Prop where
  first : ∀ element ∈ list.head?, drops element = false
  last : ∀ element ∈ list.getLast?, drops element = false

theorem dropWhile_of_first (first : ∀ element ∈ list.head?, drops element = false) :
    list.dropWhile drops = list := by
  cases list with
  | nil => rfl
  | cons element tail =>
      have kept := first element rfl
      exact List.dropWhile_cons_of_neg (by simp [kept])

theorem rdropWhile_of_last (last : ∀ element ∈ list.getLast?, drops element = false) :
    list.rdropWhile drops = list := by
  rw [List.rdropWhile_eq_self_iff]
  intro present
  have kept := last _ (List.getLast?_eq_getLast_of_ne_nil present)
  simp [kept]

/-- A trimmed list is left alone. -/
theorem TrimmedBy.trimBy_eq (trimmed : TrimmedBy drops list) : trimBy drops list = list := by
  rw [trimBy, dropWhile_of_first trimmed.first, rdropWhile_of_last trimmed.last]

theorem trimBy_trimmed : TrimmedBy drops (trimBy drops list) := by
  constructor
  · intro element first
    have start : trimBy drops list <+: list.dropWhile drops := List.rdropWhile_prefix ..
    obtain ⟨rest, same⟩ := start
    have head : (list.dropWhile drops).head? = some element := by
      rw [← same, List.head?_append, first]
      rfl
    have kept := List.head?_dropWhile_not drops list
    rw [head] at kept
    exact kept
  · intro element last
    have present : trimBy drops list ≠ [] := by
      rintro empty
      rw [empty] at last
      cases last
    have kept := List.rdropWhile_last_not drops (list.dropWhile drops) present
    have same := List.getLast?_eq_getLast_of_ne_nil present
    rw [show (trimBy drops list).getLast? = some element from last] at same
    exact Bool.eq_false_iff.mpr fun dropped => kept (Option.some.inj same ▸ dropped)

/-- Lists without elements of the kind are trimmed. -/
theorem TrimmedBy.of_forall (kept : ∀ element ∈ list, drops element = false) :
    TrimmedBy drops list :=
  ⟨fun element first => kept element (List.mem_of_mem_head? first),
    fun element last => kept element (List.mem_of_mem_getLast? last)⟩

end Ora.Library
