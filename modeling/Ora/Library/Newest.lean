import Mathlib.Data.List.Nodup
import Mathlib.Data.List.Perm.Basic

/-!
# Requests of which only the newest is awaited

Each request gets a number larger than those before it.  An older request may
still answer, since it could have been too late to stop it; its number tells its
answer from the awaited one.
-/

namespace Ora.Library

variable {ρ : Type}

/-- `tasks` are the requests that may still answer.  If the newest is among
them, then it is waited for and satisfies a condition. -/
structure Newest (number : Nat) (waiting : Bool) (tasks : List (Nat × ρ)) (P : ρ → Prop) :
    Prop where
  distinct : (tasks.map Prod.fst).Nodup
  older : ∀ task ∈ tasks, task.1 ≤ number
  awaited : ∀ request, (number, request) ∈ tasks → waiting = true ∧ P request

namespace Newest

variable {number number' index : Nat} {waiting : Bool} {tasks : List (Nat × ρ)} {P Q : ρ → Prop}
  {request : ρ}

theorem nothing : Newest number waiting ([] : List (Nat × ρ)) P :=
  ⟨List.nodup_nil, fun _ member => absurd member List.not_mem_nil,
    fun _ member => absurd member List.not_mem_nil⟩

theorem mono (newest : Newest number waiting tasks P)
    (weaker : ∀ request, P request → Q request) : Newest number waiting tasks Q :=
  ⟨newest.distinct, newest.older, fun request member =>
    (newest.awaited request member).imp id (weaker request)⟩

/-- Nothing is awaited under a number that has not been given out. -/
theorem cancel (newest : Newest number waiting tasks P) (later : number < number') :
    Newest number' false tasks Q :=
  ⟨newest.distinct, fun task member => Nat.le_of_lt (Nat.lt_of_le_of_lt (newest.older task member) later),
    fun _ member => absurd (newest.older _ member) (Nat.not_le.mpr later)⟩

theorem start (newest : Newest number waiting tasks P) (later : number < number')
    (asked : Q request) : Newest number' true (tasks ++ [(number', request)]) Q := by
  refine ⟨?_, fun task member => ?_, fun other member => ⟨rfl, ?_⟩⟩
  · rw [List.map_append, List.nodup_append]
    refine ⟨newest.distinct, List.nodup_singleton _, ?_⟩
    rintro _ member _ last rfl
    obtain ⟨task, known, rfl⟩ := List.mem_map.mp member
    have bound := newest.older task known
    rw [List.mem_singleton.mp last] at bound
    exact absurd bound (Nat.not_le.mpr later)
  · obtain known | rfl := List.mem_append.mp member |>.imp id List.mem_singleton.mp
    · exact Nat.le_of_lt (Nat.lt_of_le_of_lt (newest.older task known) later)
    · exact Nat.le_refl _
  · obtain known | last := List.mem_append.mp member
    · exact absurd (newest.older _ known) (Nat.not_le.mpr later)
    · rw [List.mem_singleton] at last
      exact (Prod.mk.inj last).2 ▸ asked

/-- A request that has answered does not answer again. -/
theorem remove (newest : Newest number waiting tasks P) (index : Nat) :
    Newest number waiting (tasks.eraseIdx index) P :=
  ⟨((List.eraseIdx_sublist tasks index).map _).nodup newest.distinct,
    fun task member => newest.older task ((List.eraseIdx_sublist tasks index).mem member),
    fun request member => newest.awaited request ((List.eraseIdx_sublist tasks index).mem member)⟩

/-- Once the newest request has answered, none is awaited. -/
theorem finish (newest : Newest number waiting tasks P)
    (task : tasks[index]? = some (number, request)) :
    Newest number false (tasks.eraseIdx index) Q := by
  have removed := newest.remove index
  refine ⟨removed.distinct, removed.older, fun other member => ?_⟩
  obtain ⟨inside, found⟩ := List.getElem?_eq_some_iff.mp task
  have order := (List.getElem_cons_eraseIdx_perm inside).map Prod.fst
  have distinct := order.nodup_iff.mpr newest.distinct
  rw [List.map_cons, found, List.nodup_cons] at distinct
  exact absurd (List.mem_map_of_mem member) distinct.1

/-- The newest request is waited for until it answers. -/
theorem waited (newest : Newest number waiting tasks P)
    (task : tasks[index]? = some (number, request)) : waiting = true ∧ P request :=
  newest.awaited request (List.mem_of_getElem? task)

end Newest

end Ora.Library
