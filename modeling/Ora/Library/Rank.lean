import Ora.Library.Run

/-!
# Runs that come to an end

A rank that no action raises and that falls with some of them: a run has no more
of these than the rank of its start.
-/

namespace Ora.Library

variable {σ α : Type} {step : σ → α → Option σ} {allowed : σ → α → Prop}
  [∀ state action, Decidable (allowed state action)]

theorem execute_cons {start state : σ} {action : α} {rest : List α}
    (executed : execute step allowed start (action :: rest) = some state) :
    allowed start action ∧ ∃ next, step start action = some next ∧
      execute step allowed next rest = some state := by
  unfold execute at executed
  obtain ⟨permitted, executed⟩ := Option.ite_none_right_eq_some.mp executed
  cases taken : step start action with
  | none =>
      rw [taken] at executed
      cases executed
  | some next =>
      rw [taken] at executed
      exact ⟨permitted, next, rfl, executed⟩

theorem rank_of_execute {rank : σ → Nat} {lowers : α → Bool}
    (falls : ∀ state action next, allowed state action → step state action = some next →
      rank next + (lowers action).toNat ≤ rank state)
    {start state : σ} {actions : List α}
    (executed : execute step allowed start actions = some state) :
    rank state + actions.countP lowers ≤ rank start := by
  induction actions generalizing start with
  | nil =>
      cases executed
      exact Nat.le_refl _
  | cons action rest ih =>
      obtain ⟨permitted, next, taken, executed⟩ := execute_cons executed
      have later := ih executed
      have first := falls start action next permitted taken
      have unit : (if lowers action = true then 1 else 0) = (lowers action).toNat := by
        cases lowers action <;> rfl
      rw [List.countP_cons, unit]
      omega

end Ora.Library
