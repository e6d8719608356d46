import Ora.Library.Run
import Mathlib.Logic.Relation
import Mathlib.Order.Basic

/-!
# Runs seen through an abstraction

Steps of a concrete system are matched by paths of an abstract relation, also
by empty ones.  If every abstract step rises in some order, then what is seen of
a run never returns to a state it has left.
-/

namespace Ora.Library

open Relation

variable {σ α τ β : Type}

/-- Steps from invariant states keep the invariant and are paths of the relation
for the one who sees only `view`. -/
structure Simulation (step : σ → α → Option σ) (allowed : σ → α → Prop) (Inv : σ → Prop)
    (view : σ → τ) (rel : τ → τ → Prop) : Prop where
  preserved : ∀ state action next, Inv state → allowed state action →
    step state action = some next → Inv next
  matched : ∀ state action next, Inv state → allowed state action →
    step state action = some next → ReflTransGen rel (view state) (view next)

section Rising

variable [Preorder β] {rel : τ → τ → Prop} {rank : τ → β}

/-- A path along which a rank rises is empty or ends higher than it starts. -/
theorem eq_or_rank_lt (rises : ∀ first second, rel first second → rank first < rank second)
    {first last : τ} (path : ReflTransGen rel first last) :
    first = last ∨ rank first < rank last := by
  induction path with
  | refl => exact .inl rfl
  | tail _ related ih =>
      obtain rfl | below := ih
      · exact .inr (rises _ _ related)
      · exact .inr (below.trans (rises _ _ related))

/-- Paths in both directions are empty. -/
theorem eq_of_paths (rises : ∀ first second, rel first second → rank first < rank second)
    {first last : τ} (there : ReflTransGen rel first last) (back : ReflTransGen rel last first) :
    first = last := by
  obtain same | above := eq_or_rank_lt rises there
  · exact same
  · obtain same | below := eq_or_rank_lt rises back
    · exact same.symm
    · exact absurd (above.trans below) (lt_irrefl _)

end Rising

namespace Simulation

variable {step : σ → α → Option σ} {allowed : σ → α → Prop} {Inv : σ → Prop} {view : σ → τ}
  {rel : τ → τ → Prop} {start middle state : σ}

theorem invariant (simulation : Simulation step allowed Inv view rel)
    (run : Reaches step allowed start state) (initial : Inv start) : Inv state :=
  run.invariant simulation.preserved initial

/-- A run is seen as a path. -/
theorem path (simulation : Simulation step allowed Inv view rel)
    (run : Reaches step allowed start state) (initial : Inv start) :
    ReflTransGen rel (view start) (view state) := by
  induction run with
  | refl => exact .refl
  | tail run permitted taken ih =>
      exact ih.trans (simulation.matched _ _ _ (simulation.invariant run initial) permitted taken)

/-- What is seen at the end of a run as at its start was seen throughout. -/
theorem constant [Preorder β] {rank : τ → β} (simulation : Simulation step allowed Inv view rel)
    (rises : ∀ first second, rel first second → rank first < rank second)
    (first : Reaches step allowed start middle) (second : Reaches step allowed middle state)
    (initial : Inv start) (same : view start = view state) : view middle = view start := by
  have there := simulation.path first initial
  have back := simulation.path second (simulation.invariant first initial)
  rw [← same] at back
  exact (eq_of_paths rises there back).symm

end Simulation

end Ora.Library
