import Mathlib.Logic.Basic

/-!
# Waiters that are told of changes

A future of a notification is created before its waiter looks at a resource.
What the waiter finds covers everything that is there, and whatever comes later
is announced to all futures that exist.
-/

namespace Ora.Library

variable {ι γ : Type}

/-- A future, and what its waiter found since it was created. -/
structure Listener (γ : Type) where
  notified : Bool
  found : Option γ

namespace Listener

/-- Whatever is present is covered by what the waiter found, unless the waiter
was notified or an announcement is owed. -/
def Aware (covers : γ → ι → Prop) (present owed : ι → Prop) (listener : Listener γ) : Prop :=
  listener.notified = false → ∀ found ∈ listener.found, ∀ item, present item →
    covers found item ∨ owed item

variable {covers : γ → ι → Prop} {present present' owed owed' : ι → Prop} {listener : Listener γ}

theorem aware_of_notified (notified : listener.notified = true) :
    listener.Aware covers present owed := by
  intro unnotified
  rw [notified] at unnotified
  cases unnotified

theorem aware_of_none (none : listener.found = none) : listener.Aware covers present owed := by
  intro _ found known
  rw [none] at known
  cases known

/-- The waiter looks. -/
theorem aware_of_found (all : ∀ found ∈ listener.found, ∀ item, present item → covers found item) :
    listener.Aware covers present owed :=
  fun _ found known item here => .inl (all found known item here)

/-- What is new is owed. -/
theorem Aware.change (aware : listener.Aware covers present owed)
    (new : ∀ item, present' item → present item ∨ owed' item)
    (kept : ∀ item, owed item → owed' item) : listener.Aware covers present' owed' := by
  intro unnotified found known item here
  obtain here | announced := new item here
  · exact (aware unnotified found known item here).imp_right (kept item)
  · exact .inr announced

/-- An announcement is made that does not concern the waiter. -/
theorem Aware.announce (aware : listener.Aware covers present owed)
    (harmless : ∀ found ∈ listener.found, ∀ item, owed item → covers found item ∨ owed' item) :
    listener.Aware covers present owed' := by
  intro unnotified found known item here
  exact (aware unnotified found known item here).elim .inl (harmless found known item)

end Listener

end Ora.Library
