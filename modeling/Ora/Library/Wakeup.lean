import Ora.Library.Run

/-!
# Waiting for a condition

A resource is changed under a lock.  A waiter checks a condition on it and
registers to be woken, both while it holds the lock.  Whoever may have made the
condition true owes a wake, which is delivered some time after the lock is
released; other changes must not make it true.  A parked waiter is then woken.
-/

namespace Ora.Library

variable {ρ τ : Type} [DecidableEq τ]

/-- The task that waits: about to check, parked until it is woken, or done. -/
inductive Waiter (τ : Type) where
  | scheduled
  | parked (task : τ)
  | finished
  deriving DecidableEq, Repr

/-- A wake of the registered task reschedules a waiter that is parked as it. -/
def Waiter.wake (registered : Option τ) : Waiter τ → Waiter τ
  | .parked task => if registered = some task then .scheduled else .parked task
  | waiter => waiter

structure Monitor (ρ τ : Type) where
  resource : ρ
  registered : Option τ
  owed : Nat
  waiter : Waiter τ

inductive MonitorAction (ρ τ : Type) where
  | change (resource : ρ)
  | release (resource : ρ)
  | deliver
  | check (task : τ) (sleeps : Bool)

namespace Monitor

variable (ready : ρ → Bool)

/-- A waiter that does not sleep has been told something else and checks again. -/
def step (monitor : Monitor ρ τ) : MonitorAction ρ τ → Option (Monitor ρ τ)
  | .change resource =>
      if ready resource && !ready monitor.resource then
        none
      else
        some { monitor with resource := resource }
  | .release resource => some { monitor with resource := resource, owed := monitor.owed + 1 }
  | .deliver =>
      if monitor.owed = 0 then
        none
      else
        some { monitor with
          registered := none
          owed := monitor.owed - 1
          waiter := monitor.waiter.wake monitor.registered }
  | .check task sleeps =>
      if ready monitor.resource then
        some { monitor with waiter := .finished }
      else
        some { monitor with
          registered := some task
          waiter := if sleeps then .parked task else .scheduled }

/-- A parked waiter is registered, and a wake is owed if its condition holds. -/
structure Attentive (monitor : Monitor ρ τ) : Prop where
  registered : ∀ task, monitor.waiter = .parked task → monitor.registered = some task
  owed : ∀ task, monitor.waiter = .parked task → ready monitor.resource = true → 0 < monitor.owed

variable {ready} {monitor next : Monitor ρ τ}

omit [DecidableEq τ] in
theorem Attentive.of_not_parked (awake : ∀ task, monitor.waiter ≠ .parked task) :
    Attentive ready monitor :=
  ⟨fun task parked => absurd parked (awake task), fun task parked => absurd parked (awake task)⟩

/-- Any wake that is delivered reschedules a registered waiter. -/
theorem wake_scheduled {task : τ} {waiter : Waiter τ} {registered : Option τ}
    (parked : waiter = .parked task) (listed : registered = some task) :
    waiter.wake registered = .scheduled := by
  subst parked
  exact if_pos listed

theorem Attentive.step (attentive : Attentive ready monitor) {action : MonitorAction ρ τ}
    (taken : monitor.step ready action = some next) : Attentive ready next := by
  cases action with
  | change resource =>
      simp only [Monitor.step] at taken
      split at taken
      · cases taken
      · rename_i harmless
        cases taken
        refine ⟨attentive.registered, fun task parked now => attentive.owed task parked ?_⟩
        rw [now, Bool.true_and, Bool.not_eq_true', Bool.not_eq_false] at harmless
        exact harmless
  | release resource =>
      cases taken
      exact ⟨attentive.registered, fun _ _ _ => Nat.succ_pos _⟩
  | deliver =>
      simp only [Monitor.step] at taken
      split at taken
      · cases taken
      · cases taken
        refine .of_not_parked fun task => ?_
        cases waits : monitor.waiter with
        | scheduled => nofun
        | finished => nofun
        | parked other =>
            rw [wake_scheduled rfl (attentive.registered other waits)]
            nofun
  | check task sleeps =>
      simp only [Monitor.step] at taken
      split at taken
      · cases taken
        exact .of_not_parked nofun
      · rename_i notReady
        cases taken
        cases sleeps with
        | true => exact ⟨fun _ same => congrArg some (Waiter.parked.inj same),
            fun _ _ now => absurd now notReady⟩
        | false => exact .of_not_parked nofun

/-- The waiter is never parked without a wake on its way when its condition holds. -/
theorem attentive_of_reaches {allowed : Monitor ρ τ → MonitorAction ρ τ → Prop}
    {start : Monitor ρ τ} (initial : Attentive ready start)
    (run : Reaches (Monitor.step ready) allowed start monitor) : Attentive ready monitor :=
  run.invariant (fun _ _ _ attentive _ taken => attentive.step taken) initial

end Monitor

end Ora.Library
