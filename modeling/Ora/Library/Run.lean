import Mathlib.Logic.Basic

/-!
# Runs of guarded transitions

A system is a partial step function on labelled actions.  `Reaches` collects
the states that finite runs visit when every action meets a condition in the
state it is taken from; an invariant is proved once for a step and once for
the start.
-/

namespace Ora.Library

variable {σ α : Type}

/-- `Reaches step allowed start state`: some run of allowed actions leads from
`start` to `state`. -/
inductive Reaches (step : σ → α → Option σ) (allowed : σ → α → Prop) (start : σ) : σ → Prop where
  | refl : Reaches step allowed start start
  | tail {state next : σ} {action : α} (run : Reaches step allowed start state)
      (permitted : allowed state action) (taken : step state action = some next) :
      Reaches step allowed start next

namespace Reaches

variable {step : σ → α → Option σ} {allowed allowed' : σ → α → Prop} {start middle state : σ}

theorem single (action : α) (permitted : allowed start action)
    (taken : step start action = some state) : Reaches step allowed start state :=
  .tail .refl permitted taken

theorem trans (first : Reaches step allowed start middle)
    (second : Reaches step allowed middle state) : Reaches step allowed start state := by
  induction second with
  | refl => exact first
  | tail _ permitted taken ih => exact .tail ih permitted taken

theorem mono (weaker : ∀ state action, allowed state action → allowed' state action)
    (run : Reaches step allowed start state) : Reaches step allowed' start state := by
  induction run with
  | refl => exact .refl
  | tail _ permitted taken ih => exact .tail ih (weaker _ _ permitted) taken

/-- A property of the start that every allowed action preserves holds in every
state of every run. -/
theorem invariant {Inv : σ → Prop}
    (preserved : ∀ state action next, Inv state → allowed state action →
      step state action = some next → Inv next)
    (run : Reaches step allowed start state) (initial : Inv start) : Inv state := by
  induction run with
  | refl => exact initial
  | tail _ permitted taken ih => exact preserved _ _ _ ih permitted taken

/-- A reflexive and transitive relation that holds across every action from an
invariant state holds between the two ends of every run. -/
theorem relation {Inv : σ → Prop} {rel : σ → σ → Prop} (rrefl : ∀ state, rel state state)
    (rtrans : ∀ first second third, rel first second → rel second third → rel first third)
    (preserved : ∀ state action next, Inv state → allowed state action →
      step state action = some next → Inv next ∧ rel state next)
    (run : Reaches step allowed start state) (initial : Inv start) : rel start state := by
  have both : Inv state ∧ rel start state := by
    induction run with
    | refl => exact ⟨initial, rrefl _⟩
    | tail _ permitted taken ih =>
        obtain ⟨inv, related⟩ := preserved _ _ _ ih.1 permitted taken
        exact ⟨inv, rtrans _ _ _ ih.2 related⟩
  exact both.2

end Reaches

section Execute

variable (step : σ → α → Option σ) (allowed : σ → α → Prop)
  [∀ state action, Decidable (allowed state action)]

/-- Execute actions in order, refusing one that is not allowed or not enabled. -/
def execute : σ → List α → Option σ
  | state, [] => some state
  | state, action :: rest =>
      if allowed state action then
        match step state action with
        | none => none
        | some next => execute next rest
      else
        none

variable {step allowed}

/-- An executed list of actions is a run, in which every action meets what all of the
list do. -/
theorem reaches_of_execute_forall {start state : σ} {actions : List α} {also : α → Prop}
    (executed : execute step allowed start actions = some state)
    (every : ∀ action ∈ actions, also action) :
    Reaches step (fun state action => allowed state action ∧ also action) start state := by
  induction actions generalizing start with
  | nil =>
      cases executed
      exact .refl
  | cons action rest ih =>
      unfold execute at executed
      split at executed
      · rename_i permitted
        cases taken : step start action with
        | none => simp [taken] at executed
        | some next =>
            rw [taken] at executed
            have first : allowed start action ∧ also action :=
              ⟨permitted, every action (List.mem_cons_self ..)⟩
            exact (Reaches.single action first taken).trans
              (ih executed fun other member => every other (List.mem_cons_of_mem _ member))
      · cases executed

theorem reaches_of_execute {start state : σ} {actions : List α}
    (executed : execute step allowed start actions = some state) :
    Reaches step allowed start state :=
  (reaches_of_execute_forall executed fun _ _ => True.intro).mono
    fun _ _ both => both.1

/-- A check that an executed list of actions passes holds in a state that is reached
by actions like these. -/
theorem exists_reaches_of_execute_forall (step : σ → α → Option σ) (allowed : σ → α → Prop)
    [∀ state action, Decidable (allowed state action)] (start : σ) (actions : List α)
    (check : σ → Bool) (executed : (execute step allowed start actions).any check = true)
    {also : α → Prop} (every : ∀ action ∈ actions, also action) :
    ∃ state, Reaches step (fun state action => allowed state action ∧ also action) start state ∧
      check state = true := by
  obtain ⟨state, done, checked⟩ := (Option.any_eq_true ..).mp executed
  exact ⟨state, reaches_of_execute_forall done every, checked⟩

/-- A check that an executed list of actions passes holds in a reachable state. -/
theorem exists_reaches_of_execute (step : σ → α → Option σ) (allowed : σ → α → Prop)
    [∀ state action, Decidable (allowed state action)] (start : σ) (actions : List α)
    (check : σ → Bool) (executed : (execute step allowed start actions).any check = true) :
    ∃ state, Reaches step allowed start state ∧ check state = true := by
  obtain ⟨state, done, checked⟩ := (Option.any_eq_true ..).mp executed
  exact ⟨state, reaches_of_execute done, checked⟩

end Execute

end Ora.Library
