import Mathlib.Data.List.Basic

/-!
# Reads of several statements

A read runs statements one after another, each adds to the result of those
before.  When the state changes between them, the read still returns what it
returns alone in a single state, as long as each change keeps the result of the
statements that ran or of those that are still to run.
-/

namespace Ora.Library

variable {σ α : Type}

/-- The result of all statements in one state. -/
def readAlone (statements : List (σ → α → α)) (state : σ) (value : α) : α :=
  statements.foldl (fun value statement => statement state value) value

/-- The statements that are still to run return the same in both states. -/
def SameReads (first second : σ) : List (σ → α → α) → α → Prop
  | [], _ => True
  | statement :: rest, value =>
      statement second value = statement first value ∧
        SameReads first second rest (statement first value)

instance decidableSameReads [DecidableEq α] (first second : σ) :
    (statements : List (σ → α → α)) → (value : α) → Decidable (SameReads first second statements value)
  | [], _ => isTrue trivial
  | statement :: rest, value =>
      have := decidableSameReads first second rest (statement first value)
      inferInstanceAs (Decidable (statement second value = statement first value ∧
        SameReads first second rest (statement first value)))

/-- A change keeps a read that ran some statements with the given result. -/
def KeepsRead (ran rest : List (σ → α → α)) (start value : α) (before after : σ) : Prop :=
  readAlone ran after start = value ∨ SameReads before after rest value

instance [DecidableEq α] (ran rest : List (σ → α → α)) (start value : α) (before after : σ) :
    Decidable (KeepsRead ran rest start value before after) :=
  inferInstanceAs (Decidable (_ ∨ _))

/-- One moment explains the result so far and all that is still to be read. -/
structure Explains (ran rest : List (σ → α → α)) (start value : α) (moment state : σ) : Prop where
  ran : readAlone ran moment start = value
  rest : SameReads moment state rest value

section Reads

variable {statements ran rest : List (σ → α → α)} {start value : α} {first second third : σ}

theorem readAlone_append (state : σ) :
    readAlone (ran ++ rest) state start = readAlone rest state (readAlone ran state start) :=
  List.foldl_append

theorem SameReads.refl (state : σ) (value : α) : SameReads state state statements value := by
  induction statements generalizing value with
  | nil => trivial
  | cons statement rest ih => exact ⟨rfl, ih _⟩

theorem SameReads.trans (before : SameReads first second statements value)
    (after : SameReads second third statements value) : SameReads first third statements value := by
  induction statements generalizing value with
  | nil => trivial
  | cons statement rest ih =>
      obtain ⟨same, laterSame⟩ := before
      obtain ⟨unchanged, laterUnchanged⟩ := after
      rw [same] at laterUnchanged
      exact ⟨unchanged.trans same, ih laterSame laterUnchanged⟩

namespace Explains

/-- A read that ran no statement is explained by the state it is in. -/
theorem begin (state : σ) (start : α) : Explains [] rest start start state state :=
  ⟨rfl, .refl state start⟩

/-- The moment is kept by a change, or the state after it becomes the moment. -/
theorem change (explained : Explains ran rest start value first second)
    (kept : KeepsRead ran rest start value second third) :
    Explains ran rest start value first third ∨ Explains ran rest start value third third := by
  rcases kept with same | unread
  · exact .inr ⟨same, .refl third value⟩
  · exact .inl ⟨explained.ran, explained.rest.trans unread⟩

theorem next {statement : σ → α → α}
    (explained : Explains ran (statement :: rest) start value first second) :
    Explains (ran ++ [statement]) rest start (statement second value) first second := by
  obtain ⟨same, later⟩ := explained.rest
  refine ⟨?_, same ▸ later⟩
  rw [readAlone_append, explained.ran, same]
  rfl

end Explains

end Reads

end Ora.Library
