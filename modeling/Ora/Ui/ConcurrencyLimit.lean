import Mathlib.Data.List.Range
import Mathlib.Data.List.Perm.Basic
import Ora.Library.Rank

/-!
# Limited concurrency

`concurrencyLimit` of `ui/src/util/counts.ts`.  Everything runs on one thread, a
call that was woken goes on in a later turn of it, and other calls may come in
before.
-/

namespace Ora.Ui

open Ora.Library

/-- A call of the limited function, with the number of its abort signal. -/
structure LimitedCall where
  number : Nat
  signal : Option Nat
  deriving DecidableEq, Repr

/-- The calls that are `woken` are no longer in the queue and did not go on yet,
those that are `served` had their turn, and a task runs for the `active` ones. -/
structure ConcurrencyLimit where
  running : Nat
  waiting : List LimitedCall
  woken : List LimitedCall
  active : List LimitedCall
  served : List LimitedCall
  aborted : List Nat
  calls : Nat

inductive LimitAction where
  | call (signal : Option Nat)
  | resume
  | settle (number : Nat)
  | abort (signal : Nat)
  deriving DecidableEq, Repr

namespace LimitAction

def isCall : LimitAction → Bool
  | .call _ => true
  | _ => false

/-- A task ends, or a call that was woken goes on. -/
def isTurn : LimitAction → Bool
  | .resume => true
  | .settle _ => true
  | _ => false

end LimitAction

namespace ConcurrencyLimit

def start : ConcurrencyLimit := ⟨0, [], [], [], [], [], 0⟩

/-- `waiting.shift()?.()` -/
def shift (limit : ConcurrencyLimit) : ConcurrencyLimit :=
  match limit.waiting with
  | [] => limit
  | call :: rest => { limit with waiting := rest, woken := limit.woken ++ [call] }

variable (max : Nat)

/-- The loop that waits for a turn, and what is done with the turn. -/
def enter (limit : ConcurrencyLimit) (call : LimitedCall) : ConcurrencyLimit :=
  if max ≤ limit.running then
    { limit with waiting := limit.waiting ++ [call] }
  else if call.signal.any limit.aborted.contains then
    -- The turn is passed on to the next call.
    { limit with served := limit.served ++ [call] }.shift
  else
    { limit with
      running := limit.running + 1
      active := limit.active ++ [call]
      served := limit.served ++ [call] }

def step (limit : ConcurrencyLimit) : LimitAction → Option ConcurrencyLimit
  | .call signal =>
      some ({ limit with calls := limit.calls + 1 }.enter max ⟨limit.calls, signal⟩)
  | .resume =>
      match limit.woken with
      | [] => none
      | call :: rest => some ({ limit with woken := rest }.enter max call)
  | .settle number =>
      if limit.active.any (fun call => call.number == number) then
        some { limit with
          running := limit.running - 1
          active := limit.active.eraseP fun call => call.number == number }.shift
      else
        none
  | .abort signal => some { limit with aborted := signal :: limit.aborted }

/-- The calls that had their turn, then those that were woken and those that wait. -/
def queue (limit : ConcurrencyLimit) : List LimitedCall :=
  limit.served ++ limit.woken ++ limit.waiting

variable {max} {limit after : ConcurrencyLimit} {call : LimitedCall} {action : LimitAction}

@[simp] theorem shift_running : limit.shift.running = limit.running := by
  unfold shift
  split <;> rfl

@[simp] theorem shift_active : limit.shift.active = limit.active := by
  unfold shift
  split <;> rfl

@[simp] theorem shift_calls : limit.shift.calls = limit.calls := by
  unfold shift
  split <;> rfl

@[simp] theorem shift_queue : limit.shift.queue = limit.queue := by
  unfold shift
  split
  · rfl
  · rename_i call rest waiting
    simp [queue, waiting]

/-- A wake-up takes the first call that waits, if there is one. -/
theorem shift_cases (limit : ConcurrencyLimit) : limit.waiting = [] ∧ limit.shift = limit ∨
    limit.shift.woken.length = limit.woken.length + 1 ∧
      limit.shift.waiting.length + 1 = limit.waiting.length := by
  unfold shift
  split
  · rename_i waiting
    exact .inl ⟨waiting, rfl⟩
  · rename_i call rest waiting
    exact .inr ⟨List.length_append .., by simp [waiting]⟩

theorem enter_cases (max : Nat) (limit : ConcurrencyLimit) (call : LimitedCall) :
    max ≤ limit.running ∧
      limit.enter max call = { limit with waiting := limit.waiting ++ [call] } ∨
    limit.running < max ∧
      (limit.enter max call = { limit with served := limit.served ++ [call] }.shift ∨
        limit.enter max call =
          { limit with
            running := limit.running + 1
            active := limit.active ++ [call]
            served := limit.served ++ [call] }) := by
  unfold enter
  split
  · rename_i full
    exact .inl ⟨full, rfl⟩
  · rename_i free
    refine .inr ⟨Nat.lt_of_not_le free, ?_⟩
    split
    · exact .inl rfl
    · exact .inr rfl

@[simp] theorem enter_calls : (limit.enter max call).calls = limit.calls := by
  obtain ⟨_, waits⟩ | ⟨_, aborted | starts⟩ := enter_cases max limit call
  · rw [waits]
  · rw [aborted, shift_calls]
  · rw [starts]

/-- A step of the limit: a turn starts for a call that was woken, or one ends. -/
theorem step_cases (taken : limit.step max action = some after) :
    (∃ signal, action = .call signal ∧
      after = { limit with calls := limit.calls + 1 }.enter max ⟨limit.calls, signal⟩) ∨
    (∃ call rest, action = .resume ∧ limit.woken = call :: rest ∧
      after = { limit with woken := rest }.enter max call) ∨
    (∃ number active, action = .settle number ∧ active.length + 1 = limit.active.length ∧
      after = { limit with running := limit.running - 1, active := active }.shift) ∨
    ∃ signal, action = .abort signal ∧ after = { limit with aborted := signal :: limit.aborted } := by
  cases action with
  | call signal =>
      cases taken
      exact .inl ⟨signal, rfl, rfl⟩
  | resume =>
      unfold step at taken
      dsimp only at taken
      split at taken
      · cases taken
      · rename_i call rest woken
        cases taken
        exact .inr (.inl ⟨call, rest, rfl, woken, rfl⟩)
  | settle number =>
      obtain ⟨running, taken⟩ := Option.ite_none_right_eq_some.mp taken
      cases taken
      obtain ⟨call, member, same⟩ := List.any_eq_true.mp running
      refine .inr (.inr (.inl ⟨number, _, rfl, ?_, rfl⟩))
      rw [List.length_eraseP_of_mem member same]
      exact Nat.sub_add_cancel (List.length_pos_of_mem member)
  | abort signal =>
      cases taken
      exact .inr (.inr (.inr ⟨signal, rfl, rfl⟩))

/-- Free turns are on their way to calls that were woken as long as one waits. -/
structure Sound (max : Nat) (limit : ConcurrencyLimit) : Prop where
  running : limit.running = limit.active.length
  within : limit.running ≤ max
  awake : limit.waiting ≠ [] → max ≤ limit.running + limit.woken.length

/-- Whoever gives a turn up wakes the next call. -/
theorem shift_sound (running : limit.running = limit.active.length) (within : limit.running ≤ max)
    (awake : limit.waiting ≠ [] → max ≤ limit.running + limit.woken.length + 1) :
    limit.shift.Sound max := by
  refine ⟨by simpa using running, by simpa using within, fun waits => ?_⟩
  obtain ⟨none, same⟩ | ⟨woken, waiting⟩ := limit.shift_cases
  · rw [same] at waits
    exact absurd none waits
  · have waits : limit.waiting ≠ [] := by
      rintro none
      rw [none] at waiting
      cases waiting
    rw [shift_running, woken]
    exact awake waits

theorem enter_sound (running : limit.running = limit.active.length) (within : limit.running ≤ max)
    (awake : limit.waiting ≠ [] → max ≤ limit.running + limit.woken.length + 1) :
    (limit.enter max call).Sound max := by
  obtain ⟨full, waits⟩ | ⟨free, aborted | starts⟩ := enter_cases max limit call
  · rw [waits]
    exact ⟨running, within, fun _ => Nat.le_add_right_of_le full⟩
  · rw [aborted]
    exact shift_sound running within awake
  · rw [starts]
    refine ⟨by simp [running], free, fun waits => ?_⟩
    have enough := awake waits
    simp only at enough ⊢
    omega

theorem Sound.step (sound : limit.Sound max) (taken : limit.step max action = some after) :
    after.Sound max := by
  obtain ⟨signal, _, rfl⟩ | ⟨call, rest, _, woken, rfl⟩ | ⟨number, active, _, ended, rfl⟩ |
    ⟨signal, _, rfl⟩ := step_cases taken
  · exact enter_sound sound.running sound.within fun waits => Nat.le_succ_of_le (sound.awake waits)
  · refine enter_sound sound.running sound.within fun waits => ?_
    have enough := sound.awake waits
    rw [woken] at enough
    exact enough
  · have running := sound.running
    refine shift_sound ?_ (Nat.le_trans (Nat.sub_le ..) sound.within) fun waits => ?_
    · simp only
      omega
    · have enough := sound.awake waits
      simp only
      omega
  · exact ⟨sound.running, sound.within, sound.awake⟩

theorem start_sound : start.Sound max :=
  ⟨rfl, Nat.zero_le _, fun waits => absurd rfl waits⟩

theorem enter_queue : (limit.enter max call).queue.Perm (call :: limit.queue) := by
  obtain ⟨_, waits⟩ | ⟨_, aborted | starts⟩ := enter_cases max limit call
  · rw [waits, queue, ← List.append_assoc]
    exact List.perm_append_singleton call limit.queue
  · rw [aborted, shift_queue, queue, queue]
    simp [List.perm_middle]
  · rw [starts, queue, queue]
    simp [List.perm_middle]

theorem step_queue (taken : limit.step max action = some after) :
    (∃ signal, action = .call signal ∧ after.calls = limit.calls + 1 ∧
      after.queue.Perm (⟨limit.calls, signal⟩ :: limit.queue)) ∨
    (after.calls = limit.calls ∧ after.queue.Perm limit.queue) := by
  obtain ⟨signal, rfl, rfl⟩ | ⟨call, rest, _, woken, rfl⟩ | ⟨number, active, _, _, rfl⟩ |
    ⟨signal, _, rfl⟩ := step_cases taken
  · exact .inl ⟨signal, rfl, enter_calls, enter_queue⟩
  · refine .inr ⟨enter_calls, enter_queue.trans ?_⟩
    rw [queue, queue, woken]
    simpa using List.perm_middle.symm
  · exact .inr ⟨shift_calls, by rw [shift_queue]; exact .refl _⟩
  · exact .inr ⟨rfl, .refl _⟩

/-- Each call is in one place, and only once. -/
theorem queue_perm (run : Reaches (step max) (fun _ _ => True) start limit) :
    (limit.queue.map LimitedCall.number).Perm (List.range limit.calls) := by
  induction run with
  | refl => exact .refl _
  | tail _ _ taken kept =>
      obtain ⟨signal, _, calls, moved⟩ | ⟨calls, moved⟩ := step_queue taken
      · rw [calls, List.range_succ]
        exact (moved.map _).trans ((kept.cons _).trans (List.perm_append_singleton _ _).symm)
      · rw [calls]
        exact (moved.map _).trans kept

/-- How many turns there can be without another call.  A call that was woken may
have to wait again, since others took the turn it was woken for. -/
def turnsLeft (limit : ConcurrencyLimit) : Nat :=
  2 * limit.waiting.length + 4 * limit.woken.length + 3 * limit.active.length

theorem shift_turnsLeft (limit : ConcurrencyLimit) : limit.shift.turnsLeft ≤ limit.turnsLeft + 2 := by
  unfold turnsLeft
  rw [shift_active]
  obtain ⟨_, same⟩ | ⟨woken, waiting⟩ := limit.shift_cases
  · rw [same]
    omega
  · omega

theorem enter_turnsLeft (max : Nat) (limit : ConcurrencyLimit) (call : LimitedCall) :
    (limit.enter max call).turnsLeft ≤ limit.turnsLeft + 3 := by
  obtain ⟨_, waits⟩ | ⟨_, aborted | starts⟩ := enter_cases max limit call
  · simp only [waits, turnsLeft, List.length_append, List.length_singleton]
    omega
  · rw [aborted]
    exact Nat.le_succ_of_le (shift_turnsLeft _)
  · simp only [starts, turnsLeft, List.length_append, List.length_singleton]
    omega

theorem step_turnsLeft (quiet : action.isCall = false) (taken : limit.step max action = some after) :
    after.turnsLeft + action.isTurn.toNat ≤ limit.turnsLeft := by
  obtain ⟨signal, rfl, rfl⟩ | ⟨call, rest, rfl, woken, rfl⟩ | ⟨number, active, rfl, ended, rfl⟩ |
    ⟨signal, rfl, rfl⟩ := step_cases taken
  · cases quiet
  · have entered := enter_turnsLeft max { limit with woken := rest } call
    simp only [turnsLeft, woken, List.length_cons, LimitAction.isTurn, Bool.toNat_true] at entered ⊢
    omega
  · have shifted := shift_turnsLeft { limit with running := limit.running - 1, active := active }
    simp only [turnsLeft, ← ended, LimitAction.isTurn, Bool.toNat_true] at shifted ⊢
    omega
  · exact Nat.le_refl _

/-- Nobody waits any more when no task and no call that was woken is left. -/
theorem waiting_eq_nil (positive : 0 < max) (sound : limit.Sound max) (active : limit.active = [])
    (woken : limit.woken = []) : limit.waiting = [] := by
  by_contra waits
  have enough := sound.awake waits
  rw [sound.running, active, woken] at enough
  exact Nat.not_lt_zero _ (Nat.lt_of_lt_of_le positive enough)

theorem idle (stuck : ∀ action : LimitAction, action.isTurn = true → limit.step max action = none) :
    limit.active = [] ∧ limit.woken = [] := by
  constructor
  · cases active : limit.active with
    | nil => rfl
    | cons call rest =>
        have ends := stuck (.settle call.number) rfl
        simp [step, active] at ends
  · cases woken : limit.woken with
    | nil => rfl
    | cons call rest =>
        have goes := stuck .resume rfl
        simp [step, woken] at goes

/-- At most `max` tasks run at a time, no turn is lost while a call waits, and
without further calls there are only so many turns until every call had one. -/
theorem turns_handed_on (max : Nat) (positive : 0 < max) {limit : ConcurrencyLimit}
    (run : Reaches (step max) (fun _ _ => True) start limit) :
    limit.active.length ≤ max ∧
    (limit.waiting ≠ [] → max ≤ limit.active.length + limit.woken.length) ∧
    ∀ actions last, execute (step max) (fun _ action => action.isCall = false) limit actions =
        some last →
      actions.countP LimitAction.isTurn ≤ limit.turnsLeft ∧
      ((∀ action : LimitAction, action.isTurn = true → last.step max action = none) →
        last.active = [] ∧ (last.served.map LimitedCall.number).Perm (List.range last.calls)) := by
  have sound : limit.Sound max :=
    run.invariant (fun _ _ _ sound _ taken => sound.step taken) start_sound
  refine ⟨sound.running ▸ sound.within, sound.running ▸ sound.awake,
    fun actions last executed => ⟨?_, fun stuck => ?_⟩⟩
  · have left := rank_of_execute (fun _ _ _ quiet taken => step_turnsLeft quiet taken) executed
    exact Nat.le_trans (Nat.le_add_left _ _) left
  · have later := run.trans ((reaches_of_execute executed).mono fun _ _ _ => trivial)
    obtain ⟨active, woken⟩ := idle stuck
    have waiting := waiting_eq_nil positive
      (later.invariant (fun _ _ _ sound _ taken => sound.step taken) start_sound) active woken
    have all := queue_perm later
    rw [queue, woken, waiting, List.append_nil, List.append_nil] at all
    exact ⟨active, all⟩

/-- No call comes in while there is a free turn that another was woken for. -/
def Calm (max : Nat) (limit : ConcurrencyLimit) : LimitAction → Prop
  | .call _ => limit.woken = [] ∨ max ≤ limit.running
  | _ => True

instance (max : Nat) (limit : ConcurrencyLimit) :
    ∀ action : LimitAction, Decidable (Calm max limit action)
  | .call _ => inferInstanceAs (Decidable (limit.woken = [] ∨ max ≤ limit.running))
  | .resume => .isTrue trivial
  | .settle _ => .isTrue trivial
  | .abort _ => .isTrue trivial

/-- Turns are free for all calls that were woken. -/
structure InTurn (max : Nat) (limit : ConcurrencyLimit) : Prop extends Sound max limit where
  room : limit.running + limit.woken.length ≤ max
  ordered : limit.queue.map LimitedCall.number = List.range limit.calls

theorem shift_room (room : limit.running + limit.woken.length < max) :
    limit.shift.running + limit.shift.woken.length ≤ max := by
  rw [shift_running]
  obtain ⟨_, same⟩ | ⟨woken, _⟩ := limit.shift_cases
  · rw [same]
    exact Nat.le_of_lt room
  · rw [woken]
    exact room

/-- A call that finds a free turn does not get ahead of others. -/
theorem enter_ordered (limit : ConcurrencyLimit) (call : LimitedCall)
    (room : limit.running + limit.woken.length < max) :
    (limit.enter max call).running + (limit.enter max call).woken.length ≤ max ∧
      (limit.enter max call).queue = limit.served ++ call :: (limit.woken ++ limit.waiting) := by
  obtain ⟨full, _⟩ | ⟨_, aborted | starts⟩ := enter_cases max limit call
  · omega
  · rw [aborted]
    refine ⟨shift_room room, ?_⟩
    rw [shift_queue, queue]
    simp
  · rw [starts]
    refine ⟨?_, by simp [queue]⟩
    simp only
    omega

/-- A new call is the last to get its turn. -/
theorem call_ordered (limit : ConcurrencyLimit) (room : limit.running + limit.woken.length ≤ max)
    (awake : limit.waiting ≠ [] → max ≤ limit.running + limit.woken.length)
    (calm : limit.woken = [] ∨ max ≤ limit.running) (call : LimitedCall) :
    (limit.enter max call).running + (limit.enter max call).woken.length ≤ max ∧
      (limit.enter max call).queue = limit.queue ++ [call] := by
  by_cases full : max ≤ limit.running
  · obtain ⟨_, waits⟩ | ⟨free, _⟩ := enter_cases max limit call
    · rw [waits]
      exact ⟨room, by simp [queue]⟩
    · exact absurd full (Nat.not_le.mpr free)
  · have woken := calm.resolve_right full
    have waiting : limit.waiting = [] := by
      by_contra waits
      have enough := awake waits
      rw [woken] at enough
      exact full enough
    have free : limit.running + limit.woken.length < max := by
      rw [woken]
      exact Nat.lt_of_not_le full
    obtain ⟨kept, same⟩ := enter_ordered limit call free
    refine ⟨kept, ?_⟩
    rw [same, queue, woken, waiting]
    simp

theorem InTurn.step (inTurn : limit.InTurn max) (calm : Calm max limit action)
    (taken : limit.step max action = some after) : after.InTurn max := by
  have sound := inTurn.toSound.step taken
  have room := inTurn.room
  have ordered := inTurn.ordered
  obtain ⟨signal, rfl, rfl⟩ | ⟨call, rest, rfl, woken, rfl⟩ | ⟨number, active, rfl, ended, rfl⟩ |
    ⟨signal, rfl, rfl⟩ := step_cases taken
  · obtain ⟨kept, same⟩ := call_ordered { limit with calls := limit.calls + 1 } room inTurn.awake
      calm ⟨limit.calls, signal⟩
    refine ⟨sound, kept, ?_⟩
    rw [same, enter_calls, List.map_append, List.range_succ, ← ordered]
    rfl
  · have free : limit.running + rest.length < max := by
      rw [woken] at room
      exact room
    obtain ⟨kept, same⟩ := enter_ordered { limit with woken := rest } call free
    refine ⟨sound, kept, ?_⟩
    rw [same, enter_calls, ← ordered, queue, woken]
    simp
  · have running := inTurn.running
    refine ⟨sound, shift_room ?_, by rw [shift_queue, shift_calls]; exact ordered⟩
    simp only
    omega
  · exact ⟨sound, room, ordered⟩

/-- The calls get their turns in the order in which they were made, as long as no
call comes in between a wake-up and the turn it is for. -/
theorem served_in_order {max : Nat} {limit : ConcurrencyLimit}
    (run : Reaches (step max) (Calm max) start limit) :
    (limit.served ++ limit.woken ++ limit.waiting).map LimitedCall.number =
      List.range limit.calls := by
  have inTurn : limit.InTurn max :=
    run.invariant (fun _ _ _ inTurn calm taken => inTurn.step calm taken)
      ⟨start_sound, Nat.zero_le _, rfl⟩
  exact inTurn.ordered

/-- Two tasks at a time and an aborted call among those that wait. -/
def crowded : List LimitAction :=
  [.call none, .call (some 0), .call (some 0), .call none, .abort 0, .settle 0, .resume, .resume]

theorem turns_handed_on_crowded :
    ∃ limit, Reaches (step 2) (fun _ _ => True) start limit ∧
      limit.active.map LimitedCall.number = [1, 3] ∧ limit.active.length ≤ 2 := by
  obtain ⟨limit, run, checked⟩ := exists_reaches_of_execute (step 2) (fun _ _ => True) start crowded
    (fun limit => limit.active.map LimitedCall.number == [1, 3]) (by decide)
  exact ⟨limit, run, by simpa using checked, (turns_handed_on 2 (by decide) run).1⟩

theorem served_in_order_crowded :
    ∃ limit, Reaches (step 2) (Calm 2) start limit ∧ limit.served.length = 4 ∧
      (limit.served ++ limit.woken ++ limit.waiting).map LimitedCall.number =
        List.range limit.calls := by
  obtain ⟨limit, run, checked⟩ := exists_reaches_of_execute (step 2) (Calm 2) start crowded
    (fun limit => limit.served.length == 4) (by decide)
  exact ⟨limit, run, by simpa using checked, served_in_order run⟩

end ConcurrencyLimit

end Ora.Ui
