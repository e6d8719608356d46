import Ora.Library.Wakeup
import Mathlib.Data.List.Basic

/-!
# The wait group

`ora-wgroup`: guards that are added and dropped by any task, and the future and
the stream that wait for all of them.  A guard is dropped in two steps, its
entry is removed under the lock and the waker is woken afterwards.
-/

namespace Ora.Wgroup

open Ora.Library

abbrev GuardId := Nat

/-- Who polls: the task behind a waker. -/
abbrev Task := Nat

/-- `usize::MAX`, the id of guards without a group. -/
def usizeMax : Nat := Nat.pow 2 64 - 1

/-- The guards are a `BTreeMap` from ids to names. -/
structure WgInner where
  nextId : Nat
  guards : List (GuardId × String)
  waker : Option Task

def insertGuard (id : GuardId) (name : String) :
    List (GuardId × String) → List (GuardId × String)
  | [] => [(id, name)]
  | (other, info) :: rest =>
      if id < other then
        (id, name) :: (other, info) :: rest
      else if id = other then
        (id, name) :: rest
      else
        (other, info) :: insertGuard id name rest

def removeGuard (id : GuardId) (guards : List (GuardId × String)) : List (GuardId × String) :=
  guards.filter fun entry => entry.1 != id

/-- `fetch_add` wraps around. -/
def WgInner.newId (inner : WgInner) : GuardId × WgInner :=
  (inner.nextId, { inner with nextId := (inner.nextId + 1) % Nat.pow 2 64 })

def WgInner.add (inner : WgInner) (name : String) : GuardId × WgInner :=
  let (id, inner) := inner.newId
  (id, { inner with guards := insertGuard id name inner.guards })

inductive Poll (α : Type) where
  | ready (value : α)
  | pending
  deriving DecidableEq, Repr

/-- `Future::poll`, the waker is registered while the lock is held. -/
def AllDone.poll (inner : WgInner) (task : Task) : Poll Unit × WgInner :=
  if inner.guards.isEmpty then
    (.ready (), inner)
  else
    (.pending, { inner with waker := some task })

/-- `Stream::poll_next`, with the last count after it. -/
def AllDone.pollNext (lastCount : Nat) (inner : WgInner) (task : Task) :
    Poll (Option (Nat × List String)) × WgInner × Nat :=
  if inner.guards.isEmpty then
    (.ready none, inner, lastCount)
  else
    let count := inner.guards.length
    let ret :=
      if lastCount = count then
        .pending
      else
        .ready (some (count, inner.guards.map Prod.snd))
    (ret, { inner with waker := some task }, count)

/-- The group with the guards that are held, those whose entry is removed but
whose wake is still to come, and the waiter. -/
structure Group where
  inner : WgInner
  held : List GuardId
  dropping : List GuardId
  lastCount : Nat
  waiter : Waiter Task

def Group.new : Group where
  inner := ⟨0, [], none⟩
  held := []
  dropping := []
  lastCount := 0
  waiter := .scheduled

inductive Action where
  /-- Through the group or a handle, or through a guard. -/
  | add (guard : Option GuardId) (name : String)
  | remove (guard : GuardId)
  | wake (guard : GuardId)
  | poll (task : Task)
  | pollNext (task : Task)

namespace Group

def addGuard (group : Group) (name : String) : Group :=
  let (id, inner) := group.inner.add name
  { group with inner := inner, held := id :: group.held }

/-- `AtomicWaker::wake` takes the waker. -/
def wakeWaiter (group : Group) : Group :=
  { group with
    inner := { group.inner with waker := none }
    waiter := group.waiter.wake group.inner.waker }

/-- What the waiter does after a poll: it is done, polls again or is parked. -/
def afterPoll (task : Task) : Poll (Option (Nat × List String)) → Waiter Task
  | .ready none => .finished
  | .ready (some _) => .scheduled
  | .pending => .parked task

def step (group : Group) : Action → Option Group
  | .add none name => some (group.addGuard name)
  | .add (some guard) name =>
      if guard ∈ group.held then
        if guard = usizeMax then some group else some (group.addGuard name)
      else
        none
  | .remove guard =>
      if guard ∈ group.held then
        some { group with
          inner := { group.inner with guards := removeGuard guard group.inner.guards }
          held := group.held.erase guard
          dropping := guard :: group.dropping }
      else
        none
  | .wake guard =>
      if guard ∈ group.dropping then
        some { group.wakeWaiter with dropping := group.dropping.erase guard }
      else
        none
  | .poll task =>
      let (result, inner) := AllDone.poll group.inner task
      some { group with
        inner := inner
        waiter := match result with
          | .ready () => .finished
          | .pending => .parked task }
  | .pollNext task =>
      let (result, inner, lastCount) := AllDone.pollNext group.lastCount group.inner task
      some { group with
        inner := inner
        lastCount := lastCount
        waiter := afterPoll task result }

/-- Guards are waited for to be gone, every guard that is dropped owes a wake. -/
def monitor (group : Group) : Monitor (List (GuardId × String)) Task :=
  ⟨group.inner.guards, group.inner.waker, group.dropping.length, group.waiter⟩

variable {group next : Group}

theorem insertGuard_ne_nil (id : GuardId) (name : String) (guards : List (GuardId × String)) :
    insertGuard id name guards ≠ [] := by
  cases guards with
  | nil => exact List.cons_ne_nil _ _
  | cons entry rest =>
      unfold insertGuard
      split
      · exact List.cons_ne_nil _ _
      · split <;> exact List.cons_ne_nil _ _

theorem addGuard_monitor (name : String) :
    (group.monitor).step List.isEmpty (.change (group.addGuard name).inner.guards) =
      some (group.addGuard name).monitor := by
  have filled : (group.addGuard name).inner.guards.isEmpty = false :=
    List.isEmpty_eq_false_iff.mpr (insertGuard_ne_nil _ _ _)
  simp only [Monitor.step, filled, Bool.false_and, Bool.false_eq_true, if_false]
  rfl

/-- Every step of the group is one of the monitor, or does nothing to it. -/
theorem step_monitor {action : Action} (taken : group.step action = some next) :
    next.monitor = group.monitor ∨
      ∃ step, group.monitor.step List.isEmpty step = some next.monitor := by
  cases action with
  | add guard name =>
      cases guard with
      | none =>
          cases taken
          exact .inr ⟨_, addGuard_monitor name⟩
      | some guard =>
          simp only [step] at taken
          split at taken
          · split at taken
            · cases taken
              exact .inl rfl
            · cases taken
              exact .inr ⟨_, addGuard_monitor name⟩
          · cases taken
  | remove guard =>
      simp only [step] at taken
      split at taken
      · cases taken
        exact .inr ⟨.release _, rfl⟩
      · cases taken
  | wake guard =>
      simp only [step] at taken
      split at taken
      · rename_i owed
        cases taken
        refine .inr ⟨.deliver, ?_⟩
        have some_owed : group.dropping.length ≠ 0 := Nat.pos_iff_ne_zero.mp (List.length_pos_of_mem owed)
        simp only [Monitor.step, monitor, some_owed, if_false, List.length_erase_of_mem owed]
        rfl
      · cases taken
  | poll task =>
      refine .inr ⟨.check task true, ?_⟩
      simp only [step, AllDone.poll] at taken
      cases empty : group.inner.guards.isEmpty with
      | true =>
          rw [empty] at taken
          cases taken
          simp only [Monitor.step, monitor, empty, if_true]
      | false =>
          rw [empty] at taken
          cases taken
          simp only [Monitor.step, monitor, empty, Bool.false_eq_true, if_false, if_true]
  | pollNext task =>
      refine .inr ⟨.check task (group.lastCount == group.inner.guards.length), ?_⟩
      simp only [step, AllDone.pollNext] at taken
      cases empty : group.inner.guards.isEmpty with
      | true =>
          rw [empty] at taken
          cases taken
          simp only [Monitor.step, monitor, empty, if_true]
          rfl
      | false =>
          rw [empty] at taken
          cases taken
          simp only [Monitor.step, monitor, empty, Bool.false_eq_true, if_false, beq_iff_eq]
          split <;> rfl

/-- Runs of the group are runs of the monitor. -/
theorem reaches_monitor {start : Group} {allowed : Group → Action → Prop}
    (run : Reaches step allowed start group) :
    Reaches (Monitor.step List.isEmpty) (fun _ _ => True) start.monitor group.monitor := by
  induction run with
  | refl => exact .refl
  | tail _ _ taken ih =>
      rcases step_monitor taken with same | ⟨action, moved⟩
      · rwa [same]
      · exact ih.tail trivial moved

theorem attentive (run : Reaches step (fun _ _ => True) new group) :
    Monitor.Attentive List.isEmpty group.monitor := by
  have initial : Monitor.Attentive List.isEmpty new.monitor := by
    refine .of_not_parked fun task parked => ?_
    cases parked
  exact Monitor.attentive_of_reaches initial (reaches_monitor run)

theorem poll_ready_iff (inner : WgInner) (task : Task) :
    (AllDone.poll inner task).1 = .ready () ↔ inner.guards = [] := by
  unfold AllDone.poll
  cases empty : inner.guards.isEmpty with
  | true => exact iff_of_true rfl (List.isEmpty_iff.mp empty)
  | false =>
      refine iff_of_false ?_ (List.isEmpty_eq_false_iff.mp empty)
      simp only [Bool.false_eq_true, if_false]
      nofun

theorem pollNext_none_iff (lastCount : Nat) (inner : WgInner) (task : Task) :
    (AllDone.pollNext lastCount inner task).1 = .ready none ↔ inner.guards = [] := by
  unfold AllDone.pollNext
  cases empty : inner.guards.isEmpty with
  | true => exact iff_of_true rfl (List.isEmpty_iff.mp empty)
  | false =>
      refine iff_of_false ?_ (List.isEmpty_eq_false_iff.mp empty)
      simp only [Bool.false_eq_true, if_false]
      split <;> nofun

/-- In no reachable state is the waiter parked while all guards are gone, unless
a wake is still to come, and any such wake reschedules it.  A poll reports
completion exactly when there are no guards. -/
theorem wait_group_last_guard (run : Reaches step (fun _ _ => True) new group) :
    (∀ task, group.waiter = .parked task → group.inner.guards = [] →
      group.dropping ≠ [] ∧ ∀ guard ∈ group.dropping, ∃ next,
        group.step (.wake guard) = some next ∧ next.waiter = .scheduled) ∧
    (∀ task, (AllDone.poll group.inner task).1 = .ready () ↔ group.inner.guards = []) ∧
    ∀ task, (AllDone.pollNext group.lastCount group.inner task).1 = .ready none ↔
      group.inner.guards = [] := by
  have awake := attentive run
  refine ⟨fun task parked empty => ⟨?_, fun guard owed => ?_⟩, poll_ready_iff _,
    pollNext_none_iff _ _⟩
  · exact List.ne_nil_of_length_pos (awake.owed task parked (List.isEmpty_iff.mpr empty))
  · exact ⟨_, if_pos owed, Monitor.wake_scheduled parked (awake.registered task parked)⟩

/-- The only guard is removed while the waiter is parked, its wake is still to come. -/
theorem wait_group_last_guard_removed :
    ∃ group, Reaches step (fun _ _ => True) new group ∧ group.waiter = .parked 7 ∧
      group.inner.guards = [] ∧ group.dropping ≠ [] := by
  have run : Reaches step (fun _ _ => True) new
      ⟨⟨1, [], some 7⟩, [], [0], 0, .parked 7⟩ :=
    reaches_of_execute (show execute step (fun _ _ => True) new
      [.add none "a", .poll 7, .remove 0] = _ from rfl)
  exact ⟨_, run, rfl, rfl, ((wait_group_last_guard run).1 7 rfl rfl).1⟩

end Group

end Ora.Wgroup
