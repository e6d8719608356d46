import Mathlib.Data.List.MinMax
import Ora.Library.Notified
import Ora.Library.Run
import Ora.Postgres.ActiveExecution
import Ora.Postgres.Announcements

/-!
# Waiting for work

`wait_for_ready_executions` and `wait_for_pending_schedules`, any number of calls
at a time, beside the operations whose commits are announced later.  The time is
that of the database, the clock of the process may lag behind.  The operations
of other processes are announced to their own waiters only.
-/

namespace Ora.Postgres

open Ora.Backend
open Ora.Library

/-- Where `wait_for_ready_executions` is in its loop, `now` is the time of the
transaction in which it looked. -/
inductive ReadyWait where
  | listening
  | reading (now : Time)
  | decided (now delay : Time)
  | sleeping (now started delay : Time)
  | returned
  deriving DecidableEq, Repr

/-- `notified` is about the future that was created last. -/
structure ReadyWaiter where
  ignored : List ExecutionId
  notified : Bool
  stage : ReadyWait
  deriving DecidableEq, Repr

inductive ScheduleWait where
  | listening
  | decided
  | sleeping (started : Time)
  | returned
  deriving DecidableEq, Repr

structure ScheduleWaiter where
  notified : Bool
  stage : ScheduleWait
  deriving DecidableEq, Repr

/-- A step of a call, `fail` is an error of the pool or of the query. -/
inductive WaitMove where
  | begin
  | query
  | sleep
  | wake
  | timeout
  | fail
  deriving DecidableEq, Repr

namespace PostgresBackend

/-- The time until the next execution is due. -/
def untilNext (store : Store) (now : Time) (ignored : List ExecutionId) : Option Time :=
  (((store.executions.rows.filter fun row => row.status == .pending && !ignored.contains row.id).map
    ExecutionRow.targetExecutionTime).min?).map fun target => target - now

end PostgresBackend

namespace ReadyWaiter

/-- The loop of `wait_for_ready_executions`. -/
def step (pollInterval : Time) (store : Store) (time : Time) (waiter : ReadyWaiter) :
    WaitMove → Option ReadyWaiter
  | .begin =>
      match waiter.stage with
      | .listening => some { waiter with stage := .reading time }
      | _ => none
  | .query =>
      match waiter.stage with
      | .reading now =>
          match PostgresBackend.untilNext store now waiter.ignored with
          | none => some { waiter with stage := .decided now pollInterval }
          | some untilNext =>
              if untilNext ≤ 0 then
                some { waiter with stage := .returned }
              else
                some { waiter with stage := .decided now (min pollInterval untilNext) }
      | _ => none
  | .sleep =>
      match waiter.stage with
      | .decided now delay => some { waiter with stage := .sleeping now time delay }
      | _ => none
  | .wake =>
      match waiter.stage with
      | .sleeping .. => if waiter.notified then some { waiter with stage := .returned } else none
      | _ => none
  | .timeout =>
      match waiter.stage with
      | .sleeping _ started delay =>
          if started + delay ≤ time then
            -- The next round begins with a future of its own.
            some { waiter with notified := false, stage := .listening }
          else
            none
      | _ => none
  | .fail =>
      match waiter.stage with
      | .listening => some { waiter with stage := .returned }
      | .reading _ => some { waiter with stage := .returned }
      | _ => none

end ReadyWaiter

namespace ScheduleWaiter

/-- The loop of `wait_for_pending_schedules`. -/
def step (pollInterval : Time) (store : Store) (time : Time) (waiter : ScheduleWaiter) :
    WaitMove → Option ScheduleWaiter
  | .query =>
      match waiter.stage with
      | .listening =>
          if store.schedules.rows.any fun row => row.stoppedAt.isNone && row.activeJobId.isNone then
            some { waiter with stage := .returned }
          else
            some { waiter with stage := .decided }
      | _ => none
  | .sleep =>
      match waiter.stage with
      | .decided => some { waiter with stage := .sleeping time }
      | _ => none
  | .wake =>
      match waiter.stage with
      | .sleeping _ => if waiter.notified then some { waiter with stage := .returned } else none
      | _ => none
  | .timeout =>
      match waiter.stage with
      | .sleeping started =>
          if started + pollInterval ≤ time then
            some { waiter with notified := false, stage := .listening }
          else
            none
      | _ => none
  | .fail =>
      match waiter.stage with
      | .listening => some { waiter with stage := .returned }
      | _ => none
  | .begin => none

end ScheduleWaiter

/-- `newExecutions` and `newPendingSchedules` are the calls of
`notify_new_executions` and of `notify_waiters` for schedules that are to come,
their operations are committed. -/
structure Waits where
  store : Store
  time : Time
  readyWaiters : List ReadyWaiter
  scheduleWaiters : List ScheduleWaiter
  newExecutions : List (List NewExecution)
  newPendingSchedules : Nat

inductive WaitsAction where
  | tick (passed : Nat)
  | commit (operation : Operation)
  | notifyNewExecutions (index : Nat) (systemNow : Time)
  | notifyPendingSchedules
  | waitForReadyExecutions (ignored : List ExecutionId)
  | waitForPendingSchedules
  | ready (index : Nat) (move : WaitMove)
  | schedules (index : Nat) (move : WaitMove)

namespace Waits

/-- Nobody waits yet. -/
def start (store : Store) (time : Time) : Waits := ⟨store, time, [], [], [], 0⟩

variable (pollInterval : Time)

/-- `notify_new_executions` leaves executions to the polls that are due after them. -/
def notifies (systemNow : Time) (new : List NewExecution) : Bool :=
  new.any fun execution => decide (execution.targetExecutionTime < systemNow + pollInterval)

def step (state : Waits) : WaitsAction → Option Waits
  | .tick passed => some { state with time := state.time + passed }
  | .commit operation =>
      (operation.apply state.store).map fun after =>
        { state with
          store := after
          newExecutions :=
            state.newExecutions ++ [PostgresBackend.announced state.store operation]
          newPendingSchedules := state.newPendingSchedules +
            (PostgresBackend.freesSchedules state.store operation).toNat }
  | .notifyNewExecutions index systemNow =>
      state.newExecutions[index]?.map fun new =>
        { state with
          newExecutions := state.newExecutions.eraseIdx index
          readyWaiters :=
            if notifies pollInterval systemNow new then
              state.readyWaiters.map fun waiter => { waiter with notified := true }
            else
              state.readyWaiters }
  | .notifyPendingSchedules =>
      if state.newPendingSchedules = 0 then
        none
      else
        some { state with
          newPendingSchedules := state.newPendingSchedules - 1
          scheduleWaiters :=
            state.scheduleWaiters.map fun waiter => { waiter with notified := true } }
  | .waitForReadyExecutions ignored =>
      some { state with readyWaiters := state.readyWaiters ++ [⟨ignored, false, .listening⟩] }
  | .waitForPendingSchedules =>
      some { state with scheduleWaiters := state.scheduleWaiters ++ [⟨false, .listening⟩] }
  | .ready index move =>
      state.readyWaiters[index]?.bind fun waiter =>
        (waiter.step pollInterval state.store state.time move).map fun waiter =>
          { state with readyWaiters := state.readyWaiters.set index waiter }
  | .schedules index move =>
      state.scheduleWaiters[index]?.bind fun waiter =>
        (waiter.step pollInterval state.store state.time move).map fun waiter =>
          { state with scheduleWaiters := state.scheduleWaiters.set index waiter }

/-- The clock of the process is at most `lag` behind that of the database. -/
def Synchronized (lag : Time) (state : Waits) : WaitsAction → Prop
  | .notifyNewExecutions _ systemNow => state.time ≤ systemNow + lag
  | _ => True

instance (lag : Time) (state : Waits) : ∀ action, Decidable (Synchronized lag state action)
  | .notifyNewExecutions _ systemNow => inferInstanceAs (Decidable (state.time ≤ systemNow + lag))
  | .tick _ => .isTrue trivial
  | .commit _ => .isTrue trivial
  | .notifyPendingSchedules => .isTrue trivial
  | .waitForReadyExecutions _ => .isTrue trivial
  | .waitForPendingSchedules => .isTrue trivial
  | .ready _ _ => .isTrue trivial
  | .schedules _ _ => .isTrue trivial

/-- The executions that could become ready. -/
def Pending (store : Store) (row : ExecutionRow) : Prop :=
  row ∈ store.executions.rows ∧ row.status = .pending

/-- The operation that added the execution has yet to announce it. -/
def Unannounced (newExecutions : List (List NewExecution)) (row : ExecutionRow) : Prop :=
  ∃ new ∈ newExecutions, ∃ execution ∈ new,
    row.targetExecutionTime = systemtimeToTs execution.targetExecutionTime

/-- The execution is due then, or was added for that time, which was rounded. -/
def DueAt (row : ExecutionRow) (due : Time) : Prop :=
  row.targetExecutionTime = due ∨ row.targetExecutionTime = systemtimeToTs due

/-- The sleep of a waiter that looked at `now` is not too long for an execution. -/
def Covers (lag : Time) (found : List ExecutionId × Time × Time) (row : ExecutionRow) : Prop :=
  row.id ∈ found.1 ∨ ∃ due, DueAt row due ∧ found.2.1 + found.2.2 ≤ due + lag

def ScheduleWaits (store : Store) (row : ScheduleRow) : Prop :=
  row ∈ store.schedules.rows ∧ PostgresBackend.waitsForJob row

end Waits

namespace ReadyWaiter

variable {pollInterval lag time : Time} {store : Store} {waiter after : ReadyWaiter}
  {move : WaitMove}

/-- What the waiter found out: when it looked and how long it is going to sleep. -/
def listener (waiter : ReadyWaiter) : Listener (List ExecutionId × Time × Time) where
  notified := waiter.notified
  found :=
    match waiter.stage with
    | .decided now delay => some (waiter.ignored, now, delay)
    | .sleeping now _ delay => some (waiter.ignored, now, delay)
    | _ => none

/-- The times of a waiter are in order, and it sleeps until the next poll at most. -/
def Timed (pollInterval time : Time) (waiter : ReadyWaiter) : Prop :=
  match waiter.stage with
  | .reading now => now ≤ time
  | .decided now delay => now ≤ time ∧ delay ≤ pollInterval
  | .sleeping now started delay => now ≤ started ∧ started ≤ time ∧ delay ≤ pollInterval
  | _ => True

theorem Timed.mono (timed : waiter.Timed pollInterval time) {later : Time} (order : time ≤ later) :
    waiter.Timed pollInterval later := by
  unfold Timed at timed ⊢
  split at timed
  · exact Int.le_trans timed order
  · exact ⟨Int.le_trans timed.1 order, timed.2⟩
  · exact ⟨timed.1, Int.le_trans timed.2.1 order, timed.2.2⟩
  · trivial

theorem found_timed (timed : waiter.Timed pollInterval time)
    {found : List ExecutionId × Time × Time} (known : found ∈ waiter.listener.found) :
    found.2.1 ≤ time ∧ found.2.2 ≤ pollInterval := by
  unfold Timed at timed
  unfold listener at known
  dsimp only at known
  split at known
  · rename_i stage
    cases known
    rw [stage] at timed
    exact timed
  · rename_i stage
    cases known
    rw [stage] at timed
    exact ⟨Int.le_trans timed.1 timed.2.1, timed.2.2⟩
  · cases known

/-- The query of the waiter covers every execution that is pending. -/
theorem untilNext_covers {now : Time} {ignored : List ExecutionId} {delay : Time}
    (positive : 0 ≤ lag)
    (short : ∀ untilNext ∈ PostgresBackend.untilNext store now ignored, delay ≤ untilNext)
    {row : ExecutionRow} (pending : Waits.Pending store row) :
    Waits.Covers lag (ignored, now, delay) row := by
  by_cases ignores : row.id ∈ ignored
  · exact .inl ignores
  · refine .inr ⟨row.targetExecutionTime, .inl rfl, ?_⟩
    have listed : row.targetExecutionTime ∈ (store.executions.rows.filter fun row =>
        row.status == .pending && !ignored.contains row.id).map ExecutionRow.targetExecutionTime := by
      refine List.mem_map_of_mem (List.mem_filter.mpr ⟨pending.1, ?_⟩)
      simp [pending.2, ignores]
    unfold PostgresBackend.untilNext at short
    cases first : ((store.executions.rows.filter fun row =>
        row.status == .pending && !ignored.contains row.id).map
          ExecutionRow.targetExecutionTime).min? with
    | none =>
        rw [List.min?_eq_none_iff.mp first] at listed
        exact absurd listed List.not_mem_nil
    | some target =>
        have least := (List.min?_eq_some_iff.mp first).2 _ listed
        have enough := short (target - now) (by rw [first]; rfl)
        calc
          now + delay ≤ now + (target - now) := Int.add_le_add_left enough now
          _ = target := by rw [Int.add_comm, Int.sub_add_cancel]
          _ ≤ row.targetExecutionTime := least
          _ ≤ row.targetExecutionTime + lag := Int.le_add_of_nonneg_right positive

/-- A step of a call keeps what is known of it. -/
theorem step_aware (positive : 0 ≤ lag) (timed : waiter.Timed pollInterval time)
    {owed : ExecutionRow → Prop}
    (aware : waiter.listener.Aware (Waits.Covers lag) (Waits.Pending store) owed)
    (taken : waiter.step pollInterval store time move = some after) :
    after.Timed pollInterval time ∧
      after.listener.Aware (Waits.Covers lag) (Waits.Pending store) owed := by
  cases move with
  | begin =>
      unfold step at taken
      dsimp only at taken
      split at taken
      · cases taken
        exact ⟨Int.le_refl time, Listener.aware_of_none rfl⟩
      · cases taken
  | query =>
      unfold step at taken
      dsimp only at taken
      split at taken
      · rename_i now stage
        unfold Timed at timed
        rw [stage] at timed
        split at taken
        · rename_i next
          cases taken
          refine ⟨⟨timed, Int.le_refl _⟩, Listener.aware_of_found fun found known row pending => ?_⟩
          cases known
          refine untilNext_covers positive (fun untilNext some => ?_) pending
          rw [next] at some
          cases some
        · rename_i untilNext next
          split at taken
          · cases taken
            exact ⟨trivial, Listener.aware_of_none rfl⟩
          · cases taken
            refine ⟨⟨timed, Int.min_le_left _ _⟩,
              Listener.aware_of_found fun found known row pending => ?_⟩
            cases known
            refine untilNext_covers positive (fun other some => ?_) pending
            rw [next] at some
            cases some
            exact Int.min_le_right _ _
      · cases taken
  | sleep =>
      unfold step at taken
      dsimp only at taken
      split at taken
      · rename_i now delay stage
        unfold Timed at timed
        rw [stage] at timed
        cases taken
        refine ⟨⟨timed.1, Int.le_refl time, timed.2⟩, fun unnotified found known => ?_⟩
        refine aware unnotified found ?_
        unfold listener
        rw [stage]
        exact known
      · cases taken
  | wake =>
      unfold step at taken
      dsimp only at taken
      split at taken
      · obtain ⟨_, taken⟩ := Option.ite_none_right_eq_some.mp taken
        cases taken
        exact ⟨trivial, Listener.aware_of_none rfl⟩
      · cases taken
  | timeout =>
      unfold step at taken
      dsimp only at taken
      split at taken
      · obtain ⟨_, taken⟩ := Option.ite_none_right_eq_some.mp taken
        cases taken
        exact ⟨trivial, Listener.aware_of_none rfl⟩
      · cases taken
  | fail =>
      unfold step at taken
      dsimp only at taken
      split at taken
      · cases taken
        exact ⟨trivial, Listener.aware_of_none rfl⟩
      · cases taken
        exact ⟨trivial, Listener.aware_of_none rfl⟩
      · cases taken

end ReadyWaiter

namespace ScheduleWaiter

variable {pollInterval time : Time} {store : Store} {waiter after : ScheduleWaiter}
  {move : WaitMove}

def listener (waiter : ScheduleWaiter) : Listener Unit where
  notified := waiter.notified
  found :=
    match waiter.stage with
    | .decided => some ()
    | .sleeping _ => some ()
    | _ => none

/-- A waiter that found no schedule goes to sleep. -/
theorem step_aware {owed : ScheduleRow → Prop}
    (aware : waiter.listener.Aware (fun _ _ => False) (Waits.ScheduleWaits store) owed)
    (taken : waiter.step pollInterval store time move = some after) :
    after.listener.Aware (fun _ _ => False) (Waits.ScheduleWaits store) owed := by
  cases move with
  | begin => cases taken
  | query =>
      unfold step at taken
      dsimp only at taken
      split at taken
      · split at taken
        · cases taken
          exact Listener.aware_of_none rfl
        · rename_i none
          cases taken
          refine Listener.aware_of_found fun _ _ row waits => none ?_
          refine List.any_eq_true.mpr ⟨row, waits.1, ?_⟩
          simp [waits.2.1, waits.2.2]
      · cases taken
  | sleep =>
      unfold step at taken
      dsimp only at taken
      split at taken
      · rename_i stage
        cases taken
        refine fun unnotified found known => aware unnotified found ?_
        unfold listener
        rw [stage]
        exact known
      · cases taken
  | wake =>
      unfold step at taken
      dsimp only at taken
      split at taken
      · obtain ⟨_, taken⟩ := Option.ite_none_right_eq_some.mp taken
        cases taken
        exact Listener.aware_of_none rfl
      · cases taken
  | timeout =>
      unfold step at taken
      dsimp only at taken
      split at taken
      · obtain ⟨_, taken⟩ := Option.ite_none_right_eq_some.mp taken
        cases taken
        exact Listener.aware_of_none rfl
      · cases taken
  | fail =>
      unfold step at taken
      dsimp only at taken
      split at taken
      · cases taken
        exact Listener.aware_of_none rfl
      · cases taken

end ScheduleWaiter

namespace Waits

variable {pollInterval lag : Time} {state after : Waits} {action : WaitsAction}

/-- Waiters are aware of what is pending, or are going to be notified. -/
structure Attentive (pollInterval lag : Time) (state : Waits) : Prop where
  timed : ∀ waiter ∈ state.readyWaiters, waiter.Timed pollInterval state.time
  ready : ∀ waiter ∈ state.readyWaiters,
    waiter.listener.Aware (Covers lag) (Pending state.store) (Unannounced state.newExecutions)
  schedules : ∀ waiter ∈ state.scheduleWaiters,
    waiter.listener.Aware (fun _ _ => False) (ScheduleWaits state.store)
      fun _ => 0 < state.newPendingSchedules

theorem start_attentive (store : Store) (time : Time) :
    (start store time).Attentive pollInterval lag :=
  ⟨nofun, nofun, nofun⟩

theorem commit_attentive (attentive : state.Attentive pollInterval lag) {operation : Operation}
    (taken : state.step pollInterval (.commit operation) = some after) :
    after.Attentive pollInterval lag := by
  obtain ⟨store, done, rfl⟩ := Option.map_eq_some_iff.mp taken
  refine ⟨attentive.timed, fun waiter member => ?_, fun waiter member => ?_⟩
  · refine (attentive.ready waiter member).change (fun row pending => ?_) fun row owed => ?_
    · obtain known | announced := PostgresBackend.pending_announced done pending.1 pending.2
      · exact .inl ⟨known, pending.2⟩
      · exact .inr ⟨_, List.mem_append_right _ (List.mem_singleton_self _), announced⟩
    · obtain ⟨new, listed, announced⟩ := owed
      exact ⟨new, List.mem_append_left _ listed, announced⟩
  · refine (attentive.schedules waiter member).change (fun row waits => ?_) fun row owed => ?_
    · obtain known | frees := PostgresBackend.waiting_announced done waits.1 waits.2
      · exact .inl ⟨known, waits.2⟩
      · rw [frees]
        exact .inr (Nat.succ_pos _)
    · exact Nat.add_pos_left owed _

/-- An announcement that wakes nobody up concerns executions that are due after
the next poll. -/
theorem late_covers {systemNow : Time} {new : List NewExecution} {execution : NewExecution}
    {waiter : ReadyWaiter} {row : ExecutionRow}
    (timed : waiter.Timed pollInterval state.time) (synchronized : state.time ≤ systemNow + lag)
    (quiet : notifies pollInterval systemNow new = false) (listed : execution ∈ new)
    (target : row.targetExecutionTime = systemtimeToTs execution.targetExecutionTime)
    {found : List ExecutionId × Time × Time} (known : found ∈ waiter.listener.found) :
    Covers lag found row := by
  obtain ⟨looked, short⟩ := ReadyWaiter.found_timed timed known
  have late : systemNow + pollInterval ≤ execution.targetExecutionTime := by
    have notDue := List.any_eq_false.mp quiet execution listed
    simpa using notDue
  refine .inr ⟨execution.targetExecutionTime, .inr target, ?_⟩
  calc
    found.2.1 + found.2.2 ≤ state.time + pollInterval := Int.add_le_add looked short
    _ ≤ systemNow + lag + pollInterval := Int.add_le_add_right synchronized _
    _ = systemNow + pollInterval + lag := Int.add_right_comm ..
    _ ≤ execution.targetExecutionTime + lag := Int.add_le_add_right late _

theorem notify_attentive (attentive : state.Attentive pollInterval lag) {index : Nat}
    {systemNow : Time} (synchronized : state.time ≤ systemNow + lag)
    (taken : state.step pollInterval (.notifyNewExecutions index systemNow) = some after) :
    after.Attentive pollInterval lag := by
  obtain ⟨new, listed, rfl⟩ := Option.map_eq_some_iff.mp taken
  cases notifies : notifies pollInterval systemNow new with
  | true =>
      refine ⟨fun waiter member => ?_, fun waiter member => ?_, attentive.schedules⟩
      · obtain ⟨before, known, rfl⟩ := List.mem_map.mp member
        exact attentive.timed before known
      · obtain ⟨before, known, rfl⟩ := List.mem_map.mp member
        exact Listener.aware_of_notified rfl
  | false =>
      refine ⟨attentive.timed, fun waiter member => ?_, attentive.schedules⟩
      refine (attentive.ready waiter member).announce fun found known row owed => ?_
      obtain ⟨other, waiting, execution, among, target⟩ := owed
      obtain ⟨position, found_at⟩ := List.mem_iff_getElem?.mp waiting
      by_cases same : position = index
      · rw [same, listed] at found_at
        cases found_at
        exact .inl (late_covers (attentive.timed waiter member) synchronized notifies among target
          known)
      · exact .inr ⟨other, List.mem_eraseIdx_iff_getElem?.mpr ⟨position, same, found_at⟩, execution,
          among, target⟩

theorem Attentive.step (positive : 0 ≤ lag) (attentive : state.Attentive pollInterval lag)
    (synchronized : Synchronized lag state action)
    (taken : state.step pollInterval action = some after) : after.Attentive pollInterval lag := by
  cases action with
  | tick passed =>
      cases taken
      refine ⟨fun waiter member => (attentive.timed waiter member).mono ?_, attentive.ready,
        attentive.schedules⟩
      exact Int.le_add_of_nonneg_right (Int.natCast_nonneg passed)
  | commit operation => exact commit_attentive attentive taken
  | notifyNewExecutions index systemNow => exact notify_attentive attentive synchronized taken
  | notifyPendingSchedules =>
      unfold Waits.step at taken
      dsimp only at taken
      split at taken
      · cases taken
      · cases taken
        refine ⟨attentive.timed, attentive.ready, fun waiter member => ?_⟩
        obtain ⟨before, _, rfl⟩ := List.mem_map.mp member
        exact Listener.aware_of_notified rfl
  | waitForReadyExecutions ignored =>
      cases taken
      refine ⟨fun waiter member => ?_, fun waiter member => ?_, attentive.schedules⟩
      · obtain known | new := List.mem_append.mp member
        · exact attentive.timed waiter known
        · rw [List.mem_singleton.mp new]
          trivial
      · obtain known | new := List.mem_append.mp member
        · exact attentive.ready waiter known
        · rw [List.mem_singleton.mp new]
          exact Listener.aware_of_none rfl
  | waitForPendingSchedules =>
      cases taken
      refine ⟨attentive.timed, attentive.ready, fun waiter member => ?_⟩
      obtain known | new := List.mem_append.mp member
      · exact attentive.schedules waiter known
      · rw [List.mem_singleton.mp new]
        exact Listener.aware_of_none rfl
  | ready index move =>
      obtain ⟨waiter, present, taken⟩ := Option.bind_eq_some_iff.mp taken
      obtain ⟨next, moved, rfl⟩ := Option.map_eq_some_iff.mp taken
      have known := List.mem_of_getElem? present
      obtain ⟨timed, aware⟩ := ReadyWaiter.step_aware positive (attentive.timed waiter known)
        (attentive.ready waiter known) moved
      refine ⟨fun other member => ?_, fun other member => ?_, attentive.schedules⟩
      · obtain kept | rfl := List.mem_or_eq_of_mem_set member
        · exact attentive.timed other kept
        · exact timed
      · obtain kept | rfl := List.mem_or_eq_of_mem_set member
        · exact attentive.ready other kept
        · exact aware
  | schedules index move =>
      obtain ⟨waiter, present, taken⟩ := Option.bind_eq_some_iff.mp taken
      obtain ⟨next, moved, rfl⟩ := Option.map_eq_some_iff.mp taken
      have aware := ScheduleWaiter.step_aware
        (attentive.schedules waiter (List.mem_of_getElem? present)) moved
      refine ⟨attentive.timed, attentive.ready, fun other member => ?_⟩
      obtain kept | rfl := List.mem_or_eq_of_mem_set member
      · exact attentive.schedules other kept
      · exact aware

/-- Nobody sleeps past the time of an execution by more than the lag of the clock
and what passed since the waiter looked, and nobody sleeps while a schedule waits
for a job, as soon as the operations that made them pending have announced it. -/
theorem no_lost_wakeup {pollInterval lag : Time} (positive : 0 ≤ lag) {store : Store} {time : Time}
    {state : Waits}
    (run : Reaches (step pollInterval) (Synchronized lag) (start store time) state) :
    (∀ waiter ∈ state.readyWaiters, ∀ now started delay, waiter.stage = .sleeping now started delay →
      waiter.notified = false → delay ≤ pollInterval ∧
      ∀ row ∈ state.store.executions.rows, row.status = .pending → row.id ∉ waiter.ignored →
        (∃ due, DueAt row due ∧ started + delay ≤ due + lag + (started - now)) ∨
          Unannounced state.newExecutions row) ∧
    ∀ waiter ∈ state.scheduleWaiters, ∀ started, waiter.stage = .sleeping started →
      waiter.notified = false →
      (∀ row ∈ state.store.schedules.rows, ¬PostgresBackend.waitsForJob row) ∨
        0 < state.newPendingSchedules := by
  have attentive : state.Attentive pollInterval lag :=
    run.invariant (fun _ _ _ attentive synchronized taken =>
      attentive.step positive synchronized taken) (start_attentive store time)
  refine ⟨fun waiter member now started delay stage unnotified => ⟨?_, ?_⟩, ?_⟩
  · have timed := attentive.timed waiter member
    unfold ReadyWaiter.Timed at timed
    rw [stage] at timed
    exact timed.2.2
  · intro row known pending attended
    have found : (waiter.ignored, now, delay) ∈ waiter.listener.found := by
      unfold ReadyWaiter.listener
      rw [stage]
      rfl
    obtain (ignored | ⟨due, dueAt, enough⟩) | owed := attentive.ready waiter member unnotified _ found row
      ⟨known, pending⟩
    · exact absurd ignored attended
    · refine .inl ⟨due, dueAt, ?_⟩
      calc
        started + delay = now + delay + (started - now) := by
          rw [Int.add_right_comm, Int.add_comm now, Int.sub_add_cancel]
        _ ≤ due + lag + (started - now) := Int.add_le_add_right enough _
    · exact .inr owed
  · intro waiter member started stage unnotified
    have found : () ∈ waiter.listener.found := by
      unfold ScheduleWaiter.listener
      rw [stage]
      rfl
    by_cases owed : 0 < state.newPendingSchedules
    · exact .inr owed
    · exact .inl fun row known waits =>
        (attentive.schedules waiter member unnotified () found row ⟨known, waits⟩).elim id owed

/-- A job that is due before the next poll. -/
def dueSoon : NewJob :=
  { plainJob 0 with job := { (plainJob 0).job with targetExecutionTime := 300000 } }

/-- One call sleeps until the execution is due, another one is notified of it. -/
def notifiedInTime : List WaitsAction :=
  [.waitForReadyExecutions [], .ready 0 .begin, .ready 0 .query, .ready 0 .sleep,
    .commit (.addJobs 0 (fun _ => 0) [dueSoon] none), .notifyNewExecutions 0 0,
    .waitForReadyExecutions [], .ready 1 .begin, .ready 1 .query, .tick 20000, .ready 1 .sleep]

theorem no_lost_wakeup_notifiedInTime :
    ∃ state, Reaches (step 500000) (Synchronized 0) (start Store.empty 0) state ∧
      state.readyWaiters =
        [⟨[], true, .sleeping 0 0 500000⟩, ⟨[], false, .sleeping 0 20000 300000⟩] ∧
      ∀ row ∈ state.store.executions.rows, row.status = .pending →
        (∃ due, DueAt row due ∧ 20000 + 300000 ≤ due + 0 + (20000 - 0)) ∨
          Unannounced state.newExecutions row := by
  obtain ⟨state, run, checked⟩ := exists_reaches_of_execute (step 500000) (Synchronized 0)
    (start Store.empty 0) notifiedInTime
    (fun state => state.readyWaiters ==
      [⟨[], true, .sleeping 0 0 500000⟩, ⟨[], false, .sleeping 0 20000 300000⟩])
    (by decide +kernel)
  rw [beq_iff_eq] at checked
  have waits := (no_lost_wakeup (Int.le_refl 0) run).1 ⟨[], false, .sleeping 0 20000 300000⟩
    (by rw [checked]; simp) 0 20000 300000 rfl rfl
  exact ⟨state, run, checked, fun row known pending => waits.2 row known pending (by simp)⟩

end Waits

end Ora.Postgres
