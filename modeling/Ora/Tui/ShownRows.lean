import Ora.Tui.Tables
import Mathlib.Logic.Function.Basic

/-!
# Keys, timers and answers

Each event keeps the rows of the tables consistent with their filters.
-/

namespace Ora.Tui

open Ora.Library

variable {J S τ υ : Type}

namespace App

variable {server : Server J S τ υ} {demanded : Prop} {app : App J S τ υ} {stale : Tab → Prop}
  {now n : Nat}

theorem selectRow_consistent (consistent : app.Consistent server demanded stale)
    (row : Option Nat) : (app.selectRow row).Consistent server demanded stale := by
  unfold selectRow
  split <;> exact { consistent with }

theorem selectRow_room (row : Option Nat) : (app.selectRow row).Room n ↔ app.Room n := by
  unfold selectRow
  split <;> exact Iff.rfl

@[simp] theorem selectRow_mode (row : Option Nat) : (app.selectRow row).mode = app.mode := by
  unfold selectRow
  split <;> rfl

theorem focusRow_consistent (consistent : app.Consistent server demanded stale) (focused : Bool) :
    (app.focusRow focused).Consistent server demanded stale := by
  unfold focusRow
  split
  · exact selectRow_consistent consistent _
  · exact consistent

@[simp] theorem focusRow_mode (focused : Bool) : (app.focusRow focused).mode = app.mode := by
  unfold focusRow
  split
  · exact selectRow_mode _
  · rfl

theorem setTableFocused_consistent (consistent : app.Consistent server demanded stale)
    (focused : Bool) : (app.setTableFocused focused).Consistent server demanded stale := by
  unfold setTableFocused
  split <;> exact { consistent with }

@[simp] theorem setTableFocused_mode (focused : Bool) :
    (app.setTableFocused focused).mode = app.mode := by
  unfold setTableFocused
  split <;> rfl

theorem focusTable_consistent (consistent : app.Consistent server demanded stale)
    (requested : Bool) : (app.focusTable requested).Consistent server demanded stale := by
  unfold focusTable
  refine focusRow_consistent ?_ _
  exact { setTableFocused_consistent consistent _ with }

@[simp] theorem focusTable_mode (requested : Bool) : (app.focusTable requested).mode = app.mode :=
  (focusRow_mode _).trans (setTableFocused_mode _)

theorem syncFocus_consistent (consistent : app.Consistent server demanded stale) :
    app.syncFocus.Consistent server demanded stale :=
  have listed : Consistent server demanded
      { app with jobTypeList.focused := !app.tableFocused } stale := { consistent with }
  focusRow_consistent listed _

@[simp] theorem syncFocus_mode : app.syncFocus.mode = app.mode :=
  focusRow_mode _

theorem syncFocus_room : app.syncFocus.Room n ↔ app.Room n := by
  unfold syncFocus focusRow
  split
  · exact selectRow_room _
  · exact Iff.rfl

theorem moveRow_consistent (forward : Bool) (consistent : app.Consistent server demanded stale)
    (room : app.Room 2) : (app.moveRow forward).Consistent server demanded stale := by
  unfold moveRow
  dsimp only
  split
  · exact selectRow_consistent consistent _
  · rename_i row _
    have selected := selectRow_consistent consistent (some row)
    have space := (selectRow_room (some row)).mpr room
    unfold reachRow
    split
    · exact selected
    · split
      · exact loadMoreJobs_consistent (n := 0) selected space
      · exact loadMoreSchedules_consistent (n := 0) selected (space.mono (by decide))
      · exact selected

/-- The query changes with the selected job type, and then all rows are dropped. -/
theorem moveJobType_consistent (now : Nat) (forward : Bool)
    (consistent : app.Consistent server demanded stale) (room : app.Room (n + 1)) :
    (app.moveJobType now forward).Consistent server demanded stale := by
  obtain ⟨index, selected, inside⟩ := consistent.selection
  have clamped : ∃ moved, (if forward then selectNext app.jobTypeList.selected
      else selectPrevious app.jobTypeList.selected).map
        (min · app.jobTypeList.jobTypes.length) = some moved ∧
      moved ≤ app.jobTypeList.jobTypes.length := by
    cases forward <;> exact ⟨_, rfl, Nat.min_le_right _ _⟩
  obtain ⟨moved, same, within⟩ := clamped
  unfold moveJobType jobTypeSelected
  dsimp only
  rw [same]
  split
  · rename_i unmoved
    rw [← unmoved]
    exact consistent
  · exact reloadJobType_consistent now { consistent.toOrdered with
      selection := ⟨moved, rfl, within⟩ } room

@[simp] theorem jobTypeSelected_mode (now : Nat) (previous new : Option Nat) :
    (app.jobTypeSelected now previous new).mode = app.mode := by
  unfold jobTypeSelected
  split <;> rfl

theorem moveRow_mode (forward : Bool) : (app.moveRow forward).mode = app.mode := by
  unfold moveRow reachRow
  dsimp only
  repeat' split
  all_goals simp only [loadMoreJobs_mode, loadMoreSchedules_mode, selectRow_mode]

@[simp] theorem moveSelection_mode (now : Nat) (forward : Bool) :
    (app.moveSelection now forward).mode = app.mode := by
  unfold moveSelection
  split
  · unfold moveJobType
    exact jobTypeSelected_mode now _ _
  · exact moveRow_mode forward

theorem moveSelection_consistent (now : Nat) (forward : Bool)
    (consistent : app.Consistent server demanded stale) (room : app.Room 2) :
    (app.moveSelection now forward).Consistent server demanded stale := by
  unfold moveSelection
  split
  · exact moveJobType_consistent now forward consistent room
  · exact moveRow_consistent forward consistent room

/-- The entry for all job types stays, a job type is where it has moved to. -/
theorem movedJobType_selects (inside : app.SelectionInside) {jobTypes : List Backend.JobTypeId}
    {moved : Nat} (found : app.movedJobType jobTypes = some moved) :
    moved ≤ jobTypes.length ∧
      JobTypeList.selectedJobType ⟨app.jobTypeList.focused, some moved, jobTypes⟩ =
        app.jobTypeList.selectedJobType := by
  obtain ⟨index, selected, inside⟩ := inside
  unfold movedJobType at found
  cases highlighted : app.jobTypeList.selectedJobType with
  | none =>
      rw [highlighted, selected] at found
      cases found
      rw [JobTypeList.selectedJobType, selected] at highlighted
      cases moved with
      | zero => exact ⟨Nat.zero_le _, rfl⟩
      | succ index => exact absurd (List.getElem?_eq_none_iff.mp highlighted) (Nat.not_le.mpr inside)
  | some jobType =>
      rw [highlighted] at found
      obtain ⟨place, position, rfl⟩ := Option.map_eq_some_iff.mp found
      obtain ⟨within, there, -⟩ := List.findIdx?_eq_some_iff_getElem.mp position
      exact ⟨within, (List.getElem?_eq_getElem within).trans (congrArg some (eq_of_beq there))⟩

theorem jobTypesUpdated_consistent (now : Nat) (jobTypes : List Backend.JobTypeId)
    (consistent : app.Consistent server demanded stale) (room : app.Room (n + 1)) :
    (app.jobTypesUpdated now jobTypes).Consistent server demanded stale := by
  unfold jobTypesUpdated
  cases found : app.movedJobType jobTypes with
  | none =>
      exact reloadJobType_consistent now { consistent.toOrdered with
        selection := ⟨0, rfl, Nat.zero_le _⟩ } room
  | some moved =>
      obtain ⟨within, same⟩ := movedJobType_selects consistent.selection found
      refine { consistent with
        selection := ⟨moved, rfl, within⟩
        jobs := fun fresh => ?_
        schedules := fun fresh => ?_
        counts := fun fresh => ?_ }
      · have rows := consistent.jobs fresh
        unfold JobRows jobsQuery at rows ⊢
        simp only [answered, same]
        exact rows
      · have rows := consistent.schedules fresh
        unfold ScheduleRows schedulesQuery at rows ⊢
        simp only [answered, same]
        exact rows
      · have counted := consistent.counts fresh
        unfold Counted countsQuery at counted ⊢
        simp only [answered, same]
        exact counted

@[simp] theorem jobTypesUpdated_mode (now : Nat) (jobTypes : List Backend.JobTypeId) :
    (app.jobTypesUpdated now jobTypes).mode = app.mode := by
  unfold jobTypesUpdated
  dsimp only
  split
  · rfl
  · exact jobTypeSelected_mode now _ _

section Answers

variable {task : Nat}

theorem showJobs_consistent (consistent : app.Consistent server demanded stale)
    (idle : app.pending.jobs.waiting = false) (rests : ¬stale .jobs → ¬app.settlesAt.isSome = true) :
    app.showJobs.Consistent server demanded stale := by
  unfold showJobs
  split
  · exact { consistent with
      jobs := fun fresh => (consistent.jobs fresh).show_incoming idle (rests fresh) }
  · exact consistent

@[simp] theorem showJobs_mode : app.showJobs.mode = app.mode := by
  unfold showJobs
  split <;> rfl

theorem showJobs_room : app.showJobs.Room n ↔ app.Room n := by
  unfold showJobs
  split <;> exact Iff.rfl

theorem receiveJobs_consistent (consistent : app.Consistent server demanded stale)
    {request : Request JobsQuery τ} {jobs : List J} {nextPage : Option τ}
    (answering : app.pending.jobs.tasks[task]? = some (app.pending.jobs.token, request))
    (answered : server.updateJobs request.query request.pageToken jobs nextPage) :
    (receiveJobs { app with pending.jobs := (app.pending.jobs.ended task).finish } jobs nextPage
      request.pageToken.isSome).Consistent server demanded stale :=
  { consistent with
    jobRequests := consistent.jobRequests.accepted answering
    jobs := fun fresh => by
      have rows := consistent.jobs fresh
      have same := (rows.awaits.waited answering).2.query
      exact rows.received answering (same ▸ answered) }

theorem jobsUpdated_consistent (now : Nat) (consistent : app.Consistent server demanded stale)
    (room : app.Room 2) {request : Request JobsQuery τ} {jobs : List J} {nextPage : Option τ}
    (answering : app.pending.jobs.tasks[task]? = some (app.pending.jobs.token, request))
    (answered : server.updateJobs request.query request.pageToken jobs nextPage) :
    (jobsUpdated { app with pending.jobs := app.pending.jobs.ended task } now jobs nextPage
      request.pageToken.isSome).Consistent server demanded stale := by
  let received := receiveJobs { app with pending.jobs := (app.pending.jobs.ended task).finish } jobs
    nextPage request.pageToken.isSome
  have shows := showJobs_consistent (receiveJobs_consistent consistent answering answered) rfl
    fun fresh => (consistent.jobs fresh).rests answering
  have shown : (received.showJobs.dataUpdated now).Consistent server demanded stale :=
    { shows with }
  have space : (received.showJobs.dataUpdated now).Room 2 := showJobs_room.mpr room
  unfold jobsUpdated
  dsimp only
  split
  · exact loadMoreJobs_consistent (n := 0) shown space
  · exact shown

@[simp] theorem jobsUpdated_mode (now : Nat) (jobs : List J) (nextPage : Option τ)
    (append : Bool) : (app.jobsUpdated now jobs nextPage append).mode = app.mode := by
  have shown : (((receiveJobs { app with pending.jobs := app.pending.jobs.finish } jobs nextPage
      append).showJobs).dataUpdated now).mode = app.mode := showJobs_mode
  unfold jobsUpdated
  dsimp only
  split
  · exact loadMoreJobs_mode.trans shown
  · exact shown

theorem showSchedules_consistent (consistent : app.Consistent server demanded stale)
    (idle : app.pending.schedules.waiting = false)
    (rests : ¬stale .schedules → ¬app.settlesAt.isSome = true) :
    app.showSchedules.Consistent server demanded stale := by
  unfold showSchedules
  split
  · refine { consistent with schedules := fun fresh => ?_ }
    obtain ⟨shown, -, rows⟩ := consistent.schedules fresh
    exact ⟨app.incomingSchedules, rfl, rows.show_incoming idle (rests fresh)⟩
  · exact consistent

@[simp] theorem showSchedules_mode : app.showSchedules.mode = app.mode := by
  unfold showSchedules
  split <;> rfl

theorem showSchedules_room : app.showSchedules.Room n ↔ app.Room n := by
  unfold showSchedules
  split <;> exact Iff.rfl

theorem receiveSchedules_consistent (consistent : app.Consistent server demanded stale)
    {request : Request SchedulesQuery υ} {schedules : List S} {nextPage : Option υ}
    (answering : app.pending.schedules.tasks[task]? = some (app.pending.schedules.token, request))
    (answered : server.updateSchedules request.query request.pageToken schedules nextPage) :
    (receiveSchedules { app with pending.schedules := (app.pending.schedules.ended task).finish }
      schedules nextPage request.pageToken.isSome).Consistent server demanded stale :=
  { consistent with
    scheduleRequests := consistent.scheduleRequests.accepted answering
    schedules := fun fresh => by
      obtain ⟨shown, rowsShown, rows⟩ := consistent.schedules fresh
      have same := (rows.awaits.waited answering).2.query
      exact ⟨shown, rowsShown, rows.received answering (same ▸ answered)⟩ }

theorem schedulesUpdated_consistent (now : Nat) (consistent : app.Consistent server demanded stale)
    (room : app.Room 2) {request : Request SchedulesQuery υ} {schedules : List S}
    {nextPage : Option υ}
    (answering : app.pending.schedules.tasks[task]? = some (app.pending.schedules.token, request))
    (answered : server.updateSchedules request.query request.pageToken schedules nextPage) :
    (schedulesUpdated { app with pending.schedules := app.pending.schedules.ended task } now
      schedules nextPage request.pageToken.isSome).Consistent server demanded stale := by
  let received := receiveSchedules
    { app with pending.schedules := (app.pending.schedules.ended task).finish } schedules nextPage
    request.pageToken.isSome
  have receives := receiveSchedules_consistent consistent answering answered
  have shows := showSchedules_consistent receives rfl fun fresh => by
    obtain ⟨shown, -, rows⟩ := consistent.schedules fresh
    exact rows.rests answering
  have shown : (received.showSchedules.dataUpdated now).Consistent server demanded stale :=
    { shows with }
  have space : (received.showSchedules.dataUpdated now).Room 2 := showSchedules_room.mpr room
  unfold schedulesUpdated
  dsimp only
  split
  · exact loadMoreSchedules_consistent (n := 1) shown space
  · exact shown

@[simp] theorem schedulesUpdated_mode (now : Nat) (schedules : List S) (nextPage : Option υ)
    (append : Bool) : (app.schedulesUpdated now schedules nextPage append).mode = app.mode := by
  have shown : (((receiveSchedules { app with pending.schedules := app.pending.schedules.finish }
      schedules nextPage append).showSchedules).dataUpdated now).mode = app.mode :=
    showSchedules_mode
  unfold schedulesUpdated
  dsimp only
  split
  · exact loadMoreSchedules_mode.trans shown
  · exact shown

/-- A request that fails leaves the rows as they are. -/
theorem jobsFailed_consistent (consistent : app.Consistent server demanded stale) (error : String)
    {request : Request JobsQuery τ}
    (answering : app.pending.jobs.tasks[task]? = some (app.pending.jobs.token, request)) :
    (failed { app with pending.jobs := (app.pending.jobs.ended task).finish }
      error).Consistent server demanded stale :=
  { consistent with
    jobRequests := consistent.jobRequests.accepted answering
    jobs := fun fresh => (consistent.jobs fresh).failed answering }

theorem schedulesFailed_consistent (consistent : app.Consistent server demanded stale)
    (error : String) {request : Request SchedulesQuery υ}
    (answering : app.pending.schedules.tasks[task]? = some (app.pending.schedules.token, request)) :
    (failed { app with pending.schedules := (app.pending.schedules.ended task).finish }
      error).Consistent server demanded stale :=
  { consistent with
    scheduleRequests := consistent.scheduleRequests.accepted answering
    schedules := fun fresh => by
      obtain ⟨shown, same, rows⟩ := consistent.schedules fresh
      exact ⟨shown, same, rows.failed answering⟩ }

theorem countsFailed_consistent (consistent : app.Consistent server demanded stale)
    (error : String) {query : CountsQuery}
    (answering : app.pending.jobCounts.tasks[task]? = some (app.pending.jobCounts.token, query)) :
    (failed { app with pending.jobCounts := (app.pending.jobCounts.ended task).finish }
      error).Consistent server demanded stale :=
  { consistent with
    countRequests := consistent.countRequests.accepted answering
    counts := fun fresh =>
      ⟨(consistent.counts fresh).1.accepted answering, (consistent.counts fresh).2⟩ }

theorem jobCountsUpdated_consistent (now : Nat) (consistent : app.Consistent server demanded stale)
    {query : CountsQuery} {counts : List Nat}
    (answering : app.pending.jobCounts.tasks[task]? = some (app.pending.jobCounts.token, query))
    (counted : server.countJobs query counts) :
    (answered
      { app with
        pending.jobCounts := (app.pending.jobCounts.ended task).finish
        jobCounts := some counts } now).Consistent server demanded stale :=
  { consistent with
    countRequests := consistent.countRequests.accepted answering
    counts := fun fresh => by
      have awaits := (consistent.counts fresh).1
      refine ⟨awaits.accepted answering, fun _ known => ?_⟩
      cases known
      rwa [(awaits.waited answering).2] at counted }

theorem executorsUpdated_consistent (now : Nat)
    (consistent : app.Consistent server demanded stale) (executors : List Backend.ExecutorId) :
    (app.executorsUpdated now executors).Consistent server demanded stale := by
  unfold executorsUpdated
  dsimp only
  split <;> exact { consistent with }

@[simp] theorem executorsUpdated_mode (now : Nat) (executors : List Backend.ExecutorId) :
    (app.executorsUpdated now executors).mode = app.mode := by
  unfold executorsUpdated
  dsimp only
  split <;> rfl

/-- Answers that nobody waits for change no rows. -/
theorem jobsEnded_consistent (consistent : app.Consistent server demanded stale) (task : Nat) :
    Consistent server demanded { app with pending.jobs := app.pending.jobs.ended task } stale :=
  { consistent with
    jobRequests := consistent.jobRequests.ended task
    jobs := fun fresh => (consistent.jobs fresh).ended task }

theorem schedulesEnded_consistent (consistent : app.Consistent server demanded stale) (task : Nat) :
    Consistent server demanded
      { app with pending.schedules := app.pending.schedules.ended task } stale :=
  { consistent with
    scheduleRequests := consistent.scheduleRequests.ended task
    schedules := fun fresh => by
      obtain ⟨shown, same, rows⟩ := consistent.schedules fresh
      exact ⟨shown, same, rows.ended task⟩ }

theorem countsEnded_consistent (consistent : app.Consistent server demanded stale) (task : Nat) :
    Consistent server demanded
      { app with pending.jobCounts := app.pending.jobCounts.ended task } stale :=
  { consistent with
    countRequests := consistent.countRequests.ended task
    counts := fun fresh => ⟨(consistent.counts fresh).1.ended task, (consistent.counts fresh).2⟩ }

end Answers

section Keys

variable {app' : App J S τ υ} {ids : Ids S}

/-- An event that leaves the tab and the typing alone. -/
theorem Sound.keep (sound : app.Sound server demanded)
    (consistent : app'.Consistent server demanded app.Typing) (same : app'.mode = app.mode) :
    app'.Sound server demanded := by
  obtain ⟨tab, editing⟩ := Prod.mk.inj same
  refine ⟨consistent.mono fun other typing => ?_, fun now => ?_⟩
  · exact ⟨editing.trans typing.1, tab.trans typing.2⟩
  · exact tab.trans (sound.schedule (editing.symm.trans now))

/-- Nothing is wrong about any rows. -/
theorem Sound.afresh (consistent : app.Consistent server demanded fun _ => False)
    (schedule : app.editing = some .schedule → app.tab = .jobs) : app.Sound server demanded :=
  ⟨consistent.mono fun _ none => none.elim, schedule⟩

theorem Sound.untyped (sound : app.Sound server demanded) (editing : app.editing = none) :
    app.Consistent server demanded fun _ => False :=
  sound.consistent.mono fun _ typing => nomatch editing.symm.trans typing.1

theorem reload_afresh (now : Nat) (consistent : app.Consistent server demanded stale)
    (room : app.Room 2) (only : ∀ tab, stale tab → tab = app.tab) :
    (app.reload now).Consistent server demanded fun _ => False :=
  (reload_consistent now consistent room).mono fun tab was => was.2 (only tab was.1)

/-- Without anything being typed the rows are what they are filtered by. -/
theorem Sound.reloaded (now : Nat) (consistent : app.Consistent server demanded stale)
    (room : app.Room 2) (only : ∀ tab, stale tab → tab = app.tab) (untyped : app.editing = none) :
    (app.reload now).Sound server demanded := by
  refine .afresh (reload_afresh now consistent room only) fun typed => ?_
  exact nomatch untyped.symm.trans ((congrArg Prod.snd (reload_mode now)).symm.trans typed)

/-- A label filter only narrows the rows of its own tab. -/
theorem relabel_consistent (consistent : app.Consistent server demanded stale)
    (labels : List Char) :
    Consistent server demanded
      { app with labelFilters := Function.update app.labelFilters app.tab labels }
      fun tab => stale tab ∨ tab = app.tab := by
  refine { consistent with
    jobs := fun fresh => ?_
    schedules := fun fresh => ?_
    counts := fun fresh => ?_ }
  · obtain ⟨fresh, other⟩ := not_or.mp fresh
    have rows := consistent.jobs fresh
    unfold JobRows jobsQuery at rows ⊢
    simp only [Function.update_of_ne other]
    exact rows
  · obtain ⟨fresh, other⟩ := not_or.mp fresh
    have rows := consistent.schedules fresh
    unfold ScheduleRows schedulesQuery at rows ⊢
    simp only [Function.update_of_ne other]
    exact rows
  · obtain ⟨fresh, other⟩ := not_or.mp fresh
    have counted := consistent.counts fresh
    unfold Counted countsQuery at counted ⊢
    simp only [Function.update_of_ne other]
    exact counted

@[simp] theorem editInput_mode (edit : List Char → List Char) :
    (app.editInput edit).mode = app.mode := by
  unfold editInput
  split <;> rfl

theorem editInput_sound (sound : app.Sound server demanded) (edit : List Char → List Char) :
    (app.editInput edit).Sound server demanded := by
  refine sound.keep ?_ (editInput_mode edit)
  unfold editInput
  split
  · exact sound.consistent
  · rename_i editing
    refine (relabel_consistent sound.consistent _).mono fun tab was => ?_
    obtain typing | rfl := was
    · exact typing
    · exact ⟨editing, rfl⟩
  · exact { sound.consistent with }

/-- The jobs are to be narrowed to another schedule, or to none. -/
theorem narrow_consistent (consistent : app.Consistent server demanded stale)
    (schedule : Option Backend.ScheduleId) :
    Consistent server demanded { app with jobSchedule := schedule }
      fun tab => stale tab ∨ tab = .jobs :=
  { consistent with
    jobs := fun fresh => absurd (.inr rfl) fresh
    schedules := fun fresh => consistent.schedules fun was => fresh (.inl was)
    counts := fun fresh => absurd (.inr rfl) fresh }

theorem dropFilter_sound (now : Nat) (sound : app.Sound server demanded) (room : app.Room 2)
    {editing : Editing} (typing : app.editing = some editing) :
    (app.dropFilter now editing).Sound server demanded := by
  cases editing with
  | labels =>
      have dropped := relabel_consistent sound.consistent []
      have cleared : Consistent server demanded
          { app with
            editing := none
            labelFilters := Function.update app.labelFilters app.tab [] }
          fun tab => app.Typing tab ∨ tab = app.tab := { dropped with }
      exact .reloaded now cleared room
        (fun tab was => was.elim (fun typing => typing.2.symm) id) rfl
  | schedule =>
      have here := sound.schedule typing
      have dropped := narrow_consistent sound.consistent none
      have cleared : Consistent server demanded
          { app with editing := none, scheduleInput := [], jobSchedule := none }
          fun tab => app.Typing tab ∨ tab = .jobs := { dropped with }
      exact .reloaded now cleared room
        (fun tab was => was.elim (fun typing => typing.2.symm) (·.trans here.symm)) rfl

theorem applyFilter_sound (now : Nat) (sound : app.Sound server demanded) (room : app.Room 2)
    {editing : Editing} (typing : app.editing = some editing) :
    (app.applyFilter now ids editing).Sound server demanded := by
  cases editing with
  | labels =>
      have applied : Consistent server demanded
          { app with editing := none, status.error := none } app.Typing :=
        { sound.consistent with }
      exact .reloaded now applied room (fun tab typing => typing.2.symm) rfl
  | schedule =>
      have here := sound.schedule typing
      have narrowed (schedule : Option Backend.ScheduleId) :
          (reload { app with jobSchedule := schedule, editing := none, status.error := none }
            now).Sound server demanded := by
        have applied : Consistent server demanded
            { app with jobSchedule := schedule, editing := none, status.error := none }
            fun tab => app.Typing tab ∨ tab = .jobs :=
          { narrow_consistent sound.consistent schedule with }
        exact .reloaded now applied room
          (fun tab was => was.elim (fun typing => typing.2.symm) (·.trans here.symm)) rfl
      unfold applyFilter
      dsimp only
      split
      · exact narrowed none
      · split
        · exact narrowed _
        · exact sound.keep { sound.consistent with } rfl

theorem onInputKey_sound (now : Nat) (sound : app.Sound server demanded) (room : app.Room 2)
    {editing : Editing} (typing : app.editing = some editing) (key : Key) :
    (app.onInputKey now ids editing key).Sound server demanded := by
  cases key with
  | esc => exact dropFilter_sound now sound room typing
  | enter => exact applyFilter_sound now sound room typing
  | backspace => exact editInput_sound sound _
  | char c => exact editInput_sound sound (· ++ [c])
  | tab | backTab | up | down | left | right => exact sound

theorem nextStatus_sound (now : Nat) (sound : app.Sound server demanded) (room : app.Room 2)
    (untyped : app.editing = none) : (app.nextStatus now).Sound server demanded := by
  have consistent := sound.untyped untyped
  unfold nextStatus
  split
  · rename_i here
    have turned : Consistent server demanded { app with jobStatus := app.jobStatus.next }
        (· = .jobs) :=
      { consistent with
        jobs := fun fresh => absurd rfl fresh
        schedules := fun _ => consistent.schedules id
        counts := fun fresh => absurd rfl fresh }
    exact .reloaded now turned room (fun tab was => was.trans here.symm) untyped
  · rename_i here
    have turned : Consistent server demanded
        { app with scheduleStatus := app.scheduleStatus.next } (· = .schedules) :=
      { consistent with
        jobs := fun _ => consistent.jobs id
        schedules := fun fresh => absurd rfl fresh
        counts := fun _ => consistent.counts id }
    exact .reloaded now turned room (fun tab was => was.trans here.symm) untyped
  · exact sound

/-- The executors have no order, but the key would turn that of the jobs. -/
theorem nextOrder_sound (now : Nat) (sound : app.Sound server demanded) (room : app.Room 2)
    (untyped : app.editing = none) (ordered : app.tab ≠ .executors) :
    (app.nextOrder now).Sound server demanded := by
  have consistent := sound.untyped untyped
  have turnedJobs (here : app.tab = .jobs) :
      (reload { app with jobOrder := nextJobOrder app.jobOrder } now).Sound server demanded := by
    have turned : Consistent server demanded
        { app with jobOrder := nextJobOrder app.jobOrder } (· = .jobs) :=
      { consistent with
        jobs := fun fresh => absurd rfl fresh
        schedules := fun _ => consistent.schedules id
        counts := fun fresh => absurd rfl fresh }
    exact .reloaded now turned room (fun tab was => was.trans here.symm) untyped
  unfold nextOrder
  split
  · rename_i here
    have turned : Consistent server demanded
        { app with scheduleOrder := nextScheduleOrder app.scheduleOrder } (· = .schedules) :=
      { consistent with
        jobs := fun _ => consistent.jobs id
        schedules := fun fresh => absurd rfl fresh
        counts := fun _ => consistent.counts id }
    exact .reloaded now turned room (fun tab was => was.trans here.symm) untyped
  · rename_i here
    exact turnedJobs here
  · rename_i here
    exact absurd here ordered

theorem scheduleJobs_sound (now : Nat) (sound : app.Sound server demanded) (room : app.Room 2)
    (untyped : app.editing = none) : (app.scheduleJobs now ids).Sound server demanded := by
  have consistent := sound.untyped untyped
  unfold scheduleJobs
  split
  · rename_i here
    have typing : Consistent server demanded { app with editing := some .schedule }
        fun _ => False := { consistent with }
    exact .afresh typing fun _ => here
  · exact sound
  · split
    · split
      · exact sound
      · split
        · exact sound
        · rename_i scheduleId _
          have narrowed : Consistent server demanded
              { app with
                jobSchedule := some scheduleId
                scheduleInput := ids.toString scheduleId
                tab := .jobs
                jobTable.selected := none }
              fun tab => False ∨ tab = .jobs :=
            { narrow_consistent consistent (some scheduleId) with }
          have shown := Sound.reloaded now narrowed room
            (fun tab was => was.elim False.elim id) untyped
          exact shown.keep (focusTable_consistent shown.consistent true) (focusTable_mode true)
    · exact sound

theorem switchTab_sound (now : Nat) (sound : app.Sound server demanded) (room : app.Room 2)
    (untyped : app.editing = none) (forward : Bool) :
    (app.switchTab now forward).Sound server demanded := by
  have consistent := sound.untyped untyped
  have switched : Consistent server demanded
      { app with
        tab := if forward then app.tab.next else app.tab.previous
        status.error := none } fun _ => False := { consistent with }
  have other := Sound.afresh switched fun typed => nomatch untyped.symm.trans typed
  exact other.keep (fetch_consistent now false (syncFocus_consistent other.consistent)
    (syncFocus_room.mpr (room.mono (by decide : 1 ≤ 2))) (nomatch ·) (nomatch ·))
    ((fetch_mode now false).trans syncFocus_mode)

theorem onChar_sound (now : Nat) (sound : app.Sound server demanded) (room : app.Room 2)
    (untyped : app.editing = none) {c : Char}
    (refresh : c = 'r' ∨ c = 'R' → demanded)
    (order : c = 'o' ∨ c = 'O' → app.tab ≠ .executors) :
    (app.onChar now ids c).Sound server demanded := by
  unfold onChar
  split_ifs with quit refreshes status schedule labels orders
  · exact sound.keep { sound.consistent with } rfl
  · exact sound.keep (fetch_consistent now true sound.consistent (room.mono (by decide : 1 ≤ 2))
      (fun _ _ _ => .inr (refresh refreshes)) fun _ _ _ => .inr (refresh refreshes))
      (fetch_mode now true)
  · exact nextStatus_sound now sound room untyped
  · exact scheduleJobs_sound now sound room untyped
  · have typing : Consistent server demanded { app with editing := some .labels }
        fun _ => False := { sound.untyped untyped with }
    exact .afresh typing fun typed => nomatch typed
  · exact nextOrder_sound now sound room untyped (order orders)
  · exact sound

theorem onTableKey_sound (now : Nat) (sound : app.Sound server demanded) (room : app.Room 2)
    (untyped : app.editing = none) {key : Key}
    (refresh : key = .char 'r' ∨ key = .char 'R' → demanded)
    (order : key = .char 'o' ∨ key = .char 'O' → app.tab ≠ .executors) :
    (app.onTableKey now ids key).Sound server demanded := by
  cases key with
  | tab => exact switchTab_sound now sound room untyped true
  | backTab => exact switchTab_sound now sound room untyped false
  | up =>
      exact sound.keep (moveSelection_consistent now false sound.consistent room)
        (moveSelection_mode now false)
  | down =>
      exact sound.keep (moveSelection_consistent now true sound.consistent room)
        (moveSelection_mode now true)
  | left => exact sound.keep (focusTable_consistent sound.consistent false) (focusTable_mode false)
  | right => exact sound.keep (focusTable_consistent sound.consistent true) (focusTable_mode true)
  | esc => exact sound.keep { sound.consistent with } rfl
  | enter | backspace => exact sound
  | char c =>
      exact onChar_sound now sound room untyped
        (fun pressed => refresh (pressed.imp (congrArg _) (congrArg _)))
        fun pressed => order (pressed.imp (congrArg _) (congrArg _))

end Keys

/-- What the server answers to the task that sent the answer. -/
def Answers (server : Server J S τ υ) (app : App J S τ υ) : Event J S τ υ → Prop
  | .jobsUpdated task jobs nextPage =>
      ∀ token request, app.pending.jobs.tasks[task]? = some (token, request) →
        server.updateJobs request.query request.pageToken jobs nextPage
  | .schedulesUpdated task schedules nextPage =>
      ∀ token request, app.pending.schedules.tasks[task]? = some (token, request) →
        server.updateSchedules request.query request.pageToken schedules nextPage
  | .jobCountsUpdated task counts =>
      ∀ token query, app.pending.jobCounts.tasks[task]? = some (token, query) →
        server.countJobs query counts
  | _ => True

/-- The keys that turn the order of the jobs, and those that refresh. -/
def Turns (event : Event J S τ υ) : Prop :=
  event = .key (.char 'o') ∨ event = .key (.char 'O')

def Refreshes (event : Event J S τ υ) : Prop :=
  event = .key (.char 'r') ∨ event = .key (.char 'R')

/-- The server answers, tokens do not start over, the order is not turned where
there is none, and the rows are only refreshed if that is demanded. -/
structure Allowed (server : Server J S τ υ) (demanded : Prop) (app : App J S τ υ)
    (timed : Nat × Event J S τ υ) : Prop where
  room : app.Room 2
  answers : Answers server app timed.2
  order : Turns timed.2 → app.editing = none → app.tab ≠ .executors
  refresh : Refreshes timed.2 → app.editing = none → demanded

/-- Events other than keys only have to be honest. -/
theorem Allowed.of_answers {event : Event J S τ υ} (room : app.Room 2)
    (answers : Answers server app event) (other : ∀ key, event ≠ .key key) :
    Allowed server demanded app (now, event) :=
  ⟨room, answers, fun turns => turns.elim (absurd · (other _)) (absurd · (other _)),
    fun refreshes => refreshes.elim (absurd · (other _)) (absurd · (other _))⟩

section Steps

variable {ids : Ids S} {next : App J S τ υ} {timed : Nat × Event J S τ υ}

theorem onKey_sound (now : Nat) (sound : app.Sound server demanded) {key : Key}
    (allowed : Allowed server demanded app (now, .key key)) :
    (app.onKey now ids key).Sound server demanded := by
  unfold onKey
  split
  · rename_i editing typing
    exact onInputKey_sound now sound allowed.room typing key
  · rename_i untyped
    refine onTableKey_sound now sound allowed.room untyped (fun pressed => ?_) fun pressed => ?_
    · exact allowed.refresh (pressed.imp (congrArg _) (congrArg _)) untyped
    · exact allowed.order (pressed.imp (congrArg _) (congrArg _)) untyped

theorem tick_sound (now : Nat) (sound : app.Sound server demanded) (room : app.Room 2)
    (settled : app.settled now = true) :
    (fetch { app with settlesAt := none } now true).Sound server demanded := by
  have settling : app.settlesAt.isSome = true := by
    unfold App.settled at settled
    cases due : app.settlesAt with
    | none => rw [due] at settled; exact nomatch settled
    | some _ => rfl
  have rests : Consistent server demanded { app with settlesAt := none } app.Typing :=
    { sound.consistent with
      jobs := fun fresh => (sound.consistent.jobs fresh).settle fun none => nomatch none
      schedules := fun fresh => by
        obtain ⟨shown, same, rows⟩ := sound.consistent.schedules fresh
        exact ⟨shown, same, rows.settle fun none => nomatch none⟩ }
  refine sound.keep (fetch_consistent now true rests (room.mono (by decide : 1 ≤ 2))
    (fun _ _ fresh => ?_) fun _ _ fresh => ?_) (fetch_mode now true)
  · have none := ((sound.consistent.jobs fresh).resting settling).2.2
    exact .inl (Nat.le_trans (Nat.le_of_eq none) (Nat.zero_le _))
  · obtain ⟨shown, same, rows⟩ := sound.consistent.schedules fresh
    have walk := rows.shownWalks
    unfold PageRows.Walks at walk
    rw [(rows.resting settling).2.2, same] at walk
    exact .inl walk.rows_eq_nil

theorem step_sound (sound : app.Sound server demanded)
    (allowed : Allowed server demanded app timed) (taken : app.step ids timed = some next) :
    next.Sound server demanded := by
  obtain ⟨now, event⟩ := timed
  unfold step at taken
  dsimp only at taken
  split at taken
  · cases event with
    | key key =>
        cases taken
        exact onKey_sound now sound allowed
    | paste text =>
        cases taken
        exact editInput_sound sound _
    | jobTypesUpdated jobTypes =>
        cases taken
        exact sound.keep (jobTypesUpdated_consistent (n := 1) now jobTypes sound.consistent
          allowed.room) (jobTypesUpdated_mode now jobTypes)
    | jobsUpdated task jobs nextPage =>
        obtain ⟨⟨token, request⟩, answering, taken⟩ := Option.bind_eq_some_iff.mp taken
        cases taken
        dsimp only
        split
        · rename_i accepted
          cases (eq_of_beq accepted : token = app.pending.jobs.token)
          exact sound.keep (jobsUpdated_consistent now sound.consistent allowed.room answering
            (allowed.answers _ _ answering)) (jobsUpdated_mode now jobs nextPage _)
        · exact sound.keep (jobsEnded_consistent sound.consistent task) rfl
    | jobsFailed task error =>
        obtain ⟨⟨token, request⟩, answering, taken⟩ := Option.bind_eq_some_iff.mp taken
        cases taken
        dsimp only
        split
        · rename_i accepted
          cases (eq_of_beq accepted : token = app.pending.jobs.token)
          exact sound.keep (jobsFailed_consistent sound.consistent error answering) rfl
        · exact sound.keep (jobsEnded_consistent sound.consistent task) rfl
    | schedulesUpdated task schedules nextPage =>
        obtain ⟨⟨token, request⟩, answering, taken⟩ := Option.bind_eq_some_iff.mp taken
        cases taken
        dsimp only
        split
        · rename_i accepted
          cases (eq_of_beq accepted : token = app.pending.schedules.token)
          exact sound.keep (schedulesUpdated_consistent now sound.consistent allowed.room answering
            (allowed.answers _ _ answering)) (schedulesUpdated_mode now schedules nextPage _)
        · exact sound.keep (schedulesEnded_consistent sound.consistent task) rfl
    | schedulesFailed task error =>
        obtain ⟨⟨token, request⟩, answering, taken⟩ := Option.bind_eq_some_iff.mp taken
        cases taken
        dsimp only
        split
        · rename_i accepted
          cases (eq_of_beq accepted : token = app.pending.schedules.token)
          exact sound.keep (schedulesFailed_consistent sound.consistent error answering) rfl
        · exact sound.keep (schedulesEnded_consistent sound.consistent task) rfl
    | jobCountsUpdated task counts =>
        obtain ⟨⟨token, query⟩, answering, taken⟩ := Option.bind_eq_some_iff.mp taken
        cases taken
        dsimp only
        split
        · rename_i accepted
          cases (eq_of_beq accepted : token = app.pending.jobCounts.token)
          exact sound.keep (jobCountsUpdated_consistent now sound.consistent answering
            (allowed.answers _ _ answering)) rfl
        · exact sound.keep (countsEnded_consistent sound.consistent task) rfl
    | jobCountsFailed task error =>
        obtain ⟨⟨token, query⟩, answering, taken⟩ := Option.bind_eq_some_iff.mp taken
        cases taken
        dsimp only
        split
        · rename_i accepted
          cases (eq_of_beq accepted : token = app.pending.jobCounts.token)
          exact sound.keep (countsFailed_consistent sound.consistent error answering) rfl
        · exact sound.keep (countsEnded_consistent sound.consistent task) rfl
    | executorsUpdated executors =>
        cases taken
        exact sound.keep (executorsUpdated_consistent now sound.consistent executors)
          (executorsUpdated_mode now executors)
    | failed error =>
        cases taken
        exact sound.keep { sound.consistent with } rfl
    | created =>
        cases taken
        have reloaded := reload_afresh now sound.consistent allowed.room
          fun tab typing => typing.2.symm
        exact sound.keep (reloaded.mono fun _ none => none.elim) (reload_mode now)
    | refresh =>
        cases taken
        exact sound.keep (fetch_consistent now false sound.consistent
          (allowed.room.mono (by decide : 1 ≤ 2)) (nomatch ·) (nomatch ·)) (fetch_mode now false)
    | tick =>
        cases taken
        split
        · rename_i settled
          exact tick_sound now sound allowed.room settled
        · exact sound
    | drawn job schedule executor =>
        cases taken
        exact sound.keep { sound.consistent with } rfl
  · cases taken

theorem start_sound (now : Nat) : (App.start now : App J S τ υ).Sound server demanded := by
  refine .afresh ?_ fun typed => nomatch typed
  refine reloadJobType_consistent (n := 0) now
    ⟨⟨0, rfl, Nat.le_refl _⟩, Newest.nothing, Newest.nothing, Newest.nothing⟩ ?_
  have room : 0 + (0 + 1) < 2 ^ 64 := by decide
  exact ⟨room, room, room⟩

theorem sound_of_reaches {from' : Nat} {app : App J S τ υ}
    (run : Reaches (step ids) (Allowed server demanded) (App.start from') app) :
    app.Sound server demanded :=
  run.invariant (fun _ _ _ sound allowed taken => step_sound sound allowed taken) (start_sound from')

end Steps

/-- In every interleaving of keys, timers and answers, also late ones and those
of requests that were dropped, the rows of a table are consecutive pages of what
the server lists for the filters of the table, from the first page on, and so
are those that will replace them; and the counts are those of the filters.
While a label filter is typed it is not applied yet. -/
theorem rows_match_filters {server : Server J S τ υ} {ids : Ids S} {now : Nat} {app : App J S τ υ}
    (run : Reaches (step ids) (Allowed server True) (App.start now) app) :
    (¬app.Typing .jobs →
      PageWalk (server.updateJobs app.jobsQuery) app.jobTable.jobs app.jobTable.shownNextPage
          app.jobTable.shownPages ∧
        PageWalk (server.updateJobs app.jobsQuery) app.jobTable.incoming app.jobTable.nextPage
          app.jobTable.pages ∧
        ∀ counts, app.jobCounts = some counts → server.countJobs app.countsQuery counts) ∧
      (¬app.Typing .schedules →
        (∃ next pages, PageWalk (server.updateSchedules app.schedulesQuery)
          app.scheduleTable.schedules next pages) ∧
        PageWalk (server.updateSchedules app.schedulesQuery) app.scheduleTable.incoming
          app.scheduleTable.nextPage app.scheduleTable.pages) := by
  have consistent := (sound_of_reaches run).consistent
  refine ⟨fun applied => ?_, fun applied => ?_⟩
  · have rows := consistent.jobs applied
    exact ⟨rows.shownWalks, rows.incomingWalks, (consistent.counts applied).2⟩
  · obtain ⟨shown, same, rows⟩ := consistent.schedules applied
    exact ⟨⟨shown.next, shown.pages, same ▸ rows.shownWalks⟩, rows.incomingWalks⟩

/-- Two pages of one job each, for any filters. -/
def twoPages : Server Nat Nat Nat Nat where
  jobs _ _ _ token page next :=
    token = none ∧ page = [1] ∧ next = some 7 ∨ token = some 7 ∧ page = [2] ∧ next = none
  schedules _ _ _ _ _ _ := False
  count _ _ := False

def noIds : Ids Nat where
  parse _ := none
  toString _ := []
  ofSchedule _ := []

/-- The second page is asked for when the first arrives. -/
theorem rows_match_filters_twoPages :
    ∃ app : App Nat Nat Nat Nat, app.jobTable.jobs = [1, 2] ∧ app.jobTable.shownPages = 2 ∧
      PageWalk (twoPages.updateJobs app.jobsQuery) app.jobTable.jobs none 2 := by
  have settled : Reaches (step noIds) (Allowed twoPages True) (App.start 0) _ :=
    .single (250, .tick) (.of_answers ⟨by decide, by decide, by decide⟩ trivial nofun) rfl
  have first := @Reaches.tail _ _ _ _ _ _ _ (251, .jobsUpdated 0 [1] (some 7)) settled
    (.of_answers ⟨by decide, by decide, by decide⟩
      (by rintro _ _ ⟨⟩; exact .inl ⟨rfl, rfl, rfl⟩) nofun) rfl
  have second := @Reaches.tail _ _ _ _ _ _ _ (252, .jobsUpdated 0 [2] none) first
    (.of_answers ⟨by decide, by decide, by decide⟩
      (by rintro _ _ ⟨⟩; exact .inr ⟨rfl, rfl, rfl⟩) nofun) rfl
  exact ⟨_, rfl, rfl, ((rows_match_filters second).1 nofun).1⟩

end App

end Ora.Tui
