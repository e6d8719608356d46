import Ora.Tui.ShownRows

/-!
# Background events keep the rows on screen

While the lists of the server do not change, the rows of a table are the first
ones of its list, and only the user takes rows off the screen: timers, answers
and failures add to them.
-/

namespace Ora.Tui

open Ora.Backend (JobFilters ScheduleFilters JobOrderBy ScheduleOrderBy)
open Ora.Library

variable {J S τ υ γ δ α κ : Type}

namespace Rows

variable {largest size : Nat} {name : α → γ} {list : List γ} {server : PageServer largest name list τ}
  {query : κ} {demanded settling : Prop} {counter : Counter (Request κ τ)}
  {shown incoming : PageRows α τ}

/-- The rows are the first ones of the list, and all of them if no page follows. -/
def First (name : α → γ) (list : List γ) (size : Nat) (collected : PageRows α τ) : Prop :=
  collected.rows.map name = list.take (collected.pages * size) ∧
    (0 < collected.pages → collected.next = none → collected.rows.map name = list)

theorem first (positive : 0 < size) (allowed : size ≤ largest) {collected : PageRows α τ}
    (walks : collected.Walks (PageWalk.Serves server size)) : First name list size collected := by
  obtain ⟨rows, follows⟩ := PageWalk.served positive allowed walks
  refine ⟨rows, fun some_pages none => ?_⟩
  have rest := follows some_pages
  rw [none] at rest
  rw [rows, List.take_of_length_le (List.drop_eq_nil_iff.mp rest)]

/-- A refresh replaces the rows once it has their pages, or as many rows, or all
of them. -/
theorem prefix_incoming (positive : 0 < size) (allowed : size ≤ largest)
    (rows : Rows (PageWalk.Serves server size) query False settling counter shown incoming)
    (ready : (autoPages ≤ incoming.pages ∨ 0 < incoming.pages ∧ incoming.next = none) ∨
      shown.rows.length ≤ incoming.rows.length) :
    shown.rows.map name <+: incoming.rows.map name := by
  have shownFirst := (first positive allowed rows.shownWalks).1
  have incomingFirst := first positive allowed rows.incomingWalks
  obtain (pages | ⟨some_pages, last⟩) | rowsEnough := ready
  · have few : shown.pages ≤ incoming.pages := by
      have kept := rows.kept.resolve_right id
      rwa [Nat.max_eq_left pages] at kept
    rw [shownFirst, incomingFirst.1]
    exact List.take_prefix_take_left (Nat.mul_le_mul_right size few)
  · rw [shownFirst, incomingFirst.2 some_pages last]
    exact List.take_prefix _ _
  · have shownPrefix : shown.rows.map name <+: list := shownFirst ▸ List.take_prefix _ _
    have incomingPrefix : incoming.rows.map name <+: list := incomingFirst.1 ▸ List.take_prefix _ _
    exact List.prefix_of_prefix_length_le shownPrefix incomingPrefix (by simpa using rowsEnough)

end Rows

/-- Events that the user does not cause.  A list of job types may lack the one
selected, and what the user creates is to be seen. -/
def Event.Background : Event J S τ υ → Prop
  | .key _ | .paste _ | .jobTypesUpdated _ | .created => False
  | _ => True

namespace App

variable {app next : App J S τ υ}

def onScreen (app : App J S τ υ) : List J × List S :=
  (app.jobTable.jobs, app.scheduleTable.schedules)

theorem fetch_onScreen (inside : app.SelectionInside) (now : Nat) (force : Bool) :
    (app.fetch now force).onScreen = app.onScreen := by
  obtain ⟨index, selected, -⟩ := inside
  unfold fetch fetchJobCounts fetchJobs fetchSchedules
  rw [selected]
  dsimp only
  repeat' split
  all_goals first | rfl | contradiction

theorem loadMoreJobs_onScreen : app.loadMoreJobs.onScreen = app.onScreen := by
  unfold loadMoreJobs requestMoreJobs restoreShown
  repeat' split
  all_goals rfl

theorem loadMoreSchedules_onScreen : app.loadMoreSchedules.onScreen = app.onScreen := by
  unfold loadMoreSchedules
  split <;> rfl

theorem executorsUpdated_onScreen (now : Nat) (executors : List Backend.ExecutorId) :
    (app.executorsUpdated now executors).onScreen = app.onScreen := by
  unfold executorsUpdated
  dsimp only
  split <;> rfl

theorem jobsUpdated_onScreen (now : Nat) (jobs : List J) (nextPage : Option τ) (append : Bool) :
    (app.jobsUpdated now jobs nextPage append).onScreen =
      ((receiveJobs { app with pending.jobs := app.pending.jobs.finish } jobs nextPage
        append).showJobs).onScreen := by
  unfold jobsUpdated
  dsimp only
  split
  · exact loadMoreJobs_onScreen
  · rfl

theorem schedulesUpdated_onScreen (now : Nat) (schedules : List S) (nextPage : Option υ)
    (append : Bool) :
    (app.schedulesUpdated now schedules nextPage append).onScreen =
      ((receiveSchedules { app with pending.schedules := app.pending.schedules.finish } schedules
        nextPage append).showSchedules).onScreen := by
  unfold schedulesUpdated
  dsimp only
  split
  · exact loadMoreSchedules_onScreen
  · rfl

section Unchanging

variable {largest : Nat} {jobName : J → γ} {scheduleName : S → δ}
  {jobs : JobFilters → JobOrderBy → List γ} {schedules : ScheduleFilters → ScheduleOrderBy → List δ}
  (jobServer : ∀ filters order, PageServer largest jobName (jobs filters order) τ)
  (scheduleServer : ∀ filters order, PageServer largest scheduleName (schedules filters order) υ)

/-- The lists for all filters and orders, none of which changes. -/
def unchanging : Server J S τ υ where
  jobs filters order := PageWalk.Serves (jobServer filters order)
  schedules filters order := PageWalk.Serves (scheduleServer filters order)
  count _ _ := True

variable {jobServer scheduleServer} {task : Nat} {stale : Tab → Prop}

/-- The rows of a table on screen are among those that are on screen later. -/
structure Keeps (app next : App J S τ υ) (jobName : J → γ) (scheduleName : S → δ) : Prop where
  jobs : ¬app.Typing .jobs → app.jobTable.jobs.map jobName <+: next.jobTable.jobs.map jobName
  schedules : ¬app.Typing .schedules →
    app.scheduleTable.schedules.map scheduleName <+: next.scheduleTable.schedules.map scheduleName

theorem Keeps.of_onScreen (same : next.onScreen = app.onScreen) :
    Keeps app next jobName scheduleName := by
  obtain ⟨jobs, schedules⟩ := Prod.mk.inj same
  exact ⟨fun _ => jobs ▸ List.prefix_refl _, fun _ => schedules ▸ List.prefix_refl _⟩

theorem showJobs_prefix (allowed : pageSize ≤ largest)
    (rows : app.JobRows (unchanging jobServer scheduleServer) False)
    (begun : 0 < app.jobTable.pages) :
    app.jobTable.jobs.map jobName <+: app.showJobs.jobTable.jobs.map jobName := by
  unfold showJobs
  split
  · rename_i ready
    refine rows.prefix_incoming (by decide) allowed ?_
    rw [Bool.or_eq_true, decide_eq_true_eq] at ready
    refine ready.imp (fun last => ?_) id
    unfold moreJobs at last
    cases none : app.jobTable.nextPage with
    | none => exact .inr ⟨begun, none⟩
    | some token =>
        have enough : autoPages ≤ app.jobTable.pages := by simpa [none] using last
        exact .inl enough
  · exact List.prefix_refl _

theorem showSchedules_prefix (allowed : pageSize ≤ largest)
    (rows : app.ScheduleRows (unchanging jobServer scheduleServer) False)
    (begun : 0 < app.scheduleTable.pages) :
    app.scheduleTable.schedules.map scheduleName <+:
      app.showSchedules.scheduleTable.schedules.map scheduleName := by
  obtain ⟨shown, same, rows⟩ := rows
  unfold showSchedules
  split
  · rename_i ready
    rw [← same]
    refine rows.prefix_incoming (by decide) allowed ?_
    rw [Bool.or_eq_true, List.isEmpty_iff, ← same] at ready
    refine ready.imp (fun last => ?_) fun none => ?_
    · unfold moreSchedules at last
      cases none : app.scheduleTable.nextPage with
      | none => exact .inr ⟨begun, none⟩
      | some token =>
          have enough : autoPages ≤ app.scheduleTable.pages := by simpa [none] using last
          exact .inl enough
    · rw [none]
      exact Nat.zero_le _
  · exact List.prefix_refl _

theorem receive_pages_pos (pages : Nat) (append : Bool) : 0 < if append then pages + 1 else 1 := by
  cases append <;> simp

variable {ids : Ids S} {timed : Nat × Event J S τ υ}

theorem jobsUpdated_keeps (allowed : pageSize ≤ largest) (now : Nat)
    (consistent : app.Consistent (unchanging jobServer scheduleServer) False stale)
    (typing : stale .jobs → app.Typing .jobs) {request : Request JobsQuery τ} {page : List J}
    {nextPage : Option τ}
    (answering : app.pending.jobs.tasks[task]? = some (app.pending.jobs.token, request))
    (answered : (unchanging jobServer scheduleServer).updateJobs request.query request.pageToken page
      nextPage) :
    Keeps app (jobsUpdated { app with pending.jobs := app.pending.jobs.ended task } now page nextPage
      request.pageToken.isSome) jobName scheduleName := by
  have received := receiveJobs_consistent consistent answering answered
  have same := @jobsUpdated_onScreen _ _ _ _
    { app with pending.jobs := app.pending.jobs.ended task } now page nextPage
    request.pageToken.isSome
  obtain ⟨jobs, schedules⟩ := Prod.mk.inj same
  refine ⟨fun applied => ?_, fun _ => ?_⟩
  · rw [jobs]
    exact showJobs_prefix allowed (received.jobs fun was => applied (typing was))
      (receive_pages_pos _ _)
  · rw [schedules]
    unfold showJobs
    split <;> exact List.prefix_refl _

theorem schedulesUpdated_keeps (allowed : pageSize ≤ largest) (now : Nat)
    (consistent : app.Consistent (unchanging jobServer scheduleServer) False stale)
    (typing : stale .schedules → app.Typing .schedules) {request : Request SchedulesQuery υ}
    {page : List S} {nextPage : Option υ}
    (answering : app.pending.schedules.tasks[task]? = some (app.pending.schedules.token, request))
    (answered : (unchanging jobServer scheduleServer).updateSchedules request.query
      request.pageToken page nextPage) :
    Keeps app (schedulesUpdated { app with pending.schedules := app.pending.schedules.ended task }
      now page nextPage request.pageToken.isSome) jobName scheduleName := by
  have received := receiveSchedules_consistent consistent answering answered
  have same := @schedulesUpdated_onScreen _ _ _ _
    { app with pending.schedules := app.pending.schedules.ended task } now page nextPage
    request.pageToken.isSome
  obtain ⟨jobs, schedules⟩ := Prod.mk.inj same
  refine ⟨fun _ => ?_, fun applied => ?_⟩
  · rw [jobs]
    unfold showSchedules
    split <;> exact List.prefix_refl _
  · rw [schedules]
    exact showSchedules_prefix allowed (received.schedules fun was => applied (typing was))
      (receive_pages_pos _ _)

/-- One event of the background. -/
theorem step_keeps (fits : pageSize ≤ largest)
    (sound : app.Sound (unchanging jobServer scheduleServer) False)
    (allowed : Allowed (unchanging jobServer scheduleServer) False app timed)
    (taken : app.step ids timed = some next) (background : timed.2.Background) :
    Keeps app next jobName scheduleName := by
  obtain ⟨now, event⟩ := timed
  unfold step at taken
  dsimp only at taken
  split at taken
  · cases event with
    | key | paste | jobTypesUpdated | created => exact background.elim
    | jobsUpdated task jobs nextPage =>
        obtain ⟨⟨token, request⟩, answering, taken⟩ := Option.bind_eq_some_iff.mp taken
        cases taken
        dsimp only
        split
        · rename_i accepted
          cases (eq_of_beq accepted : token = app.pending.jobs.token)
          exact jobsUpdated_keeps fits now sound.consistent id answering
            (allowed.answers _ _ answering)
        · exact .of_onScreen rfl
    | schedulesUpdated task schedules nextPage =>
        obtain ⟨⟨token, request⟩, answering, taken⟩ := Option.bind_eq_some_iff.mp taken
        cases taken
        dsimp only
        split
        · rename_i accepted
          cases (eq_of_beq accepted : token = app.pending.schedules.token)
          exact schedulesUpdated_keeps fits now sound.consistent id answering
            (allowed.answers _ _ answering)
        · exact .of_onScreen rfl
    | jobsFailed | schedulesFailed | jobCountsUpdated | jobCountsFailed =>
        obtain ⟨⟨token, request⟩, -, taken⟩ := Option.bind_eq_some_iff.mp taken
        cases taken
        dsimp only
        split <;> exact .of_onScreen rfl
    | executorsUpdated executors =>
        cases taken
        exact .of_onScreen (executorsUpdated_onScreen now executors)
    | failed | drawn =>
        cases taken
        exact .of_onScreen rfl
    | refresh =>
        cases taken
        exact .of_onScreen (fetch_onScreen sound.consistent.selection now false)
    | tick =>
        cases taken
        split
        · have same := @fetch_onScreen _ _ _ _ { app with settlesAt := none }
            sound.consistent.selection now true
          exact .of_onScreen same
        · exact .of_onScreen rfl
  · cases taken

/-- While the lists do not change and no refresh is demanded, the rows on screen
are the first ones of the list for their filters, all of them if there is no
further page, and no timer, answer or failure takes any of them away. -/
theorem background_keeps_rows {now : Nat} (fits : pageSize ≤ largest)
    (run : Reaches (step ids) (Allowed (unchanging jobServer scheduleServer) False) (App.start now)
      app)
    (allowed : Allowed (unchanging jobServer scheduleServer) False app timed)
    (taken : app.step ids timed = some next) (background : timed.2.Background) :
    Keeps app next jobName scheduleName ∧
      (¬app.Typing .jobs →
        Rows.First jobName (jobs app.jobsQuery.filters app.jobsQuery.order) pageSize app.shownJobs) ∧
      (¬app.Typing .schedules → ∃ shown : PageRows S υ,
        shown.rows = app.scheduleTable.schedules ∧
        Rows.First scheduleName (schedules app.schedulesQuery.filters app.schedulesQuery.order)
          pageSize shown) := by
  have sound := sound_of_reaches run
  refine ⟨step_keeps fits sound allowed taken background, fun applied => ?_, fun applied => ?_⟩
  · exact Rows.first (by decide) fits (sound.consistent.jobs applied).shownWalks
  · obtain ⟨shown, same, rows⟩ := sound.consistent.schedules applied
    exact ⟨shown, same, Rows.first (by decide) fits rows.shownWalks⟩

end Unchanging

/-- The same jobs for all filters. -/
def sameJobs (count : Nat) : Server Nat Nat Nat Nat :=
  unchanging (fun _ _ => PageServer.ofList 25 (List.range count))
    (fun _ _ => PageServer.ofList 25 (List.range 0))

/-- The second page adds a row. -/
theorem background_keeps_rows_secondPage :
    ∃ app next : App Nat Nat Nat Nat, app.jobTable.jobs = List.range 25 ∧
      next.jobTable.jobs = List.range 26 ∧ Keeps app next (id : Nat → Nat) (id : Nat → Nat) := by
  have settled : Reaches (step noIds) (Allowed (sameJobs 26) False) (App.start 0) _ :=
    .single (250, .tick) (.of_answers ⟨by decide, by decide, by decide⟩ trivial nofun) rfl
  have first := @Reaches.tail _ _ _ _ _ _ _
    (251, .jobsUpdated 0 (List.range 25) (some 25)) settled
    (.of_answers ⟨by decide, by decide, by decide⟩ (by rintro _ _ ⟨⟩; exact ⟨0, rfl⟩) nofun) rfl
  refine ⟨_, _, rfl, ?_, (background_keeps_rows (Nat.le_refl 25) first
    (show Allowed (sameJobs 26) False _ (252, .jobsUpdated 0 [25] none) from
      .of_answers ⟨by decide, by decide, by decide⟩ (by rintro _ _ ⟨⟩; exact ⟨1, rfl⟩) nofun) rfl
    trivial).1⟩
  rfl

end App

end Ora.Tui
