import Ora.Tui.Rows

/-!
# The tables show what they are filtered by

Whatever the order of keys, timers and answers, the rows of each table are
consecutive pages of what is listed for its filters, from the first page on, and
so is what will replace them.  Typing into a label filter changes it before it
is applied.
-/

namespace Ora.Tui

open Ora.Backend (JobTypeId ExecutorId ScheduleId JobFilters ScheduleFilters JobOrderBy
  ScheduleOrderBy)
open Ora.Library

variable {J S τ υ : Type}

/-- What the server may answer at some time. -/
structure Server (J S τ υ : Type) where
  jobs : JobFilters → JobOrderBy → Nat → Option τ → List J → Option τ → Prop
  schedules : ScheduleFilters → ScheduleOrderBy → Nat → Option υ → List S → Option υ → Prop
  count : JobFilters → Nat → Prop

namespace Server

variable (server : Server J S τ υ)

def updateJobs (query : JobsQuery) : Option τ → List J → Option τ → Prop :=
  server.jobs query.filters query.order pageSize

def updateSchedules (query : SchedulesQuery) : Option υ → List S → Option υ → Prop :=
  server.schedules query.filters query.order pageSize

def countJobs (query : CountsQuery) (counts : List Nat) : Prop :=
  List.Forall₂ (fun status count => server.count (query.filters status) count) jobCountStatuses
    counts

end Server

namespace App

section Invariant

variable (server : Server J S τ υ) (demanded : Prop) (app : App J S τ υ)

def shownJobs : PageRows J τ :=
  ⟨app.jobTable.jobs, app.jobTable.shownNextPage, app.jobTable.shownPages⟩

def incomingJobs : PageRows J τ :=
  ⟨app.jobTable.incoming, app.jobTable.nextPage, app.jobTable.pages⟩

def incomingSchedules : PageRows S υ :=
  ⟨app.scheduleTable.incoming, app.scheduleTable.nextPage, app.scheduleTable.pages⟩

def JobRows : Prop :=
  Rows (server.updateJobs app.jobsQuery) app.jobsQuery demanded (app.settlesAt.isSome = true)
    app.pending.jobs app.shownJobs app.incomingJobs

/-- The schedules table does not keep the token and the number of the pages on
screen. -/
def ScheduleRows : Prop :=
  ∃ shown : PageRows S υ, shown.rows = app.scheduleTable.schedules ∧
    Rows (server.updateSchedules app.schedulesQuery) app.schedulesQuery demanded
      (app.settlesAt.isSome = true) app.pending.schedules shown app.incomingSchedules

def Counted : Prop :=
  app.pending.jobCounts.Awaits (· = app.countsQuery) ∧
    ∀ counts, app.jobCounts = some counts → server.countJobs app.countsQuery counts

/-- Selections past the last job type would be taken for all of them. -/
def SelectionInside : Prop :=
  ∃ index, app.jobTypeList.selected = some index ∧ index ≤ app.jobTypeList.jobTypes.length

/-- What does not depend on the filters. -/
structure Ordered : Prop where
  selection : app.SelectionInside
  jobRequests : app.pending.jobs.Awaits fun _ => True
  scheduleRequests : app.pending.schedules.Awaits fun _ => True
  countRequests : app.pending.jobCounts.Awaits fun _ => True

/-- The rows of all tabs but the stale ones are what they are filtered by. -/
structure Consistent (stale : Tab → Prop) : Prop extends Ordered app where
  jobs : ¬stale .jobs → app.JobRows server demanded
  schedules : ¬stale .schedules → app.ScheduleRows server demanded
  counts : ¬stale .jobs → app.Counted server

/-- A label filter is being typed into that is not applied yet. -/
def Typing (tab : Tab) : Prop :=
  app.editing = some .labels ∧ app.tab = tab

/-- A schedule is only typed on the jobs tab. -/
structure Sound : Prop where
  consistent : app.Consistent server demanded app.Typing
  schedule : app.editing = some .schedule → app.tab = .jobs

/-- The tab on screen and what is being typed. -/
def mode : Tab × Option Editing :=
  (app.tab, app.editing)

def Room (n : Nat) : Prop :=
  app.pending.jobs.Room n ∧ app.pending.schedules.Room n ∧ app.pending.jobCounts.Room n

end Invariant

variable {server : Server J S τ υ} {demanded : Prop} {app : App J S τ υ} {stale stale' : Tab → Prop}
  {now n : Nat}

theorem Consistent.mono (consistent : app.Consistent server demanded stale)
    (more : ∀ tab, stale tab → stale' tab) : app.Consistent server demanded stale' :=
  { consistent with
    jobs := fun fresh => consistent.jobs fun was => fresh (more _ was)
    schedules := fun fresh => consistent.schedules fun was => fresh (more _ was)
    counts := fun fresh => consistent.counts fun was => fresh (more _ was) }

theorem Room.mono {m : Nat} (room : app.Room n) (fewer : m ≤ n) : app.Room m :=
  ⟨room.1.mono fewer, room.2.1.mono fewer, room.2.2.mono fewer⟩

theorem updateJobs_consistent (consistent : app.Consistent server demanded stale)
    (room : app.Room (n + 1)) {pageToken : Option τ}
    (rows : ¬stale .jobs → (app.updateJobs pageToken).JobRows server demanded) :
    (app.updateJobs pageToken).Consistent server demanded stale :=
  { consistent with
    jobRequests := consistent.jobRequests.start room.1 trivial
    jobs := rows }

theorem fetchJobs_consistent (force : Bool) (consistent : app.Consistent server demanded stale)
    (room : app.Room (n + 1)) (rests : app.settlesAt = none)
    (within : force = true → ¬stale .jobs → app.jobTable.shownPages ≤ autoPages ∨ demanded) :
    (app.fetchJobs force).Consistent server demanded stale := by
  unfold fetchJobs
  split
  · rename_i refreshed
    have refreshing : Consistent server demanded { app with jobTable.extending := false } stale :=
      { consistent with }
    refine updateJobs_consistent refreshing room fun fresh => ?_
    have rows := consistent.jobs fresh
    refine rows.start_first room.1 (by simp [rests]) ?_
    cases force with
    | true => exact within rfl fresh
    | false =>
        simp only [Bool.false_or, Bool.and_eq_true, decide_eq_true_eq] at refreshed
        refine rows.kept.imp (fun few => Nat.le_trans few ?_) id
        exact Nat.max_le.mpr ⟨refreshed.2, Nat.le_refl _⟩
  · exact consistent

theorem updateSchedules_consistent (consistent : app.Consistent server demanded stale)
    (room : app.Room (n + 1)) {pageToken : Option υ}
    (rows : ¬stale .schedules → (app.updateSchedules pageToken).ScheduleRows server demanded) :
    (app.updateSchedules pageToken).Consistent server demanded stale :=
  { consistent with
    scheduleRequests := consistent.scheduleRequests.start room.2.1 trivial
    schedules := rows }

theorem fetchSchedules_consistent (force : Bool) (consistent : app.Consistent server demanded stale)
    (room : app.Room (n + 1)) (rests : app.settlesAt = none)
    (within : force = true → ¬stale .schedules →
      app.scheduleTable.schedules = [] ∨ demanded) :
    (app.fetchSchedules force).Consistent server demanded stale := by
  unfold fetchSchedules
  split
  · rename_i refreshed
    refine updateSchedules_consistent consistent room fun fresh => ?_
    obtain ⟨shown, same, rows⟩ := consistent.schedules fresh
    cases force with
    | true =>
        obtain none | demand := within rfl fresh
        · refine ⟨.nothing, none.symm, ?_⟩
          have empty := rows.forget
          exact empty.start_first room.2.1 (by simp [rests]) (.inl (Nat.zero_le _))
        · exact ⟨shown, same, rows.start_first room.2.1 (by simp [rests]) (.inr demand)⟩
    | false =>
        simp only [Bool.false_or, Bool.and_eq_true, decide_eq_true_eq] at refreshed
        refine ⟨shown, same, rows.start_first room.2.1 (by simp [rests]) ?_⟩
        refine rows.kept.imp (fun few => Nat.le_trans few ?_) id
        exact Nat.max_le.mpr ⟨refreshed.2, Nat.le_refl _⟩
  · exact consistent

theorem fetchJobCounts_consistent (now : Nat) (consistent : app.Consistent server demanded stale)
    (room : app.pending.jobCounts.Room (n + 1)) :
    (app.fetchJobCounts now).Consistent server demanded stale := by
  unfold fetchJobCounts
  dsimp only
  split
  · exact consistent
  · exact
      { consistent with
        countRequests := consistent.countRequests.start room trivial
        counts := fun fresh =>
          ⟨(consistent.counts fresh).1.start room rfl, (consistent.counts fresh).2⟩ }

/-- A forced refresh is one that replaces no rows, or one that was demanded. -/
theorem fetch_consistent (now : Nat) (force : Bool)
    (consistent : app.Consistent server demanded stale) (room : app.Room (n + 1))
    (jobsWithin : force = true → app.tab = .jobs → ¬stale .jobs →
      app.jobTable.shownPages ≤ autoPages ∨ demanded)
    (schedulesWithin : force = true → app.tab = .schedules → ¬stale .schedules →
      app.scheduleTable.schedules = [] ∨ demanded) :
    (app.fetch now force).Consistent server demanded stale := by
  obtain ⟨index, selected, inside⟩ := consistent.selection
  unfold fetch
  split
  · exact consistent
  · rename_i rests
    replace rests : app.settlesAt = none := by simpa using rests
    rw [selected]
    cases tab : app.tab with
    | executors => exact consistent
    | schedules =>
        exact fetchSchedules_consistent force consistent room rests
          fun forced => schedulesWithin forced tab
    | jobs =>
        have fetched := fetchJobs_consistent force consistent room rests
          fun forced => jobsWithin forced tab
        have space : (app.fetchJobs force).pending.jobCounts.Room (n + 1) := by
          unfold fetchJobs
          split <;> exact room.2.2
        cases force with
        | false => exact fetchJobCounts_consistent now fetched space
        | true =>
            have uncounted : Consistent server demanded
                { app.fetchJobs true with countedAt := none } stale := { fetched with }
            exact fetchJobCounts_consistent now uncounted space

@[simp] theorem fetch_mode (now : Nat) (force : Bool) : (app.fetch now force).mode = app.mode := by
  unfold fetch fetchJobCounts fetchJobs fetchSchedules
  dsimp only
  repeat' split
  all_goals rfl

@[simp] theorem clearRows_mode (tab : Tab) : (app.clearRows tab).mode = app.mode := by
  cases tab <;> rfl

/-- The rows of a tab are dropped, and with them what was wrong about them. -/
theorem clearRows_consistent (consistent : app.Consistent server demanded stale)
    (room : app.Room (n + 1)) (tab : Tab) :
    (app.invalidate.clearRows tab).Consistent server demanded
      fun other => stale other ∧ other ≠ tab := by
  have counted : app.invalidate.Counted server :=
    ⟨consistent.countRequests.cancel room.2.2, fun _ none => absurd none (by simp [invalidate])⟩
  have jobs (fresh : ¬stale .jobs) : app.invalidate.JobRows server demanded :=
    (consistent.jobs fresh).cancel room.1
  have schedules (fresh : ¬stale .schedules) : app.invalidate.ScheduleRows server demanded := by
    obtain ⟨shown, same, rows⟩ := consistent.schedules fresh
    exact ⟨shown, same, rows.cancel room.2.1⟩
  have base : app.invalidate.Consistent server demanded stale :=
    { selection := consistent.selection
      jobRequests := consistent.jobRequests.cancel room.1
      scheduleRequests := consistent.scheduleRequests.cancel room.2.1
      countRequests := consistent.countRequests.cancel room.2.2
      jobs := jobs
      schedules := schedules
      counts := fun _ => counted }
  cases tab with
  | jobs =>
      exact
        { base with
          jobs := fun _ => Rows.cleared consistent.jobRequests room.1
          schedules := fun fresh => schedules fun was => fresh ⟨was, by decide⟩
          counts := fun _ => counted }
  | schedules =>
      exact
        { base with
          jobs := fun fresh => jobs fun was => fresh ⟨was, by decide⟩
          schedules := fun _ => ⟨.nothing, rfl, Rows.cleared consistent.scheduleRequests room.2.1⟩
          counts := fun _ => counted }
  | executors =>
      exact
        { base with
          jobs := fun fresh => jobs fun was => fresh ⟨was, by decide⟩
          schedules := fun fresh => schedules fun was => fresh ⟨was, by decide⟩
          counts := fun _ => counted }

theorem reload_consistent (now : Nat) (consistent : app.Consistent server demanded stale)
    (room : app.Room (n + 2)) :
    (app.reload now).Consistent server demanded fun other => stale other ∧ other ≠ app.tab := by
  have cleared := clearRows_consistent consistent room app.tab
  have space : (app.invalidate.clearRows app.tab).Room (n + 1) := by
    cases app.tab <;> exact ⟨room.1.cancel, room.2.1.cancel, room.2.2.cancel⟩
  have same : (app.invalidate.clearRows app.tab).tab = app.tab :=
    congrArg Prod.fst (clearRows_mode app.tab)
  refine fetch_consistent now true cleared space (fun _ tab _ => ?_) (fun _ tab _ => ?_)
  · rw [show app.tab = .jobs from same.symm.trans tab]
    exact .inl (Nat.zero_le _)
  · rw [show app.tab = .schedules from same.symm.trans tab]
    exact .inl rfl

@[simp] theorem reload_mode (now : Nat) : (app.reload now).mode = app.mode :=
  (fetch_mode now true).trans (clearRows_mode app.tab)

/-- Whatever the job type was before, nothing of it is left. -/
theorem reloadJobType_consistent (now : Nat) (ordered : app.Ordered) (room : app.Room (n + 1)) :
    (app.reloadJobType now).Consistent server demanded stale where
  selection := ordered.selection
  jobRequests := ordered.jobRequests.cancel room.1
  scheduleRequests := ordered.scheduleRequests.cancel room.2.1
  countRequests := ordered.countRequests.cancel room.2.2
  jobs _ := Rows.cleared ordered.jobRequests room.1
  schedules _ := ⟨.nothing, rfl, Rows.cleared ordered.scheduleRequests room.2.1⟩
  counts _ := ⟨ordered.countRequests.cancel room.2.2, fun _ none => nomatch none⟩

@[simp] theorem reloadJobType_mode (now : Nat) : (app.reloadJobType now).mode = app.mode :=
  rfl

theorem loadMoreJobs_consistent (consistent : app.Consistent server demanded stale)
    (room : app.Room (n + 2)) : app.loadMoreJobs.Consistent server demanded stale := by
  have restored : app.restoreShown.Consistent server demanded stale ∧
      app.restoreShown.Room (n + 1) := by
    unfold restoreShown
    split
    · rename_i refreshing
      have waiting : app.pending.jobs.waiting = true := by
        simp only [Counter.idle, Bool.not_not, Bool.and_eq_true] at refreshing
        exact refreshing.1
      refine ⟨{ consistent with
        jobRequests := consistent.jobRequests.cancel room.1
        jobs := fun fresh => (consistent.jobs fresh).restore room.1 waiting }, ?_⟩
      exact ⟨room.1.cancel, room.2.1.mono (Nat.le_succ _), room.2.2.mono (Nat.le_succ _)⟩
    · exact ⟨consistent, room.mono (Nat.le_succ _)⟩
  obtain ⟨consistent, room⟩ := restored
  unfold loadMoreJobs requestMoreJobs
  split
  · exact consistent
  · rename_i wanted
    refine updateJobs_consistent consistent room fun fresh => ?_
    refine (consistent.jobs fresh).start_next room.1 fun none => wanted ?_
    rw [show app.restoreShown.jobTable.nextPage = _ from none]
    rfl

theorem loadMoreSchedules_consistent (consistent : app.Consistent server demanded stale)
    (room : app.Room (n + 1)) : app.loadMoreSchedules.Consistent server demanded stale := by
  unfold loadMoreSchedules
  split
  · exact consistent
  · rename_i wanted
    refine updateSchedules_consistent consistent room fun fresh => ?_
    obtain ⟨shown, same, rows⟩ := consistent.schedules fresh
    refine ⟨shown, same, rows.start_next room.2.1 fun none => wanted ?_⟩
    rw [show app.scheduleTable.nextPage = _ from none]
    rfl

@[simp] theorem loadMoreJobs_mode : app.loadMoreJobs.mode = app.mode := by
  unfold loadMoreJobs requestMoreJobs restoreShown
  repeat' split
  all_goals rfl

@[simp] theorem loadMoreSchedules_mode : app.loadMoreSchedules.mode = app.mode := by
  unfold loadMoreSchedules
  split <;> rfl

end App

end Ora.Tui
