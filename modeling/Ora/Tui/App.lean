import Ora.Cli.LabelFilters
import Ora.Library.Run

/-!
# The tables of the terminal application

`App` of `ora-cli/src/tui.rs`: the jobs and the schedules tables, what they are
filtered by, and the requests in flight.  Requests run as tasks of their own and
their answers arrive as events, between the keys and the timers.  The detail
views, the creation form and the confirmations lie over the tables and are left
out, as are the requests that do not concern the rows.  Times are milliseconds.
-/

namespace Ora.Tui

open Ora.Backend (ExecutionStatus ExecutionPendingReason JobTypeId ExecutorId ScheduleId
  JobOrderBy ScheduleOrderBy LabelFilter JobFilters ScheduleFilters)

inductive Tab where
  | jobs
  | schedules
  | executors
  deriving DecidableEq, Repr

def Tab.next : Tab → Tab
  | .jobs => .schedules
  | .schedules => .executors
  | .executors => .jobs

def Tab.previous : Tab → Tab
  | .jobs => .executors
  | .schedules => .jobs
  | .executors => .schedules

inductive JobStatus where
  | all
  | active
  | pending
  | scheduled
  | ready
  | inProgress
  | succeeded
  | failed
  | cancelled
  deriving DecidableEq, Repr

namespace JobStatus

def next : JobStatus → JobStatus
  | .all => .active
  | .active => .pending
  | .pending => .scheduled
  | .scheduled => .ready
  | .ready => .inProgress
  | .inProgress => .succeeded
  | .succeeded => .failed
  | .failed => .cancelled
  | .cancelled => .all

def statuses : JobStatus → Option (List ExecutionStatus)
  | .all => none
  | .active => some [.pending, .inProgress]
  | .pending | .scheduled | .ready => some [.pending]
  | .inProgress => some [.inProgress]
  | .succeeded => some [.succeeded]
  | .failed => some [.failed]
  | .cancelled => some [.cancelled]

def pendingReasons : JobStatus → Option (List ExecutionPendingReason)
  | .scheduled => some [.scheduled]
  | .ready => some [.ready]
  | _ => none

end JobStatus

inductive ScheduleStatus where
  | all
  | active
  | stopped
  deriving DecidableEq, Repr

namespace ScheduleStatus

def next : ScheduleStatus → ScheduleStatus
  | .all => .active
  | .active => .stopped
  | .stopped => .all

def statuses : ScheduleStatus → Option (List Backend.ScheduleStatus)
  | .all => none
  | .active => some [.active]
  | .stopped => some [.stopped]

end ScheduleStatus

/-- The order after this one on `o`. -/
def nextJobOrder : JobOrderBy → JobOrderBy
  | .targetExecutionTimeAsc => .targetExecutionTimeDesc
  | .targetExecutionTimeDesc => .createdAtAsc
  | .createdAtAsc => .createdAtDesc
  | .createdAtDesc => .priorityDesc
  | .priorityDesc => .priorityAsc
  | .priorityAsc => .targetExecutionTimeAsc

def nextScheduleOrder : ScheduleOrderBy → ScheduleOrderBy
  | .createdAtDesc => .createdAtAsc
  | .createdAtAsc => .createdAtDesc

/-- The filter being typed into in the footer. -/
inductive Editing where
  | labels
  | schedule
  deriving DecidableEq, Repr

def parseLabelFilter (filter : List Char) : Option (List LabelFilter) :=
  if (Cli.trim filter).isEmpty then
    none
  else
    some (Cli.parseLabelFilters (((Cli.trim filter).splitOn ',').map String.ofList))

def pageSize : Nat := 25

/-- `PAGE_AHEAD` -/
def pageAhead : Nat := 5

/-- `AUTO_PAGES` -/
def autoPages : Nat := 2

/-- `SETTLE_INTERVAL` -/
def settleInterval : Nat := 250

/-- `COUNT_INTERVAL` -/
def countInterval : Nat := 30000

/-- The arguments of `update_jobs` that narrow the rows. -/
structure JobsQuery where
  jobType : Option JobTypeId
  order : JobOrderBy
  status : JobStatus
  labelFilter : List Char
  schedule : Option ScheduleId
  deriving DecidableEq, Repr

/-- The filters that `update_jobs` sends. -/
def JobsQuery.filters (query : JobsQuery) : JobFilters where
  jobTypeIds := query.jobType.map fun jobType => [jobType]
  scheduleIds := query.schedule.map fun schedule => [schedule]
  labels := parseLabelFilter query.labelFilter
  executionStatuses := query.status.statuses
  pendingReasons := query.status.pendingReasons

structure SchedulesQuery where
  jobType : Option JobTypeId
  order : ScheduleOrderBy
  statuses : Option (List Backend.ScheduleStatus)
  labelFilter : List Char
  deriving DecidableEq, Repr

/-- The filters that `update_schedules` sends. -/
def SchedulesQuery.filters (query : SchedulesQuery) : ScheduleFilters where
  jobTypeIds := query.jobType.map fun jobType => [jobType]
  labels := parseLabelFilter query.labelFilter
  statuses := query.statuses

structure CountsQuery where
  jobType : Option JobTypeId
  labelFilter : List Char
  schedule : Option ScheduleId
  deriving DecidableEq, Repr

/-- The filters of `count_jobs` for one status. -/
def CountsQuery.filters (query : CountsQuery) (status : ExecutionStatus) : JobFilters where
  jobTypeIds := query.jobType.map fun jobType => [jobType]
  scheduleIds := query.schedule.map fun schedule => [schedule]
  labels := parseLabelFilter query.labelFilter
  executionStatuses := some [status]

/-- `JOB_COUNT_STATUSES` -/
def jobCountStatuses : List ExecutionStatus :=
  [.pending, .inProgress, .succeeded, .failed, .cancelled]

structure Request (κ τ : Type) where
  query : κ
  pageToken : Option τ
  deriving DecidableEq, Repr

/-- The request of one kind in flight.  `waiting` is whether there is a time
since when it is, `tasks` are those that may still send an answer, with their
tokens: aborting one can be too late. -/
structure Counter (ρ : Type) where
  waiting : Bool := false
  token : Nat := 0
  tasks : List (Nat × ρ) := []
  deriving DecidableEq, Repr

namespace Counter

variable {ρ : Type}

def nextToken (counter : Counter ρ) : Nat :=
  (counter.token + 1) % 2 ^ 64

/-- `next_token` and `start` with the task that was spawned with it. -/
def start (counter : Counter ρ) (request : ρ) : Counter ρ where
  waiting := true
  token := counter.nextToken
  tasks := counter.tasks ++ [(counter.nextToken, request)]

def finish (counter : Counter ρ) : Counter ρ :=
  { counter with waiting := false }

def cancel (counter : Counter ρ) : Counter ρ :=
  { counter with waiting := false, token := counter.nextToken }

def idle (counter : Counter ρ) : Bool :=
  !counter.waiting

def accepts (counter : Counter ρ) (token : Nat) : Bool :=
  token == counter.token

/-- A task has sent its answer and ends. -/
def ended (counter : Counter ρ) (task : Nat) : Counter ρ :=
  { counter with tasks := counter.tasks.eraseIdx task }

end Counter

structure Pending (τ υ : Type) where
  jobs : Counter (Request JobsQuery τ) := {}
  schedules : Counter (Request SchedulesQuery υ) := {}
  jobCounts : Counter CountsQuery := {}
  deriving DecidableEq, Repr

/-- `selected` is the selection of the `ListState`, `0` for all job types. -/
structure JobTypeList where
  focused : Bool
  selected : Option Nat
  jobTypes : List JobTypeId
  deriving DecidableEq, Repr

/-- The highlighted job type, `None` on the entry for all of them. -/
def JobTypeList.selectedJobType (list : JobTypeList) : Option JobTypeId :=
  match list.selected with
  | some (index + 1) => list.jobTypes[index]?
  | _ => none

structure JobTable (J τ : Type) where
  focused : Bool := false
  selected : Option Nat := none
  jobs : List J := []
  nextPage : Option τ := none
  pages : Nat := 0
  incoming : List J := []
  extending : Bool := false
  shownNextPage : Option τ := none
  shownPages : Nat := 0
  deriving DecidableEq, Repr

structure ScheduleTable (S υ : Type) where
  focused : Bool := false
  selected : Option Nat := none
  schedules : List S := []
  nextPage : Option υ := none
  pages : Nat := 0
  incoming : List S := []
  deriving DecidableEq, Repr

structure ExecutorTable where
  selected : Option Nat := none
  executors : List ExecutorId := []
  deriving DecidableEq, Repr

/-- The outcome of the most recent background request. -/
structure Status where
  error : Option String := none
  updatedAt : Option Nat := none
  deriving DecidableEq, Repr

structure App (J S τ υ : Type) where
  running : Bool
  tab : Tab
  jobTypeList : JobTypeList
  jobTable : JobTable J τ
  scheduleTable : ScheduleTable S υ
  executorTable : ExecutorTable
  status : Status
  pending : Pending τ υ
  jobOrder : JobOrderBy
  scheduleOrder : ScheduleOrderBy
  editing : Option Editing
  labelFilters : Tab → List Char
  jobStatus : JobStatus
  scheduleStatus : ScheduleStatus
  jobSchedule : Option ScheduleId
  scheduleInput : List Char
  jobCounts : Option (List Nat)
  countedAt : Option Nat
  settlesAt : Option Nat

/-- How schedule IDs are read and written, and where a row has its own. -/
structure Ids (S : Type) where
  parse : List Char → Option ScheduleId
  toString : ScheduleId → List Char
  ofSchedule : S → List Char

/-- `usize::MAX` -/
def usizeMax : Nat := 2 ^ 64 - 1

def selectNext (selected : Option Nat) : Option Nat :=
  some (selected.elim 0 (· + 1))

def selectPrevious (selected : Option Nat) : Option Nat :=
  some (selected.elim usizeMax (· - 1))

namespace App

variable {J S τ υ : Type} (app : App J S τ υ) (now : Nat)

/-- What the jobs table is filtered by. -/
def jobsQuery : JobsQuery where
  jobType := app.jobTypeList.selectedJobType
  order := app.jobOrder
  status := app.jobStatus
  labelFilter := app.labelFilters .jobs
  schedule := app.jobSchedule

/-- What the schedules table is filtered by. -/
def schedulesQuery : SchedulesQuery where
  jobType := app.jobTypeList.selectedJobType
  order := app.scheduleOrder
  statuses := app.scheduleStatus.statuses
  labelFilter := app.labelFilters .schedules

def countsQuery : CountsQuery where
  jobType := app.jobTypeList.selectedJobType
  labelFilter := app.labelFilters .jobs
  schedule := app.jobSchedule

def updateJobs (pageToken : Option τ) : App J S τ υ :=
  { app with pending.jobs := app.pending.jobs.start ⟨app.jobsQuery, pageToken⟩ }

def updateSchedules (pageToken : Option υ) : App J S τ υ :=
  { app with pending.schedules := app.pending.schedules.start ⟨app.schedulesQuery, pageToken⟩ }

/-- Count the jobs by status, unless counted recently. -/
def fetchJobCounts : App J S τ υ :=
  let due := app.countedAt.all fun countedAt => decide (countInterval ≤ now - countedAt)
  if !due || !app.pending.jobCounts.idle || app.jobTypeList.selected.isNone then
    app
  else
    { app with
      countedAt := some now
      pending.jobCounts := app.pending.jobCounts.start app.countsQuery }

/-- Refreshing on the timer would drop every page loaded past the first ones. -/
def fetchJobs (force : Bool) : App J S τ υ :=
  if force || app.pending.jobs.idle && decide (app.jobTable.pages ≤ autoPages) then
    updateJobs { app with jobTable.extending := false } none
  else
    app

def fetchSchedules (force : Bool) : App J S τ υ :=
  if force || app.pending.schedules.idle && decide (app.scheduleTable.pages ≤ autoPages) then
    app.updateSchedules none
  else
    app

/-- Issue the requests the active tab needs. -/
def fetch (force : Bool) : App J S τ υ :=
  if app.settlesAt.isSome then
    app
  else
    match app.tab, app.jobTypeList.selected with
    | .jobs, some _ =>
        let app := app.fetchJobs force
        let app := if force then { app with countedAt := none } else app
        app.fetchJobCounts now
    | .schedules, some _ => app.fetchSchedules force
    | .executors, _ => app
    | .jobs, none =>
        { app with
          jobTable.jobs := []
          jobTable.incoming := []
          jobTable.nextPage := none }
    | .schedules, none =>
        { app with
          scheduleTable.schedules := []
          scheduleTable.incoming := []
          scheduleTable.nextPage := none }

/-- Discard what is in flight, whichever tab asked for it. -/
def invalidate : App J S τ υ :=
  { app with
    pending.jobs := app.pending.jobs.cancel
    pending.schedules := app.pending.schedules.cancel
    pending.jobCounts := app.pending.jobCounts.cancel
    jobCounts := none
    countedAt := none
    status.error := none }

def clearRows : Tab → App J S τ υ
  | .jobs =>
      { app with
        jobTable.jobs := []
        jobTable.incoming := []
        jobTable.nextPage := none
        jobTable.pages := 0
        jobTable.shownNextPage := none
        jobTable.shownPages := 0 }
  | .schedules =>
      { app with
        scheduleTable.schedules := []
        scheduleTable.incoming := []
        scheduleTable.nextPage := none
        scheduleTable.pages := 0 }
  | .executors => app

/-- Drop the rows of the active tab and fetch again. -/
def reload : App J S τ υ :=
  (app.invalidate.clearRows app.tab).fetch now true

/-- Drop the rows of both tabs and fetch again once the selection has settled. -/
def reloadJobType : App J S τ υ :=
  { (app.invalidate.clearRows .jobs).clearRows .schedules with
    settlesAt := some (now + settleInterval) }

/-- Scrolling past the rows on screen goes on from them, a refresh in flight
would only replace them. -/
def restoreShown : App J S τ υ :=
  if !app.pending.jobs.idle && !app.jobTable.extending then
    { app with
      pending.jobs := app.pending.jobs.cancel
      jobTable.incoming := app.jobTable.jobs
      jobTable.nextPage := app.jobTable.shownNextPage
      jobTable.pages := app.jobTable.shownPages
      jobTable.extending := true }
  else
    app

def requestMoreJobs : App J S τ υ :=
  if app.jobTable.nextPage.isNone || !app.pending.jobs.idle || app.jobTypeList.selected.isNone then
    app
  else
    app.updateJobs app.jobTable.nextPage

/-- Fetch the page after the rows already in the jobs table. -/
def loadMoreJobs : App J S τ υ :=
  app.restoreShown.requestMoreJobs

/-- Fetch the page after the rows already in the schedules table. -/
def loadMoreSchedules : App J S τ υ :=
  if app.scheduleTable.nextPage.isNone || !app.pending.schedules.idle ||
      app.jobTypeList.selected.isNone then
    app
  else
    app.updateSchedules app.scheduleTable.nextPage

def selectedTableLen : Nat :=
  match app.tab with
  | .jobs => app.jobTable.jobs.length
  | .schedules => app.scheduleTable.schedules.length
  | .executors => app.executorTable.executors.length

def selectedRow : Option Nat :=
  match app.tab with
  | .jobs => app.jobTable.selected
  | .schedules => app.scheduleTable.selected
  | .executors => app.executorTable.selected

def selectRow (row : Option Nat) : App J S τ υ :=
  match app.tab with
  | .jobs => { app with jobTable.selected := row }
  | .schedules => { app with scheduleTable.selected := row }
  | .executors => { app with executorTable.selected := row }

def tableFocused : Bool :=
  match app.tab with
  | .jobs => app.jobTable.focused
  | .schedules => app.scheduleTable.focused
  | .executors => true

def jobTypeSelected (previous new : Option Nat) : App J S τ υ :=
  if previous = new then
    app
  else
    reloadJobType
      { app with
        jobTable.selected := none
        scheduleTable.selected := none
        jobSchedule := none
        scheduleInput := [] }
      now

/-- Fetch the next page as the selection nears the end of the rows loaded. -/
def reachRow (row len : Nat) : App J S τ υ :=
  if row + pageAhead < len then
    app
  else
    match app.tab with
    | .jobs => app.loadMoreJobs
    | .schedules => app.loadMoreSchedules
    | .executors => app

/-- Past the last job type would be taken for the entry for all of them. -/
def moveJobType (forward : Bool) : App J S τ υ :=
  let previous := app.jobTypeList.selected
  let moved := if forward then selectNext previous else selectPrevious previous
  let last := app.jobTypeList.jobTypes.length
  let selected := moved.map (min · last)
  jobTypeSelected { app with jobTypeList.selected := selected } now previous selected

/-- The table clamps it only once drawn. -/
def moveRow (forward : Bool) : App J S τ υ :=
  let len := app.selectedTableLen
  let moved := if forward then selectNext app.selectedRow else selectPrevious app.selectedRow
  let row := moved.bind fun row => if len ≤ row then (if len = 0 then none else some (len - 1))
    else some row
  match row with
  | none => app.selectRow none
  | some row => (app.selectRow (some row)).reachRow row len

/-- Move the selection in whichever list has focus. -/
def moveSelection (forward : Bool) : App J S τ υ :=
  if app.jobTypeList.focused then app.moveJobType now forward else app.moveRow forward

/-- A focused table has a selected row to act on. -/
def focusRow (focused : Bool) : App J S τ υ :=
  if focused && app.selectedRow.isNone then app.selectRow (selectNext none) else app

def setTableFocused (focused : Bool) : App J S τ υ :=
  match app.tab with
  | .jobs => { app with jobTable.focused := focused }
  | .schedules => { app with scheduleTable.focused := focused }
  | .executors => app

def focusTable (requested : Bool) : App J S τ υ :=
  let focused := requested || decide (app.tab = .executors)
  focusRow { app.setTableFocused focused with jobTypeList.focused := !focused } focused

def syncFocus : App J S τ υ :=
  focusRow { app with jobTypeList.focused := !app.tableFocused } app.tableFocused

/-- Move to the next or previous tab.  What was asked for does not change, so a
request in flight is left to answer. -/
def switchTab (forward : Bool) : App J S τ υ :=
  fetch (syncFocus
    { app with
      tab := if forward then app.tab.next else app.tab.previous
      status.error := none }) now false

/-- Show the jobs of the highlighted schedule, or on the jobs tab type the
schedule they are narrowed to. -/
def scheduleJobs (ids : Ids S) : App J S τ υ :=
  match app.tab with
  | .jobs => { app with editing := some .schedule }
  | .executors => app
  | .schedules =>
      if app.tableFocused then
        match app.scheduleTable.selected.bind (app.scheduleTable.schedules[·]?) with
        | none => app
        | some schedule =>
            match ids.parse (ids.ofSchedule schedule) with
            | none => app
            | some scheduleId =>
                focusTable (reload
                  { app with
                    jobSchedule := some scheduleId
                    scheduleInput := ids.toString scheduleId
                    tab := .jobs
                    jobTable.selected := none } now) true
      else
        app

/-- `filter_input_mut`, edited. -/
def editInput (edit : List Char → List Char) : App J S τ υ :=
  match app.editing with
  | none => app
  | some .labels =>
      { app with
        labelFilters := Function.update app.labelFilters app.tab (edit (app.labelFilters app.tab)) }
  | some .schedule => { app with scheduleInput := edit app.scheduleInput }

/-- Stop typing into a filter and fetch the rows it narrows to. -/
def applyFilter (ids : Ids S) : Editing → App J S τ υ
  | .labels => reload { app with editing := none, status.error := none } now
  | .schedule =>
      let input := Cli.trim app.scheduleInput
      if input.isEmpty then
        reload { app with jobSchedule := none, editing := none, status.error := none } now
      else
        match ids.parse input with
        | some scheduleId =>
            reload { app with jobSchedule := some scheduleId, editing := none, status.error := none }
              now
        | none =>
            { app with status.error := some ("not a schedule ID: " ++ String.ofList input) }

/-- `Esc` while typing. -/
def dropFilter : Editing → App J S τ υ
  | .labels =>
      reload
        { app with
          editing := none
          labelFilters := Function.update app.labelFilters app.tab [] }
        now
  | .schedule => reload { app with editing := none, scheduleInput := [], jobSchedule := none } now

def nextStatus : App J S τ υ :=
  match app.tab with
  | .jobs => reload { app with jobStatus := app.jobStatus.next } now
  | .schedules => reload { app with scheduleStatus := app.scheduleStatus.next } now
  | .executors => app

/-- Only the schedules have an order of their own. -/
def nextOrder : App J S τ υ :=
  match app.tab with
  | .schedules => reload { app with scheduleOrder := nextScheduleOrder app.scheduleOrder } now
  | .jobs | .executors => reload { app with jobOrder := nextJobOrder app.jobOrder } now

end App

/-- The keys that reach the tables, or the filter being typed into. -/
inductive Key where
  | tab
  | backTab
  | up
  | down
  | left
  | right
  | enter
  | esc
  | backspace
  | char (c : Char)
  deriving DecidableEq, Repr

namespace App

variable {J S τ υ : Type} (app : App J S τ υ) (now : Nat) (ids : Ids S)

/-- A key while a filter is being typed into. -/
def onInputKey (editing : Editing) : Key → App J S τ υ
  | .esc => app.dropFilter now editing
  | .backspace => app.editInput List.dropLast
  | .enter => app.applyFilter now ids editing
  | .char c => app.editInput (· ++ [c])
  | _ => app

/-- A character that is bound to an action on the tables. -/
def onChar (c : Char) : App J S τ υ :=
  if c = 'q' then { app with running := false }
  else if c = 'r' ∨ c = 'R' then app.fetch now true
  else if c = 'a' ∨ c = 'A' then app.nextStatus now
  else if c = 'j' ∨ c = 'J' then app.scheduleJobs now ids
  else if c = 'l' ∨ c = 'L' then { app with editing := some .labels }
  else if c = 'o' ∨ c = 'O' then app.nextOrder now
  else app

/-- A key while no filter is being typed into. -/
def onTableKey : Key → App J S τ υ
  | .tab => app.switchTab now true
  | .backTab => app.switchTab now false
  | .up => app.moveSelection now false
  | .down => app.moveSelection now true
  | .left => app.focusTable false
  | .right => app.focusTable true
  | .esc => { app with running := false }
  | .enter => app
  | .backspace => app
  | .char c => app.onChar now ids c

def onKey (key : Key) : App J S τ υ :=
  match app.editing with
  | some editing => app.onInputKey now ids editing key
  | none => app.onTableKey now ids key

/-- Note that the server answered, whatever it was asked. -/
def answered : App J S τ υ :=
  { app with status.updatedAt := some now }

/-- The rows on screen just arrived, which settles an error on the way to them. -/
def dataUpdated : App J S τ υ :=
  answered { app with status.error := none } now

/-- The pages that have arrived, with a new one. -/
def receiveJobs (jobs : List J) (nextPage : Option τ) (append : Bool) : App J S τ υ :=
  { app with
    jobTable.incoming := if append then app.jobTable.incoming ++ jobs else jobs
    jobTable.pages := if append then app.jobTable.pages + 1 else 1
    jobTable.nextPage := nextPage }

/-- Whether another page follows without being asked for. -/
def moreJobs : Bool :=
  decide (app.jobTable.pages < autoPages) && app.jobTable.nextPage.isSome

/-- A refresh starts over at the first page, so the rows wait until no more are
on screen than arrived. -/
def showJobs : App J S τ υ :=
  if !app.moreJobs || decide (app.jobTable.jobs.length ≤ app.jobTable.incoming.length) then
    { app with
      jobTable.jobs := app.jobTable.incoming
      jobTable.extending := true
      jobTable.shownNextPage := app.jobTable.nextPage
      jobTable.shownPages := app.jobTable.pages }
  else
    app

/-- An accepted answer of `update_jobs`. -/
def jobsUpdated (jobs : List J) (nextPage : Option τ) (append : Bool) : App J S τ υ :=
  let finished := { app with pending.jobs := app.pending.jobs.finish }
  let received := finished.receiveJobs jobs nextPage append
  let shown := received.showJobs.dataUpdated now
  if received.moreJobs then shown.loadMoreJobs else shown

def receiveSchedules (schedules : List S) (nextPage : Option υ) (append : Bool) : App J S τ υ :=
  { app with
    scheduleTable.incoming :=
      if append then app.scheduleTable.incoming ++ schedules else schedules
    scheduleTable.pages := if append then app.scheduleTable.pages + 1 else 1
    scheduleTable.nextPage := nextPage }

def moreSchedules : Bool :=
  decide (app.scheduleTable.pages < autoPages) && app.scheduleTable.nextPage.isSome

def showSchedules : App J S τ υ :=
  if !app.moreSchedules || app.scheduleTable.schedules.isEmpty then
    { app with scheduleTable.schedules := app.scheduleTable.incoming }
  else
    app

/-- An accepted answer of `update_schedules`. -/
def schedulesUpdated (schedules : List S) (nextPage : Option υ) (append : Bool) : App J S τ υ :=
  let finished := { app with pending.schedules := app.pending.schedules.finish }
  let received := finished.receiveSchedules schedules nextPage append
  let shown := received.showSchedules.dataUpdated now
  if received.moreSchedules then shown.loadMoreSchedules else shown

/-- Where the selected job type is in a new list. -/
def movedJobType (jobTypes : List JobTypeId) : Option Nat :=
  match app.jobTypeList.selectedJobType with
  | none => app.jobTypeList.selected
  | some selected => (jobTypes.findIdx? (· == selected)).map (· + 1)

/-- The selection is an index, it has to follow the job type it was on. -/
def jobTypesUpdated (jobTypes : List JobTypeId) : App J S τ υ :=
  let listed := answered { app with jobTypeList.jobTypes := jobTypes } now
  match app.movedJobType jobTypes with
  | some moved => { listed with jobTypeList.selected := some moved }
  | none =>
      let selected := selectNext none
      jobTypeSelected { listed with jobTypeList.selected := selected } now none selected

def executorsUpdated (executors : List ExecutorId) : App J S τ υ :=
  let app := { app with executorTable.executors := executors }
  if app.tab = .executors then app.dataUpdated now else app.answered now

/-- An accepted failure. -/
def failed (error : String) : App J S τ υ :=
  { app with status.error := some error }

end App

/-- The answers name the task that sent them.  What the widgets make of the
selected rows when they are drawn is open. -/
inductive Event (J S τ υ : Type) where
  | key (key : Key)
  | paste (text : List Char)
  | jobTypesUpdated (jobTypes : List JobTypeId)
  | jobsUpdated (task : Nat) (jobs : List J) (nextPage : Option τ)
  | jobsFailed (task : Nat) (error : String)
  | schedulesUpdated (task : Nat) (schedules : List S) (nextPage : Option υ)
  | schedulesFailed (task : Nat) (error : String)
  | jobCountsUpdated (task : Nat) (counts : List Nat)
  | jobCountsFailed (task : Nat) (error : String)
  | executorsUpdated (executors : List ExecutorId)
  | failed (error : String)
  | created
  | refresh
  | tick
  | drawn (job schedule executor : Option Nat)

/-- `char::is_control` -/
def isControl (c : Char) : Bool :=
  decide (c.toNat < 0x20) || decide (0x7F ≤ c.toNat) && decide (c.toNat ≤ 0x9F)

namespace App

variable {J S τ υ : Type} (ids : Ids S)

/-- Whether the job type selection has just come to rest. -/
def settled (app : App J S τ υ) (now : Nat) : Bool :=
  app.settlesAt.any fun due => decide (due ≤ now)

/-- The next event of `handle_events`, at a time. -/
def step (app : App J S τ υ) : Nat × Event J S τ υ → Option (App J S τ υ)
  | (now, event) =>
      if app.running then
        match event with
        | .key key => some (app.onKey now ids key)
        | .paste text => some (app.editInput (· ++ text.filter fun c => !isControl c))
        | .jobTypesUpdated jobTypes => some (app.jobTypesUpdated now jobTypes)
        | .jobsUpdated task jobs nextPage => do
            let (token, request) ← app.pending.jobs.tasks[task]?
            let app := { app with pending.jobs := app.pending.jobs.ended task }
            return if app.pending.jobs.accepts token then
                app.jobsUpdated now jobs nextPage request.pageToken.isSome
              else app
        | .jobsFailed task error => do
            let (token, _) ← app.pending.jobs.tasks[task]?
            let app := { app with pending.jobs := app.pending.jobs.ended task }
            return if app.pending.jobs.accepts token then
                failed { app with pending.jobs := app.pending.jobs.finish } error
              else app
        | .schedulesUpdated task schedules nextPage => do
            let (token, request) ← app.pending.schedules.tasks[task]?
            let app := { app with pending.schedules := app.pending.schedules.ended task }
            return if app.pending.schedules.accepts token then
                app.schedulesUpdated now schedules nextPage request.pageToken.isSome
              else app
        | .schedulesFailed task error => do
            let (token, _) ← app.pending.schedules.tasks[task]?
            let app := { app with pending.schedules := app.pending.schedules.ended task }
            return if app.pending.schedules.accepts token then
                failed { app with pending.schedules := app.pending.schedules.finish } error
              else app
        | .jobCountsUpdated task counts => do
            let (token, _) ← app.pending.jobCounts.tasks[task]?
            let app := { app with pending.jobCounts := app.pending.jobCounts.ended task }
            return if app.pending.jobCounts.accepts token then
                answered
                  { app with
                    pending.jobCounts := app.pending.jobCounts.finish
                    jobCounts := some counts } now
              else app
        | .jobCountsFailed task error => do
            let (token, _) ← app.pending.jobCounts.tasks[task]?
            let app := { app with pending.jobCounts := app.pending.jobCounts.ended task }
            return if app.pending.jobCounts.accepts token then
                failed { app with pending.jobCounts := app.pending.jobCounts.finish } error
              else app
        | .executorsUpdated executors => some (app.executorsUpdated now executors)
        | .failed error => some (app.failed error)
        | .created => some (app.reload now)
        | .refresh => some (app.fetch now false)
        | .tick => some (if app.settled now then fetch { app with settlesAt := none } now true else app)
        | .drawn job schedule executor =>
            some { app with
              jobTable.selected := job
              scheduleTable.selected := schedule
              executorTable.selected := executor }
      else
        none

/-- `App::new` and the start of `run`, before the first event. -/
def start (now : Nat) : App J S τ υ :=
  let app : App J S τ υ :=
    { running := true
      tab := .jobs
      jobTypeList := ⟨true, some 0, []⟩
      jobTable := {}
      scheduleTable := {}
      executorTable := {}
      status := {}
      pending := {}
      jobOrder := .createdAtDesc
      scheduleOrder := .createdAtDesc
      editing := none
      labelFilters := fun _ => []
      jobStatus := .all
      scheduleStatus := .all
      jobSchedule := none
      scheduleInput := []
      jobCounts := none
      countedAt := none
      settlesAt := none }
  (app.reloadJobType now).fetch now true

end App

end Ora.Tui
