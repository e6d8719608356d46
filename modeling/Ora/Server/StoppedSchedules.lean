import Ora.Postgres.FilterMeaning
import Ora.Postgres.ScheduleLink
import Ora.Server.Attempts

/-!
# Stopped schedules

A request that stops schedules cancels their active jobs with a second call of
the backend.  A stopped schedule is not claimed by new jobs, and retries keep
the job of an active execution, so that the second call finds all of them.
-/

namespace Ora.Server

open Ora.Backend
open Ora.Library
open Ora.Postgres (Store Pick Operation Finishes AddsJobs JobInvariant ScheduleLink StatusesStored
  ScheduleRow JobRow ExecutionRow)

/-- The schedule was stopped, it may be deleted since. -/
structure Stopped (store : Store) (id : ScheduleId) : Prop where
  issued : id < store.nextUuid
  stopped : ∀ row ∈ store.schedules.rows, row.id = id → row.stoppedAt.isSome = true

/-- A stopped schedule without active jobs. -/
structure Quiet (store : Store) (id : ScheduleId) : Prop where
  stopped : Stopped store id
  inactive : ∀ job ∈ store.jobs.rows, job.scheduleId = some id → job.inactiveSince ≠ none

/-- The schedule has neither an active job nor an active execution. -/
structure NothingActive (store : Store) (id : ScheduleId) : Prop where
  free : ∀ row ∈ store.schedules.rows, row.id = id → row.activeJobId = none
  jobs : ∀ job ∈ store.jobs.rows, job.scheduleId = some id → job.inactiveSince ≠ none
  executions : ∀ job ∈ store.jobs.rows, job.scheduleId = some id →
    ∀ row ∈ store.executions.rows, row.jobId = job.id → row.active = false

section Finishes

variable {status : ExecutionStatus} {change : ExecutionRow → ExecutionRow}
  {mark : JobRow → JobRow} {free : ScheduleRow → ScheduleRow} {store after : Store}

theorem free_stoppedAt (effect : Finishes status change mark free store after) (row : ScheduleRow) :
    (free row).stoppedAt = row.stoppedAt := by
  by_cases freed : ∃ id, row.activeJobId = some id ∧ Postgres.settled store change id = true
  · obtain ⟨id, claimed, done⟩ := freed
    rw [effect.freed row id claimed done]
  · rw [effect.unfreed row fun id claimed => Bool.eq_false_iff.mpr fun done => freed ⟨id, claimed, done⟩]

end Finishes

namespace Stopped

variable {store after : Store} {id : ScheduleId}

theorem congr (stopped : Stopped store id)
    (rows : ∀ row ∈ after.schedules.rows, store.nextUuid ≤ row.id ∨
      ∃ before ∈ store.schedules.rows, before.id = row.id ∧
        (before.stoppedAt.isSome = true → row.stoppedAt.isSome = true))
    (next : store.nextUuid ≤ after.nextUuid) : Stopped after id := by
  refine ⟨Nat.lt_of_lt_of_le stopped.issued next, ?_⟩
  intro row member same
  rcases rows row member with fresh | ⟨before, present, sameId, kept⟩
  · exact absurd stopped.issued (Nat.not_lt.mpr (same ▸ fresh))
  · exact kept (stopped.stopped before present (sameId.trans same))

theorem step {operation : Operation} (stopped : Stopped store id)
    (done : operation.apply store = some after) : Stopped after id := by
  have unchanged : ∀ {rows : List ScheduleRow}, rows = store.schedules.rows → ∀ row ∈ rows,
      store.nextUuid ≤ row.id ∨ ∃ before ∈ store.schedules.rows, before.id = row.id ∧
        (before.stoppedAt.isSome = true → row.stoppedAt.isSome = true) := by
    rintro rows rfl row member
    exact .inr ⟨row, member, rfl, fun kept => kept⟩
  have finishes : ∀ {status change mark free}, Finishes status change mark free store after →
      Stopped after id := by
    intro status change mark free effect
    refine stopped.congr ?_ (Nat.le_of_eq effect.nextUuid.symm)
    rw [effect.schedules, List.forall_mem_map]
    intro row member
    refine .inr ⟨row, member, (effect.free_keeps row).1.symm, fun kept => ?_⟩
    rwa [free_stoppedAt effect]
  cases operation with
  | addJobs now pick jobs ifNotExists =>
      obtain ⟨⟨_, result⟩, added, rfl⟩ := Option.map_eq_some_iff.mp done
      obtain ⟨_, _, _, effect⟩ := Postgres.addJobs_adds added
      refine stopped.congr ?_ effect.nextUuid
      rw [effect.schedules, List.forall_mem_map]
      intro row member
      rcases effect.claims row member with kept | ⟨job, _, _, _, _, claimed⟩
      · rw [kept]
        exact unchanged rfl row member
      · rw [claimed]
        exact .inr ⟨row, member, rfl, fun kept => kept⟩
  | addSchedules now schedules ifNotExists =>
      obtain ⟨⟨_, result⟩, added, rfl⟩ := Option.map_eq_some_iff.mp done
      obtain ⟨new, effect⟩ := Postgres.addSchedules_adds added
      refine stopped.congr ?_ effect.nextUuid
      intro row member
      rw [effect.schedules, List.mem_append] at member
      rcases member with old | fresh
      · exact unchanged rfl row old
      · exact .inl (effect.fresh row fresh).1
  | stopSchedules now filters =>
      cases done
      refine stopped.congr ?_ (Nat.le_refl _)
      simp only [Postgres.stopSchedules, Store.modifySchedules, Table.modify_rows,
        List.forall_mem_map]
      intro row member
      refine .inr ⟨row, member, (Postgres.stopRow_id _ _ row).symm, fun kept => ?_⟩
      unfold Postgres.stopRow
      split
      · rfl
      · exact kept
  | executionsStarted pick executions =>
      cases done
      have effect := Postgres.executionsStarted_starts store pick executions
      exact stopped.congr (unchanged (by rw [effect.schedules])) (Nat.le_of_eq effect.nextUuid.symm)
  | executionsSucceeded pick executions =>
      cases done
      obtain ⟨_, _, effect⟩ := Postgres.executionsSucceeded_finishes store pick executions
      exact finishes effect
  | executionsFailed pick executions =>
      cases done
      obtain ⟨_, _, effect⟩ := Postgres.executionsFailed_finishes store pick executions
      exact finishes effect
  | executionsRetried now pick executions =>
      obtain ⟨_, effect⟩ := Postgres.executionsRetried_retries done
      exact stopped.congr (unchanged (by rw [effect.schedules]))
        (by rw [effect.nextUuid]; exact Nat.le_add_right ..)
  | cancelJobs now systemNow pick filters =>
      cases done
      obtain ⟨_, _, _, effect⟩ := Postgres.cancelJobs_finishes store now systemNow pick filters
      exact finishes effect
  | deleteHistory deleteBatchSize before =>
      cases done
      refine Postgres.deleteHistory_preserves (P := fun store => Stopped store id) ?_ ?_ ?_
        deleteBatchSize before stopped
      · exact fun store doomed stopped _ => ⟨stopped.issued, stopped.stopped⟩
      · exact fun store doomed stopped _ => ⟨stopped.issued, fun row member =>
          stopped.stopped row (List.mem_filter.mp member).1⟩
      · exact fun store table stopped => ⟨stopped.issued, stopped.stopped⟩

end Stopped

namespace Quiet

variable {store after : Store} {id : ScheduleId}

/-- New jobs of a stopped schedule are not added, and jobs do not become active
again. -/
theorem step {operation : Operation} (quiet : Quiet store id)
    (done : operation.apply store = some after) : Quiet after id := by
  refine ⟨quiet.stopped.step done, ?_⟩
  have finishes : ∀ {status change mark free}, Finishes status change mark free store after →
      ∀ job ∈ after.jobs.rows, job.scheduleId = some id → job.inactiveSince ≠ none := by
    intro status change mark free effect
    rw [effect.jobs, List.forall_mem_map]
    intro job member scheduled active
    rw [(effect.mark_keeps job).2] at scheduled
    rw [(effect.mark_active active).1] at active
    exact quiet.inactive job member scheduled active
  have unchanged : after.jobs = store.jobs →
      ∀ job ∈ after.jobs.rows, job.scheduleId = some id → job.inactiveSince ≠ none := by
    intro same
    rw [same]
    exact quiet.inactive
  cases operation with
  | addJobs now pick jobs ifNotExists =>
      obtain ⟨⟨_, result⟩, added, rfl⟩ := Option.map_eq_some_iff.mp done
      obtain ⟨newJobs, _, claim, effect⟩ := Postgres.addJobs_adds added
      intro job member scheduled
      rw [effect.jobs, List.mem_append] at member
      rcases member with old | new
      · exact quiet.inactive job old scheduled
      · obtain ⟨row, present, same, running, _⟩ := effect.claimed job new id scheduled
        have stopped := quiet.stopped.stopped row present same
        rw [running] at stopped
        cases stopped
  | addSchedules now schedules ifNotExists =>
      obtain ⟨⟨_, result⟩, added, rfl⟩ := Option.map_eq_some_iff.mp done
      obtain ⟨_, effect⟩ := Postgres.addSchedules_adds added
      exact unchanged effect.jobs
  | stopSchedules now filters =>
      cases done
      exact unchanged rfl
  | executionsStarted pick executions =>
      cases done
      exact unchanged (Postgres.executionsStarted_starts store pick executions).jobs
  | executionsSucceeded pick executions =>
      cases done
      obtain ⟨_, _, effect⟩ := Postgres.executionsSucceeded_finishes store pick executions
      exact finishes effect
  | executionsFailed pick executions =>
      cases done
      obtain ⟨_, _, effect⟩ := Postgres.executionsFailed_finishes store pick executions
      exact finishes effect
  | executionsRetried now pick executions =>
      obtain ⟨_, effect⟩ := Postgres.executionsRetried_retries done
      exact unchanged effect.jobs
  | cancelJobs now systemNow pick filters =>
      cases done
      obtain ⟨_, _, _, effect⟩ := Postgres.cancelJobs_finishes store now systemNow pick filters
      exact finishes effect
  | deleteHistory deleteBatchSize before =>
      cases done
      refine Postgres.deleteHistory_preserves (P := fun store => ∀ job ∈ store.jobs.rows,
        job.scheduleId = some id → job.inactiveSince ≠ none) ?_ (fun _ _ inactive _ => inactive)
        (fun _ _ inactive => inactive) deleteBatchSize before quiet.inactive
      exact fun _ _ inactive _ job member => inactive job (List.mem_filter.mp member).1

/-- The active jobs of a schedule are selected when its jobs are cancelled. -/
theorem selected_of_active {ids : List ScheduleId} (named : id ∈ ids) (jobs : JobInvariant store)
    (stored : StatusesStored store) (now : Time) {job : JobRow} (member : job ∈ store.jobs.rows)
    (scheduled : job.scheduleId = some id) (active : job.inactiveSince = none) :
    job.id ∈ Postgres.selectJobIds store now
      { scheduleIds := some ids, executionStatuses := some [.inProgress, .pending] } := by
  obtain ⟨row, present, same, running⟩ := (jobs.running job member).mp active
  have status : row.status ∈ [.inProgress, .pending] := by
    rcases (ExecutionRow.active_iff_status row).mp running with pending | inProgress
    · simp [pending]
    · simp [inProgress]
  have unmarked := stored.unmarked job member active
  refine (Postgres.mem_selectJobIds stored (by simp) member).mpr ⟨?_, by constructor <;> rintro _ ⟨⟩⟩
  refine ⟨by rintro _ ⟨⟩, by rintro _ ⟨⟩, ?_, ?_, by simp, by simp, ?_, by rintro _ ⟨⟩, by rintro _ ⟨⟩⟩
  · rintro (given | given) <;> cases given
  · exact fun _ => ⟨row.status, status,
      .inr ⟨unmarked, row, present, same, running, rfl, fun _ => by rintro _ ⟨⟩⟩⟩
  · rintro _ ⟨⟩
    exact ⟨id, scheduled, named⟩

/-- Cancelling the jobs of stopped schedules leaves none of them active. -/
theorem of_cancelJobs {ids : List ScheduleId} (stopped : Stopped store id) (named : id ∈ ids)
    (jobs : JobInvariant store) (stored : StatusesStored store) (now systemNow : Time)
    (pick : Pick) :
    Quiet (Postgres.PostgresBackend.cancelJobs store now systemNow pick
      { scheduleIds := some ids }).1 id := by
  have applied : (Operation.cancelJobs now systemNow pick { scheduleIds := some ids }).apply store =
    some (Postgres.PostgresBackend.cancelJobs store now systemNow pick
      { scheduleIds := some ids }).1 := rfl
  refine ⟨stopped.step applied, ?_⟩
  have cancelled : Postgres.cancelStatuses { scheduleIds := some ids } =
    some [.inProgress, .pending] := rfl
  obtain ⟨mark, free, effect⟩ := Postgres.cancelJobs_cancels store now systemNow pick
    { scheduleIds := some ids } cancelled
  rw [effect.jobs, List.forall_mem_map]
  intro job member scheduled active
  obtain ⟨kept, unsettled⟩ := effect.mark_active active
  rw [kept] at scheduled active
  have selected := selected_of_active named jobs stored now member scheduled active
  obtain ⟨row, present, same, running⟩ := (jobs.running job member).mp active
  have chosen : Postgres.cancelSelected (Postgres.selectJobIds store now
      { scheduleIds := some ids, executionStatuses := some [.inProgress, .pending] }) row = true := by
    rw [Postgres.cancelSelected, same, running, Bool.and_true]
    exact List.contains_iff_mem.mpr selected
  exact Bool.eq_false_iff.mp unsettled
    ((Postgres.cancelTwice_settled ..).mpr (.inl ⟨row, present, same, chosen⟩))

end Quiet

theorem stopped_of_stopSchedules {store : Store} (link : ScheduleLink store) (now : Time)
    (filters : ScheduleFilters) {id : ScheduleId}
    (named : id ∈ (Postgres.stopSchedules store now filters).2) :
    Stopped (Postgres.stopSchedules store now filters).1 id := by
  simp only [Postgres.stopSchedules, List.mem_map, List.mem_filter] at named ⊢
  obtain ⟨row, ⟨member, selected⟩, rfl⟩ := named
  refine ⟨link.issuedSchedules row member, ?_⟩
  simp only [Store.modifySchedules, Table.modify_rows, List.forall_mem_map]
  intro other _ same
  rw [Postgres.stopRow_id] at same
  rw [Postgres.stopRow, same, if_pos selected]
  rfl

/-- The schedules of the requests that are about to cancel jobs are stopped. -/
structure StopInvariant (server : ServerState) : Prop where
  base : BudgetInvariant server
  link : ScheduleLink server.store
  statuses : StatusesStored server.store
  requests : ∀ schedules, .stopped schedules ∈ server.requests →
    ∀ id ∈ schedules, Stopped server.store id

namespace StopInvariant

variable {server after : ServerState} {action : Action}

theorem initial : StopInvariant .initial where
  base := .initial
  link := .empty
  statuses := .empty
  requests := by simp [ServerState.initial]

theorem stopped_step {id : ScheduleId} (stopped : Stopped server.store id)
    (done : server.step action = some after) : Stopped after.store id := by
  rcases ServerState.step_operation done with same | ⟨operation, _, applied⟩
  · rwa [same]
  · exact stopped.step applied

/-- The requests waiting after a step waited before, or name schedules it stopped. -/
theorem requests_step (inv : StopInvariant server) (done : server.step action = some after) :
    ∀ schedules, .stopped schedules ∈ after.requests →
      .stopped schedules ∈ server.requests ∨ ∀ id ∈ schedules, Stopped after.store id := by
  intro schedules waiting
  cases action with
  | cancelJobs now systemNow pick filters =>
      cases done
      simp only [ServerState.cancelJobs, List.mem_append, List.mem_singleton, reduceCtorEq,
        or_false] at waiting
      exact .inl waiting
  | stopSchedules now filters cancelActiveJobs =>
      cases done
      dsimp only at waiting
      split at waiting
      · rw [List.mem_append, List.mem_singleton] at waiting
        rcases waiting with old | new
        · exact .inl old
        · cases new
          exact .inr fun id named => stopped_of_stopSchedules inv.link now filters named
      · exact .inl waiting
  | cancelStopped index now systemNow pick =>
      obtain ⟨_, _, rfl⟩ := ServerState.step_cancelStopped done
      simp only [ServerState.cancelJobs, List.mem_append, List.mem_singleton, reduceCtorEq,
        or_false] at waiting
      exact .inl (List.mem_of_mem_eraseIdx waiting)
  | cancelRequested index =>
      obtain ⟨_, _, rfl⟩ := ServerState.step_cancelRequested done
      exact .inl (List.mem_of_mem_eraseIdx waiting)
  | _ =>
      rw [(ServerState.step_loops done).2.2.2.2 rfl] at waiting
      exact .inl waiting

theorem step (inv : StopInvariant server) (once : action.retriesOnce server)
    (done : server.step action = some after) : StopInvariant after := by
  refine ⟨inv.base.step once done, ?_, ?_, ?_⟩
  · rcases ServerState.step_operation done with same | ⟨operation, _, applied⟩
    · rw [same]
      exact inv.link
    · exact inv.link.step applied
  · rcases ServerState.step_operation done with same | ⟨operation, performed, applied⟩
    · rw [same]
      exact inv.statuses
    · exact inv.statuses.step (ServerState.operation_sound inv.base.attempts performed).1 applied
  · intro schedules waiting id named
    rcases inv.requests_step done schedules waiting with old | new
    · exact stopped_step (inv.requests schedules old id named) done
    · exact new id named

/-- The second call of a request leaves its schedules without active jobs. -/
theorem quiet_of_cancelStopped (inv : StopInvariant server) {index : Nat}
    {schedules : List ScheduleId} (waiting : server.requests[index]? = some (.stopped schedules))
    {now systemNow : Time} {pick : Pick}
    (done : server.step (.cancelStopped index now systemNow pick) = some after) :
    ∀ id ∈ schedules, Quiet after.store id := by
  intro id named
  obtain ⟨_, found, rfl⟩ := ServerState.step_cancelStopped done
  cases waiting.symm.trans found
  have stopped := inv.requests schedules (List.mem_of_getElem? waiting) id named
  exact .of_cancelJobs stopped named inv.base.jobs inv.statuses now systemNow pick

theorem quiet_step {id : ScheduleId} (quiet : Quiet server.store id)
    (done : server.step action = some after) : Quiet after.store id := by
  rcases ServerState.step_operation done with same | ⟨operation, _, applied⟩
  · rwa [same]
  · exact quiet.step applied

theorem nothing_active (inv : StopInvariant server) {id : ScheduleId}
    (quiet : Quiet server.store id) : NothingActive server.store id where
  free row member same := by
    cases claimed : row.activeJobId with
    | none => rfl
    | some active =>
        obtain ⟨job, present, _, scheduled, running⟩ := inv.link.linked row member active claimed
        exact absurd running (quiet.inactive job present (same ▸ scheduled))
  jobs := quiet.inactive
  executions job member scheduled row present same :=
    inv.base.jobs.not_active member (quiet.inactive job member scheduled) present same

end StopInvariant

/-- In every run whose batches retry a job through one entry, the schedules of
a request that stops schedules and cancels their jobs have no active job and no
active execution from its second call on. -/
theorem stopped_schedules_quiet {server after later : ServerState}
    (before : Reaches ServerState.step (fun server action => action.retriesOnce server)
      .initial server)
    {index : Nat} {schedules : List ScheduleId}
    (waiting : server.requests[index]? = some (.stopped schedules))
    {now systemNow : Time} {pick : Pick}
    (done : server.step (.cancelStopped index now systemNow pick) = some after)
    (run : Reaches ServerState.step (fun server action => action.retriesOnce server)
      after later) :
    ∀ id ∈ schedules, NothingActive later.store id := by
  intro id named
  have inv : StopInvariant server :=
    before.invariant (fun _ _ _ inv once done => inv.step once done) .initial
  have once : (Action.cancelStopped index now systemNow pick).retriesOnce server := by
    intro operation performed
    simp only [Action.operation, waiting, Option.mem_def, Option.some.injEq] at performed
    cases performed
    trivial
  have invLater : StopInvariant later :=
    run.invariant (fun _ _ _ inv once done => inv.step once done) (inv.step once done)
  have quiet : Quiet later.store id := by
    clear invLater
    induction run with
    | refl => exact inv.quiet_of_cancelStopped waiting done id named
    | tail _ _ taken ih => exact StopInvariant.quiet_step ih taken
  exact invLater.nothing_active quiet

/-- A job of the schedule `0` is offered to an executor, which accepts it as `2`. -/
def assignedScheduled : List Action :=
  [.addSchedules 0 [Postgres.everySecond] none,
    .addJobs 0 (fun _ => 0) [{ Postgres.plainJob 2 with scheduleId := some 0 }] none, .connect,
    .message 0 0 (.capabilities false (some [("type", 1)])),
    .startPass, .readClock, .fetchReady 0, .offer 0 fun _ => 0, .checkCapacity]

/-- The request reports the schedule, and has not cancelled its jobs yet. -/
def stopsFirst (server : ServerState) : Bool :=
  match server.requests with
  | [.stopped schedules] => schedules == [0]
  | _ => false

theorem requests_of_stopsFirst {server : ServerState} (stops : stopsFirst server = true) :
    server.requests[0]? = some (.stopped [0]) := by
  unfold stopsFirst at stops
  split at stops
  · rename_i waiting
    rw [waiting, beq_iff_eq.mp stops]
    rfl
  · cases stops

theorem stopped_schedules_quiet_started :
    ∃ server after, Reaches ServerState.step (fun server action => action.retriesOnce server)
        .initial server ∧
      server.step (.cancelStopped 0 1 1 fun _ => 0) = some after ∧
      server.store.jobs.rows.map JobRow.inactiveSince = [none] ∧ NothingActive after.store 0 := by
  obtain ⟨server, run, checked⟩ := exists_reaches_of_execute ServerState.step
    (fun server action => action.retriesOnce server) .initial
    (assignedScheduled ++ startAccepted ++ [.stopSchedules 1 {} true])
    (fun server => stopsFirst server && server.store.jobs.rows.map JobRow.inactiveSince == [none])
    (by decide)
  rw [Bool.and_eq_true, beq_iff_eq] at checked
  have waiting := requests_of_stopsFirst checked.1
  have done : server.step (.cancelStopped 0 1 1 fun _ => 0) =
      some ({ server with requests := server.requests.eraseIdx 0 }.cancelJobs 1 1 (fun _ => 0)
        { scheduleIds := some [0] }) := by
    simp only [ServerState.step, waiting]
  exact ⟨server, _, run, done, checked.2,
    stopped_schedules_quiet run waiting done .refl 0 (List.mem_singleton.mpr rfl)⟩

/-- Another executor runs the retry `3`, which fails. -/
def failRetry : List Action :=
  [.connect, .message 1 1 (.capabilities false (some [("type", 1)])), .startPass, .readClock,
      .fetchReady 1, .offer 1 fun _ => 0, .checkCapacity] ++
    startAccepted ++ [.message 1 2 (.executionFailed 3 .absent "failed")]

/-- Both executions of the job start, and the first of them succeeds. -/
def finishFirst : List Action :=
  [.connect, .message 2 3 (.capabilities false (some [("type", 2)])), .startPass, .readClock,
    .fetchReady 3, .offer 3 fun id => id, .checkCapacity, .takeStarts 2,
    .commitStarts (fun _ => 0) true, .recordStarts, .message 1 3 (.executionSucceeded 4 .absent "{}"),
    .takeEvents 1 (fun _ _ => 3) fun _ => none, .stopWaiting, .commitSucceeded (fun _ => 3) (fun _ => 0) true]

def finishedBetween : List Action :=
  assignedScheduled ++ startAccepted ++ retryOrphaned ++ failRetry ++ retryResults 2 ++
    finishFirst ++ [.stopSchedules 4 {} true]

theorem NothingActive.inactive {store : Store} {id : ScheduleId} (nothing : NothingActive store id) :
    (store.jobs.rows.any fun job => job.scheduleId == some id &&
      store.executions.rows.any fun row => row.jobId == job.id && row.active) = false := by
  rw [Bool.eq_false_iff]
  intro found
  obtain ⟨job, member, both⟩ := List.any_eq_true.mp found
  rw [Bool.and_eq_true, beq_iff_eq, List.any_eq_true] at both
  obtain ⟨scheduled, row, present, running⟩ := both
  rw [Bool.and_eq_true, beq_iff_eq] at running
  have inactive := nothing.executions job member scheduled row present running.1
  rw [running.2] at inactive
  cases inactive

theorem finishedBetween_not_quiet :
    ¬∀ server after later, Reaches ServerState.step (fun _ _ => True) .initial server →
      ∀ index schedules now systemNow pick, server.requests[index]? = some (.stopped schedules) →
        server.step (.cancelStopped index now systemNow pick) = some after →
        Reaches ServerState.step (fun _ _ => True) after later →
        ∀ id ∈ schedules, NothingActive later.store id := by
  intro claim
  obtain ⟨server, run, checked⟩ := exists_reaches_of_execute ServerState.step (fun _ _ => True)
    .initial finishedBetween
    (fun server => stopsFirst server && (server.step (.cancelStopped 0 4 4 fun _ => 0)).any
      fun after => after.store.jobs.rows.any fun job => job.scheduleId == some 0 &&
        after.store.executions.rows.any fun row => row.jobId == job.id && row.active) (by decide)
  rw [Bool.and_eq_true, Option.any_eq_true] at checked
  obtain ⟨stops, after, done, running⟩ := checked
  have nothing := claim server after after run 0 [0] 4 4 _ (requests_of_stopsFirst stops) done .refl
    0 (List.mem_singleton.mpr rfl)
  rw [nothing.inactive] at running
  cases running

end Ora.Server
