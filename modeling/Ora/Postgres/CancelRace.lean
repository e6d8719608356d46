import Ora.Library.ReadCommitted
import Ora.Postgres.FilterMeaning
import Ora.Postgres.IfNotExists

/-!
# Cancelling jobs while executions are retried

One `cancel_jobs` transaction and any number of `executions_started` and
`executions_retried` transactions, statement by statement.  The update of
`cancel_jobs` is repeated once: the second time it finds the execution that was
added by a retry that the first update waited for.  It does not find the one
that is added by a retry that the second update waits for.
-/

namespace Ora.Postgres

open Ora.Backend
open Ora.Library
open Ora.Library.VersionedTable (Keeps)

inductive Tx where
  | cancel
  | writer (id : Nat)
  deriving DecidableEq

abbrev ExecutionVersions := VersionedTable ExecutionId Tx ExecutionRow

/-- The other transactions that change active executions. -/
inductive WriterCall where
  | executionsStarted (pick : Pick) (executions : List StartedExecution)
  | executionsRetried (pick : Pick) (executions : List RetriedExecution)

namespace WriterCall

/-- The update of a call, on one row. -/
def update : WriterCall → ExecutionRow → Option ExecutionRow
  | .executionsStarted pick executions, row =>
      (Table.returned executions PostgresBackend.startable PostgresBackend.setStarted
        (fun row => pick row.id) row).map Prod.fst
  | .executionsRetried pick executions, row =>
      (Table.returned (executions.map fun execution => execution.failedExecution)
        (fun row execution => finishable execution.executionId row) setFailed
        (fun row => pick row.id) row).map Prod.fst

/-- The executions that are added after the update returned its rows. -/
def newExecutions (returned : List ExecutionRow) : WriterCall → List NewExecution
  | .executionsStarted _ _ => []
  | .executionsRetried _ executions =>
      PostgresBackend.retained
        (returned.map fun row => (row.jobId, systemtimeFromTs (row.failedAt.getD 0)))
        (executions.map fun execution =>
          ⟨execution.failedExecution.jobId, execution.retryExecutionTime⟩)

end WriterCall

/-- An open transaction: what its update still has to visit and has returned,
and the rows it inserted afterwards. -/
structure Writer where
  call : WriterCall
  targets : List ExecutionId
  returned : List ExecutionRow
  inserted : Option (List ExecutionRow)

/-- The jobs of failed executions for which no new execution was added. -/
def Writer.finished (writer : Writer) : List JobId :=
  ((writer.returned.filter fun row => !row.active).map fun row => row.jobId).filter fun job =>
    !((writer.inserted.getD []).any fun row => row.jobId == job)

inductive CancelPhase where
  | waiting
  | begun
  | updating (repeated : Bool) (targets : List ExecutionId)
  | committed
  deriving DecidableEq

/-- A `cancel_jobs` call and the jobs it meets, which the others do not change. -/
structure CancelRace where
  store : Store
  /-- `NOW()` of the transaction. -/
  now : Time
  filters : JobFilters

structure RaceState where
  executions : ExecutionVersions
  nextUuid : Uuid
  writers : Nat → Option Writer
  phase : CancelPhase
  /-- The rows returned by the updates so far. -/
  cancelled : List CancelledJob
  /-- The matching jobs with an active execution at the start of `cancel_jobs`. -/
  wanted : List JobId
  /-- The jobs finished by others since then. -/
  finished : List JobId

inductive RaceAction where
  | start (id : Nat) (call : WriterCall)
  | visit (id : Nat) (execution : ExecutionId)
  | insert (id : Nat) (now : Time)
  | commit (id : Nat)
  | rollback (id : Nat)
  | cancelStart
  | cancelUpdate
  | cancelVisit (execution : ExecutionId)
  | cancelCommit

namespace CancelRace

def activeFilters (race : CancelRace) : JobFilters :=
  { race.filters with executionStatuses := cancelStatuses race.filters }

/-- The jobs selected by the subquery of the update. -/
def ids (race : CancelRace) : List JobId :=
  selectJobIds race.store race.now race.activeFilters

def initial (race : CancelRace) : RaceState where
  executions :=
    { keys := race.store.executions.rows.map ExecutionRow.id
      rows := fun id => ⟨race.store.executions.find? id, none⟩ }
  nextUuid := race.store.nextUuid
  writers := fun _ => none
  phase := .waiting
  cancelled := []
  wanted := []
  finished := []

/-- The update of `cancel_jobs`, on one row. -/
def update (race : CancelRace) (row : ExecutionRow) : Option ExecutionRow :=
  if cancelSelected race.ids row then some (cancelRow race.ids race.now row) else none

def hasActive (executions : ExecutionVersions) (job : JobId) : Bool :=
  executions.keys.any fun id =>
    (executions.rows id).committed.any fun row => row.jobId == job && row.active

def cancelledJob (race : CancelRace) (row : ExecutionRow) : CancelledJob :=
  ⟨row.jobId, row.id, jobTypeOf race.store row.jobId⟩

def step (race : CancelRace) (state : RaceState) : RaceAction → Option RaceState
  | .start id call =>
      match state.writers id with
      | some _ => none
      | none =>
          some { state with
            writers := Function.update state.writers id
              (some ⟨call, state.executions.targets (.writer id) call.update, [], none⟩) }
  | .visit id execution =>
      match state.writers id with
      | none => none
      | some writer =>
          if execution ∈ writer.targets then
            (state.executions.visit (.writer id) writer.call.update execution).map fun visited =>
              { state with
                executions := visited.1
                writers := Function.update state.writers id (some { writer with
                  targets := writer.targets.filter fun target => target != execution
                  returned := writer.returned ++ visited.2.toList }) }
          else
            none
  | .insert id now =>
      match state.writers id with
      | some ⟨call, [], returned, none⟩ =>
          let new := call.newExecutions returned
          let rows := newExecutionRows race.store now (List.range' state.nextUuid new.length) new
          some { state with
            executions := state.executions.insert (.writer id) ExecutionRow.id rows
            nextUuid := state.nextUuid + new.length
            writers := Function.update state.writers id (some ⟨call, [], returned, some rows⟩) }
      | _ => none
  | .commit id =>
      match state.writers id with
      | some ⟨call, [], returned, some inserted⟩ =>
          some { state with
            executions := state.executions.commit (.writer id)
            writers := Function.update state.writers id none
            finished := state.finished ++ Writer.finished ⟨call, [], returned, some inserted⟩ }
      | _ => none
  | .rollback id =>
      match state.writers id with
      | none => none
      | some _ =>
          some { state with
            executions := state.executions.rollback (.writer id)
            writers := Function.update state.writers id none }
  | .cancelStart =>
      match state.phase with
      | .waiting =>
          some { state with
            phase := .begun
            wanted := (selectJobIds race.store race.now race.filters).filter
              (hasActive state.executions)
            finished := [] }
      | _ => none
  | .cancelUpdate =>
      match state.phase with
      | .begun =>
          some { state with phase := .updating false (state.executions.targets .cancel race.update) }
      | .updating false [] =>
          some { state with phase := .updating true (state.executions.targets .cancel race.update) }
      | _ => none
  | .cancelVisit execution =>
      match state.phase with
      | .updating repeated targets =>
          if execution ∈ targets then
            (state.executions.visit .cancel race.update execution).map fun visited =>
              { state with
                executions := visited.1
                phase := .updating repeated (targets.filter fun target => target != execution)
                cancelled := state.cancelled ++ visited.2.toList.map race.cancelledJob }
          else
            none
      | _ => none
  | .cancelCommit =>
      match state.phase with
      | .updating true [] =>
          some { state with
            executions := state.executions.commit .cancel
            phase := .committed }
      | _ => none

/-- What `cancel_jobs` returns. -/
def returned (state : RaceState) : List CancelledJob :=
  firstPerJob [] state.cancelled

end CancelRace

theorem WriterCall.update_spec {call : WriterCall} {old row : ExecutionRow}
    (changed : call.update old = some row) :
    old.active = true ∧ row.id = old.id ∧ row.jobId = old.jobId := by
  cases call with
  | executionsStarted pick executions =>
      obtain ⟨_, applied, rfl⟩ := Option.map_eq_some_iff.mp changed
      obtain ⟨entry, chosen, rfl⟩ := Option.map_eq_some_iff.mp applied
      exact ⟨(setStarted_status (Table.chosen_some chosen).2).1, rfl, rfl⟩
  | executionsRetried pick executions =>
      obtain ⟨_, applied, rfl⟩ := Option.map_eq_some_iff.mp changed
      obtain ⟨entry, chosen, rfl⟩ := Option.map_eq_some_iff.mp applied
      have matching := (Table.chosen_some chosen).2
      simp only [finishable, Bool.and_eq_true] at matching
      exact ⟨matching.2, rfl, rfl⟩

/-- New executions are added for jobs of returned rows. -/
theorem WriterCall.mem_newExecutions {call : WriterCall} {returned : List ExecutionRow}
    {new : NewExecution} (member : new ∈ call.newExecutions returned) :
    ∃ row ∈ returned, row.jobId = new.jobId := by
  cases call with
  | executionsStarted pick executions => cases member
  | executionsRetried pick executions =>
      have known := (List.mem_filter.mp member).2
      simpa using known

theorem mem_newExecutionRows {store : Store} {now : Time} {ids : List ExecutionId}
    {executions : List NewExecution} {row : ExecutionRow}
    (member : row ∈ newExecutionRows store now ids executions) :
    row.active = true ∧ row.id ∈ ids ∧ ∃ new ∈ executions, new.jobId = row.jobId := by
  obtain ⟨⟨id, new⟩, paired, made⟩ := List.mem_filterMap.mp member
  obtain ⟨job, found, rfl⟩ := Option.map_eq_some_iff.mp made
  obtain ⟨known, listed⟩ := List.of_mem_zip paired
  exact ⟨rfl, known, new, listed, ((store.jobs.find?_eq_some_iff _ _).mp found).2.symm⟩

theorem newExecutionRows_distinct (store : Store) (now : Time) {ids : List ExecutionId}
    (distinct : ids.Nodup) (executions : List NewExecution) :
    ((newExecutionRows store now ids executions).map ExecutionRow.id).Nodup := by
  induction ids generalizing executions with
  | nil => simp [newExecutionRows]
  | cons id ids ih =>
      rw [List.nodup_cons] at distinct
      cases executions with
      | nil => simp [newExecutionRows]
      | cons new executions =>
          have rest := ih distinct.2 executions
          unfold newExecutionRows at rest ⊢
          rw [List.zip_cons_cons, List.filterMap_cons]
          cases store.jobs.find? new.jobId with
          | none => exact rest
          | some job =>
              refine List.nodup_cons.mpr ⟨fun again => ?_, rest⟩
              obtain ⟨row, member, same⟩ := List.mem_map.mp again
              have known := (mem_newExecutionRows member).2.1
              rw [same] at known
              exact distinct.1 known

namespace CancelRace

variable {race : CancelRace}

theorem update_spec {old row : ExecutionRow} (changed : race.update old = some row) :
    old.active = true ∧ old.jobId ∈ race.ids ∧ row.id = old.id ∧ row.jobId = old.jobId ∧
      row.status = .cancelled := by
  unfold update at changed
  split at changed
  · rename_i selected
    cases changed
    have finish := cancelRow_finish race.ids race.now old
    have inactive := cancelRow_not_active race.ids race.now selected
    simp only [cancelSelected, Bool.and_eq_true, List.contains_iff_mem] at selected
    exact ⟨selected.2, selected.1, (cancelRow_keeps ..).1, (cancelRow_keeps ..).2,
      finish.status_eq selected.2 inactive⟩
  · cases changed

theorem update_isSome {old : ExecutionRow} (active : old.active = true)
    (selected : old.jobId ∈ race.ids) : ∃ row, race.update old = some row := by
  unfold update
  rw [if_pos (by simp [cancelSelected, active, selected])]
  exact ⟨_, rfl⟩

theorem activeFilters_eq (columns : columnsOnly race.filters = true) :
    race.activeFilters = { race.filters with executionStatuses := some [.inProgress, .pending] } := by
  obtain ⟨_, _, statuses, reasons⟩ := columnsOnly_iff.mp columns
  simp [activeFilters, cancelStatuses, statuses, reasons]

/-- A filter on columns selects the jobs that match and are not finished. -/
theorem mem_ids (columns : columnsOnly race.filters = true) {job : JobId}
    (matching : job ∈ selectJobIds race.store race.now race.filters)
    (unfinished : ∀ row ∈ race.store.jobs.rows, row.id = job → row.inactiveStatus = none) :
    job ∈ race.ids := by
  obtain ⟨executors, executions, statuses, reasons⟩ := columnsOnly_iff.mp columns
  obtain ⟨row, queried, rfl⟩ := ((selectJobIds_spec ..).2 _).mp matching
  obtain ⟨present, matched⟩ := List.mem_filter.mp queried
  have unmarked := unfinished row present rfl
  refine ((selectJobIds_spec ..).2 _).mpr ⟨row, List.mem_filter.mpr ⟨present, ?_⟩, rfl⟩
  rw [activeFilters_eq columns]
  simp only [executionsMatch, jobMatches, executors, executions, statuses, reasons,
    Bool.and_eq_true] at matched ⊢
  simpa [statusFilter, inactiveStatuses, unmarked] using matched

end CancelRace

end Ora.Postgres
