import Ora.Postgres.Evolution

/-!
# Running executions

An execution that is in progress stays so, with its executor, until an
operation names it as finished or cancels it and returns it.
-/

namespace Ora.Postgres

open Ora.Backend
open Ora.Library

/-- The execution is in progress on the executor. -/
def Runs (store : Store) (executorId : ExecutorId) (id : ExecutionId) : Prop :=
  ∃ row ∈ store.executions.rows, row.id = id ∧ row.status = .inProgress ∧
    row.executorId = some executorId

namespace Operation

/-- The executions that an operation finishes if they are active. -/
def ended (store : Store) : Operation → List ExecutionId
  | .executionsSucceeded _ executions => executions.map SucceededExecution.executionId
  | .executionsFailed _ executions => executions.map FailedExecution.executionId
  | .executionsRetried _ _ executions =>
      executions.map fun execution => execution.failedExecution.executionId
  | .cancelJobs now systemNow pick filters =>
      (PostgresBackend.cancelJobs store now systemNow pick filters).2.map
        CancelledJob.lastExecutionId
  | _ => []

end Operation

section Cancelled

variable {store : Store} {row : ExecutionRow}

/-- The first entry of each job is kept, which is any entry if they agree. -/
theorem mem_firstPerJob {rows : List CancelledJob} {job : CancelledJob} (member : job ∈ rows)
    (agree : ∀ other ∈ rows, other.jobId = job.jobId →
      other.lastExecutionId = job.lastExecutionId) (seen : List JobId) (fresh : job.jobId ∉ seen) :
    job.lastExecutionId ∈ (firstPerJob seen rows).map CancelledJob.lastExecutionId := by
  induction rows generalizing seen with
  | nil => cases member
  | cons first rest ih =>
      obtain ⟨agreeFirst, agreeRest⟩ := List.forall_mem_cons.mp agree
      unfold firstPerJob
      split
      · rename_i known
        have known : first.jobId ∈ seen := by simpa using known
        rcases List.mem_cons.mp member with rfl | later
        · exact absurd known fresh
        · exact ih later agreeRest seen fresh
      · rw [List.map_cons, List.mem_cons]
        by_cases same : first.jobId = job.jobId
        · exact .inl (agreeFirst same).symm
        · rcases List.mem_cons.mp member with rfl | later
          · exact absurd rfl same
          · refine .inr (ih later agreeRest _ ?_)
            simpa [Ne.symm same] using fresh

/-- The entries of both rounds come from active rows. -/
theorem mem_cancelRounds {now : Time} {filters : JobFilters} {job : CancelledJob} :
    job ∈ (cancelRound store now filters).2 ++
        (cancelRound (cancelRound store now filters).1 now filters).2 →
      ∃ other ∈ store.executions.rows, other.active = true ∧ job.jobId = other.jobId ∧
        job.lastExecutionId = other.id := by
  intro listed
  rcases List.mem_append.mp listed with first | second
  · obtain ⟨other, selected, rfl⟩ := List.mem_map.mp first
    obtain ⟨present, selected⟩ := List.mem_filter.mp selected
    exact ⟨other, present, by simp_all [cancelSelected], rfl, rfl⟩
  · obtain ⟨changed, selected, rfl⟩ := List.mem_map.mp second
    obtain ⟨present, selected⟩ := List.mem_filter.mp selected
    obtain ⟨other, otherPresent, rfl⟩ := List.mem_map.mp present
    have left : (cancelRow (selectJobIds store now filters) now other).active = true := by
      simp_all [cancelSelected]
    have kept := (cancelRow_finish (selectJobIds store now filters) now other).eq_of_active rfl left
    rw [kept] at left ⊢
    exact ⟨other, otherPresent, left, rfl, rfl⟩

/-- An execution that is cancelled is returned. -/
theorem cancelJobs_returns (inv : JobInvariant store) (now systemNow : Time) (pick : Pick)
    (filters : JobFilters) (member : row ∈ store.executions.rows) (active : row.active = true) :
    row ∈ (PostgresBackend.cancelJobs store now systemNow pick filters).1.executions.rows ∨
      row.id ∈ (PostgresBackend.cancelJobs store now systemNow pick filters).2.map
        CancelledJob.lastExecutionId := by
  cases cancelled : cancelStatuses filters with
  | none =>
      rw [cancelJobs_nothing store now systemNow pick cancelled]
      exact .inl member
  | some statuses =>
      obtain ⟨_, _, effect⟩ := cancelJobs_cancels store now systemNow pick filters cancelled
      rw [effect.executions]
      unfold PostgresBackend.cancelJobs Postgres.cancelJobs
      rw [cancelled]
      dsimp only
      generalize { filters with executionStatuses := some statuses } = narrowed
      have returned : ∀ job ∈ (cancelRound store now narrowed).2 ++
            (cancelRound (cancelRound store now narrowed).1 now narrowed).2,
          job.jobId = row.jobId →
          row.id ∈ (firstPerJob [] ((cancelRound store now narrowed).2 ++
            (cancelRound (cancelRound store now narrowed).1 now narrowed).2)).map
              CancelledJob.lastExecutionId := by
        have agree : ∀ job ∈ (cancelRound store now narrowed).2 ++
            (cancelRound (cancelRound store now narrowed).1 now narrowed).2,
            job.jobId = row.jobId → job.lastExecutionId = row.id := by
          intro job listed same
          obtain ⟨other, present, otherActive, jobId, id⟩ := mem_cancelRounds listed
          rw [id, inv.active_unique present member otherActive active (jobId.symm.trans same)]
        intro job listed same
        rw [← agree job listed same]
        refine mem_firstPerJob listed (fun other others sameOther => ?_) [] List.not_mem_nil
        rw [agree other others (sameOther.trans same), agree job listed same]
      by_cases first : cancelSelected (selectJobIds store now narrowed) row = true
      · refine .inr (returned _ (List.mem_append_left _ (List.mem_map_of_mem
          (List.mem_filter.mpr ⟨member, first⟩))) rfl)
      have kept := cancelRow_of_not_selected _ now first
      by_cases second : cancelSelected
        (selectJobIds (cancelRound store now narrowed).1 now narrowed) row = true
      · have present : row ∈ (cancelRound store now narrowed).1.executions.rows :=
          List.mem_map.mpr ⟨row, member, kept⟩
        refine .inr (returned _ (List.mem_append_right _ (List.mem_map_of_mem
          (List.mem_filter.mpr ⟨present, second⟩))) rfl)
      · refine .inl (List.mem_map.mpr ⟨row, member, ?_⟩)
        rw [cancelTwice, kept, cancelRow_of_not_selected _ now second]

end Cancelled

namespace Runs

variable {store after : Store} {executorId : ExecutorId} {id : ExecutionId}

theorem active {row : ExecutionRow} (status : row.status = .inProgress) : row.active = true :=
  (ExecutionRow.active_iff_status row).mpr (.inr status)

/-- A row in progress that is kept, in place, still runs. -/
theorem of_row (row : ExecutionRow) (member : row ∈ after.executions.rows) (same : row.id = id)
    (status : row.status = .inProgress) (executor : row.executorId = some executorId) :
    Runs after executorId id := ⟨row, member, same, status, executor⟩

/-- Executions that are not named keep running, those that are named finish. -/
theorem finishes {σ : Type} {status : ExecutionStatus} {executionId : σ → ExecutionId}
    {set : ExecutionRow → σ → ExecutionRow} {source : List σ} {pick : Pick}
    {added : List ExecutionRow} (runs : Runs store executorId id) (issued : Issued store)
    (final : FinalAssignment status set) (next : store.nextUuid ≤ after.nextUuid)
    (executions : after.executions.rows =
      store.executions.rows.map (finishRow executionId set source pick) ++ added)
    (fresh : ∀ row ∈ added, store.nextUuid ≤ row.id) :
    Runs after executorId id ∨ NotActive after id ∧ id ∈ source.map executionId := by
  obtain ⟨row, member, rfl, inProgress, executor⟩ := runs
  by_cases named : row.id ∈ source.map executionId
  · refine .inr ⟨⟨Nat.lt_of_lt_of_le (issued.executions row member) next, ?_⟩, named⟩
    intro other present same
    rw [executions, List.mem_append, List.mem_map] at present
    rcases present with ⟨before, beforeMember, rfl⟩ | new
    · rw [(finishRow_finish final before).id_eq] at same
      cases store.executions.eq_of_key beforeMember member same
      exact finishRow_of_named final (active inProgress) (List.mem_map.mp named)
    · exact absurd (issued.executions row member) (Nat.not_lt.mpr (same ▸ fresh other new))
  · refine .inl (of_row row ?_ rfl inProgress executor)
    rw [executions]
    refine List.mem_append_left _ (List.mem_map.mpr ⟨row, member, ?_⟩)
    exact finishRow_of_not_named fun entry present same =>
      named (List.mem_map.mpr ⟨entry, present, same⟩)

theorem cancels (runs : Runs store executorId id) (inv : JobInvariant store)
    (now systemNow : Time) (pick : Pick) (filters : JobFilters) :
    let cancelled := PostgresBackend.cancelJobs store now systemNow pick filters
    Runs cancelled.1 executorId id ∨
      NotActive cancelled.1 id ∧ id ∈ cancelled.2.map CancelledJob.lastExecutionId := by
  obtain ⟨row, member, rfl, inProgress, executor⟩ := runs
  obtain ⟨change, _, _, effect⟩ := cancelJobs_finishes store now systemNow pick filters
  by_cases kept : change row = row
  · refine .inl (of_row row ?_ rfl inProgress executor)
    rw [effect.executions]
    exact List.mem_map.mpr ⟨row, member, kept⟩
  · have inactive : (change row).active = false := by
      rw [Bool.eq_false_iff]
      exact fun active => kept ((effect.execution row).eq_of_active rfl active)
    refine .inr ⟨⟨?_, ?_⟩, ?_⟩
    · rw [effect.nextUuid]
      exact inv.issuedExecutions row member
    · intro other present same
      rw [effect.executions] at present
      obtain ⟨before, beforeMember, rfl⟩ := List.mem_map.mp present
      rw [(effect.execution before).id_eq] at same
      cases store.executions.eq_of_key beforeMember member same
      exact inactive
    · refine (cancelJobs_returns inv now systemNow pick filters member
        (active inProgress)).resolve_left fun present => ?_
      rw [effect.executions] at present
      obtain ⟨before, beforeMember, changed⟩ := List.mem_map.mp present
      have same : before.id = row.id := by rw [← (effect.execution before).id_eq, changed]
      cases store.executions.eq_of_key beforeMember member same
      exact kept changed

/-- The job of a running execution is active, so it is not deleted. -/
theorem deletes (runs : Runs store executorId id) (inv : JobInvariant store)
    {doomed : JobRow → Bool}
    (inactive : ∀ job ∈ store.jobs.rows, doomed job = true → job.inactiveSince ≠ none) :
    Runs (store.deleteJobs doomed) executorId id := by
  obtain ⟨row, member, same, inProgress, executor⟩ := runs
  refine of_row row ?_ same inProgress executor
  obtain ⟨job, present, owner⟩ := store.execution_job row member
  have running := (inv.running job present).mpr ⟨row, member, owner.symm, active inProgress⟩
  have kept : doomed job = false := by
    rw [Bool.eq_false_iff]
    exact fun gone => inactive job present gone running
  simp only [Store.deleteJobs, Table.delete_rows, List.mem_filter, Bool.not_eq_true']
  refine ⟨member, ?_⟩
  rw [← owner]
  exact JobInvariant.jobDeleted_eq_false present kept

theorem starts {executions : List StartedExecution} {change : ExecutionRow → ExecutionRow}
    (runs : Runs store executorId id) (effect : Starts executions change store after) :
    Runs after executorId id := by
  obtain ⟨row, member, same, inProgress, executor⟩ := runs
  have present : change row ∈ after.executions.rows := by
    rw [effect.executions]
    exact List.mem_map_of_mem member
  rcases effect.execution row with kept | ⟨execution, _, startable, changed⟩
  · rw [kept] at present
    exact of_row row present same inProgress executor
  · rw [changed] at present
    refine of_row _ present same (setStarted_status startable).2 ?_
    -- only the executor that runs the execution can start it again
    simp only [PostgresBackend.startable, inProgress, Bool.and_eq_true, Bool.or_eq_true,
      beq_iff_eq, true_and] at startable
    rcases startable.2 with pending | again
    · cases pending
    · rw [← executor, again]
      rfl

/-- An execution keeps running unless the operation ends it. -/
theorem step {operation : Operation} (runs : Runs store executorId id) (inv : JobInvariant store)
    (done : operation.apply store = some after) :
    Runs after executorId id ∨ NotActive after id ∧ id ∈ operation.ended store := by
  have issued : Issued store := ⟨inv.issuedExecutions, inv.issuedJobs⟩
  obtain ⟨row, member, same, inProgress, executor⟩ := runs
  have runs : Runs store executorId id := ⟨row, member, same, inProgress, executor⟩
  cases operation with
  | addJobs now pick jobs ifNotExists =>
      obtain ⟨⟨_, result⟩, added, rfl⟩ := Option.map_eq_some_iff.mp done
      obtain ⟨_, _, _, effect⟩ := addJobs_adds added
      refine .inl (of_row row ?_ same inProgress executor)
      rw [effect.executions]
      exact List.mem_append_left _ member
  | addSchedules now schedules ifNotExists =>
      obtain ⟨⟨_, result⟩, added, rfl⟩ := Option.map_eq_some_iff.mp done
      obtain ⟨_, effect⟩ := addSchedules_adds added
      refine .inl (of_row row ?_ same inProgress executor)
      rw [effect.executions]
      exact member
  | stopSchedules now filters =>
      cases done
      exact .inl runs
  | executionsStarted pick executions =>
      cases done
      exact .inl (runs.starts (executionsStarted_starts store pick executions))
  | executionsSucceeded pick executions =>
      cases done
      obtain ⟨_, _, effect⟩ := executionsSucceeded_finishes store pick executions
      exact runs.finishes issued setSucceeded_final (Nat.le_of_eq effect.nextUuid.symm)
        (effect.executions.trans (List.append_nil _).symm) (by simp)
  | executionsFailed pick executions =>
      cases done
      obtain ⟨_, _, effect⟩ := executionsFailed_finishes store pick executions
      exact runs.finishes issued setFailed_final (Nat.le_of_eq effect.nextUuid.symm)
        (effect.executions.trans (List.append_nil _).symm) (by simp)
  | executionsRetried now pick executions =>
      obtain ⟨added, effect⟩ := executionsRetried_retries done
      have next : store.nextUuid ≤ after.nextUuid := by
        rw [effect.nextUuid]
        exact Nat.le_add_right ..
      have result := runs.finishes issued setFailed_final next effect.executions
        fun row member => (effect.fresh member).1
      rwa [List.map_map] at result
  | cancelJobs now systemNow pick filters =>
      cases done
      exact runs.cancels inv now systemNow pick filters
  | deleteHistory deleteBatchSize before =>
      cases done
      refine .inl (deleteHistory_preserves (P := fun store =>
        JobInvariant store ∧ Runs store executorId id) ?_ ?_ ?_ deleteBatchSize before
        ⟨inv, runs⟩).2
      · exact fun _ doomed kept inactive => ⟨kept.1.deletes doomed, kept.2.deletes kept.1 inactive⟩
      · exact fun _ _ kept _ => ⟨kept.1.congr rfl rfl (Nat.le_refl _), kept.2⟩
      · exact fun _ _ kept => ⟨kept.1.congr rfl rfl (Nat.le_refl _), kept.2⟩

end Runs

section InProgress

variable {store after : Store} {row : ExecutionRow}

/-- A row in progress was there before when rows are finished and pending ones added. -/
theorem inProgress_of_finishes {status : ExecutionStatus} {change : ExecutionRow → ExecutionRow}
    {added : List ExecutionRow} (member : row ∈ after.executions.rows)
    (inProgress : row.status = .inProgress) (isTerminal : terminal status = true)
    (execution : ∀ row, RowFinish status row (change row))
    (executions : after.executions.rows = store.executions.rows.map change ++ added)
    (pending : ∀ row ∈ added, row.status = .pending) : row ∈ store.executions.rows := by
  rw [executions, List.mem_append, List.mem_map] at member
  rcases member with ⟨before, present, rfl⟩ | new
  · rw [(execution before).eq_of_active isTerminal (Runs.active inProgress)]
    exact present
  · rw [pending row new] at inProgress
    cases inProgress

/-- A row in progress was there before, or was started now. -/
theorem inProgress_before {operation : Operation} (done : operation.apply store = some after)
    (member : row ∈ after.executions.rows) (inProgress : row.status = .inProgress) :
    row ∈ store.executions.rows ∨ ∃ pick executions,
      operation = .executionsStarted pick executions ∧
      ∃ execution ∈ executions, execution.executionId = row.id ∧
        row.executorId = some execution.executorId := by
  cases operation with
  | addJobs now pick jobs ifNotExists =>
      obtain ⟨⟨_, result⟩, added, rfl⟩ := Option.map_eq_some_iff.mp done
      obtain ⟨_, added, _, effect⟩ := addJobs_adds added
      have executions := effect.executions
      rw [← List.map_id' store.executions.rows] at executions
      exact .inl (inProgress_of_finishes member inProgress
        (show terminal .cancelled = true from rfl) (fun _ => .kept) executions effect.pending)
  | addSchedules now schedules ifNotExists =>
      obtain ⟨⟨_, result⟩, added, rfl⟩ := Option.map_eq_some_iff.mp done
      obtain ⟨_, effect⟩ := addSchedules_adds added
      rw [effect.executions] at member
      exact .inl member
  | stopSchedules now filters =>
      cases done
      exact .inl member
  | executionsStarted pick executions =>
      cases done
      have effect := executionsStarted_starts store pick executions
      rw [effect.executions] at member
      obtain ⟨before, present, rfl⟩ := List.mem_map.mp member
      rcases effect.execution before with kept | ⟨execution, listed, startable, started⟩
      · rw [kept]
        exact .inl present
      · rw [started]
        simp only [PostgresBackend.startable, Bool.and_eq_true, beq_iff_eq] at startable
        exact .inr ⟨pick, executions, rfl, execution, listed, startable.1, rfl⟩
  | executionsSucceeded pick executions =>
      cases done
      obtain ⟨_, _, effect⟩ := executionsSucceeded_finishes store pick executions
      exact .inl (inProgress_of_finishes member inProgress effect.isTerminal effect.execution
        (effect.executions.trans (List.append_nil _).symm) (by simp))
  | executionsFailed pick executions =>
      cases done
      obtain ⟨_, _, effect⟩ := executionsFailed_finishes store pick executions
      exact .inl (inProgress_of_finishes member inProgress effect.isTerminal effect.execution
        (effect.executions.trans (List.append_nil _).symm) (by simp))
  | executionsRetried now pick executions =>
      obtain ⟨added, effect⟩ := executionsRetried_retries done
      exact .inl (inProgress_of_finishes member inProgress rfl effect.execution effect.executions
        effect.pending)
  | cancelJobs now systemNow pick filters =>
      cases done
      obtain ⟨_, _, _, effect⟩ := cancelJobs_finishes store now systemNow pick filters
      exact .inl (inProgress_of_finishes member inProgress effect.isTerminal effect.execution
        (effect.executions.trans (List.append_nil _).symm) (by simp))
  | deleteHistory deleteBatchSize before =>
      cases done
      refine .inl (deleteHistory_preserves (P := fun deleted =>
        row ∈ deleted.executions.rows → row ∈ store.executions.rows) ?_ ?_ ?_ deleteBatchSize before
        (fun present => present) member)
      · intro deleted doomed kept _ present
        simp only [Store.deleteJobs, Table.delete_rows, List.mem_filter] at present
        exact kept present.1
      · exact fun _ _ kept _ => kept
      · exact fun _ _ kept => kept

/-- The executions that an operation lets succeed or fail if they are active. -/
def Operation.outcomes : Operation → List ExecutionId
  | .executionsSucceeded _ executions => executions.map SucceededExecution.executionId
  | .executionsFailed _ executions => executions.map FailedExecution.executionId
  | .executionsRetried _ _ executions =>
      executions.map fun execution => execution.failedExecution.executionId
  | _ => []

def ExecutionRow.hasOutcome (row : ExecutionRow) : Prop :=
  row.status = .succeeded ∨ row.status = .failed

theorem outcome_of_finishRow {σ : Type} {status : ExecutionStatus}
    {executionId : σ → ExecutionId} {set : ExecutionRow → σ → ExecutionRow} {source : List σ}
    {pick : Pick} {added : List ExecutionRow} (member : row ∈ after.executions.rows)
    (outcome : row.hasOutcome) (final : FinalAssignment status set)
    (executions : after.executions.rows =
      store.executions.rows.map (finishRow executionId set source pick) ++ added)
    (pending : ∀ row ∈ added, row.status = .pending) :
    row ∈ store.executions.rows ∨ row.id ∈ source.map executionId := by
  rw [executions, List.mem_append, List.mem_map] at member
  rcases member with ⟨before, present, rfl⟩ | new
  · by_cases named : before.id ∈ source.map executionId
    · rw [(finishRow_finish final before).id_eq]
      exact .inr named
    · rw [finishRow_of_not_named fun entry present same =>
        named (List.mem_map.mpr ⟨entry, present, same⟩)]
      exact .inl present
  · rw [ExecutionRow.hasOutcome, pending row new] at outcome
    rcases outcome with impossible | impossible <;> cases impossible

/-- A row that has succeeded or failed had done so before, or is named by the
operation. -/
theorem outcome_before {operation : Operation} (done : operation.apply store = some after)
    (member : row ∈ after.executions.rows) (outcome : row.hasOutcome) :
    row ∈ store.executions.rows ∨ row.id ∈ operation.outcomes := by
  cases operation with
  | addJobs now pick jobs ifNotExists =>
      obtain ⟨⟨_, result⟩, added, rfl⟩ := Option.map_eq_some_iff.mp done
      obtain ⟨_, added, _, effect⟩ := addJobs_adds added
      rw [effect.executions, List.mem_append] at member
      refine .inl (member.resolve_right fun new => ?_)
      rw [ExecutionRow.hasOutcome, effect.pending row new] at outcome
      rcases outcome with impossible | impossible <;> cases impossible
  | addSchedules now schedules ifNotExists =>
      obtain ⟨⟨_, result⟩, added, rfl⟩ := Option.map_eq_some_iff.mp done
      obtain ⟨_, effect⟩ := addSchedules_adds added
      rw [effect.executions] at member
      exact .inl member
  | stopSchedules now filters =>
      cases done
      exact .inl member
  | executionsStarted pick executions =>
      cases done
      have effect := executionsStarted_starts store pick executions
      rw [effect.executions] at member
      obtain ⟨before, present, rfl⟩ := List.mem_map.mp member
      rcases effect.execution before with kept | ⟨execution, _, startable, started⟩
      · rw [kept]
        exact .inl present
      · rw [ExecutionRow.hasOutcome, started, (setStarted_status startable).2] at outcome
        rcases outcome with impossible | impossible <;> cases impossible
  | executionsSucceeded pick executions =>
      cases done
      obtain ⟨_, _, effect⟩ := executionsSucceeded_finishes store pick executions
      exact outcome_of_finishRow member outcome setSucceeded_final
        (effect.executions.trans (List.append_nil _).symm) (by simp)
  | executionsFailed pick executions =>
      cases done
      obtain ⟨_, _, effect⟩ := executionsFailed_finishes store pick executions
      exact outcome_of_finishRow member outcome setFailed_final
        (effect.executions.trans (List.append_nil _).symm) (by simp)
  | executionsRetried now pick executions =>
      obtain ⟨added, effect⟩ := executionsRetried_retries done
      have result := outcome_of_finishRow member outcome setFailed_final effect.executions
        effect.pending
      rwa [List.map_map] at result
  | cancelJobs now systemNow pick filters =>
      cases done
      obtain ⟨change, _, _, effect⟩ := cancelJobs_finishes store now systemNow pick filters
      rw [effect.executions] at member
      obtain ⟨before, present, rfl⟩ := List.mem_map.mp member
      have finish := effect.execution before
      generalize change before = row at outcome finish
      cases finish with
      | kept => exact .inl present
      | finished _ _ _ cancelled =>
          rw [ExecutionRow.hasOutcome, cancelled] at outcome
          rcases outcome with impossible | impossible <;> cases impossible
  | deleteHistory deleteBatchSize before =>
      cases done
      refine .inl (deleteHistory_preserves (P := fun deleted =>
        row ∈ deleted.executions.rows → row ∈ store.executions.rows) ?_ ?_ ?_ deleteBatchSize before
        (fun present => present) member)
      · intro deleted doomed kept _ present
        simp only [Store.deleteJobs, Table.delete_rows, List.mem_filter] at present
        exact kept present.1
      · exact fun _ _ kept _ => kept
      · exact fun _ _ kept => kept

end InProgress

section Started

variable {store : Store} {pick : Pick} {executions : List StartedExecution}

theorem mem_executionsStarted {id : ExecutionId} :
    id ∈ (PostgresBackend.executionsStarted store pick executions).2 ↔
      ∃ row ∈ store.executions.rows, row.id = id ∧
        ∃ execution ∈ executions, PostgresBackend.startable row execution = true := by
  cases executions with
  | nil => simp [PostgresBackend.executionsStarted]
  | cons first rest =>
      simp only [PostgresBackend.executionsStarted, List.isEmpty_cons, Bool.false_eq_true, if_false,
        Store.updateExecutionsFrom, List.mem_map, List.mem_filterMap]
      constructor
      · rintro ⟨result, ⟨row, member, updated⟩, rfl⟩
        rcases Table.replaced_cases (first :: rest) PostgresBackend.startable
          PostgresBackend.setStarted (fun row => pick row.id) row with
          ⟨_, _, unmatched⟩ | ⟨entry, present, matching, _, changed⟩
        · rw [unmatched] at updated
          cases updated
        · rw [changed] at updated
          cases updated
          exact ⟨row, member, rfl, entry, present, matching⟩
      · rintro ⟨row, member, rfl, execution, present, matching⟩
        rcases Table.replaced_cases (first :: rest) PostgresBackend.startable
          PostgresBackend.setStarted (fun row => pick row.id) row with
          ⟨unmatched, _, _⟩ | ⟨entry, _, _, _, changed⟩
        · rw [unmatched execution present] at matching
          cases matching
        · exact ⟨_, ⟨row, member, changed⟩, rfl⟩

theorem executionsStarted_nodup :
    (PostgresBackend.executionsStarted store pick executions).2.Nodup := by
  unfold PostgresBackend.executionsStarted
  split
  · exact List.nodup_nil
  · exact store.executions.unique.sublist (Table.returned_sublist ExecutionRow.id executions
      PostgresBackend.startable PostgresBackend.setStarted (fun row => pick row.id)
      (fun _ _ => rfl) store.executions.rows)

/-- The returned executions were named by the call. -/
theorem executionsStarted_subset :
    ∀ id ∈ (PostgresBackend.executionsStarted store pick executions).2,
      id ∈ executions.map StartedExecution.executionId := by
  intro id member
  obtain ⟨row, _, rfl, execution, listed, startable⟩ := mem_executionsStarted.mp member
  simp only [PostgresBackend.startable, Bool.and_eq_true, beq_iff_eq] at startable
  exact List.mem_map.mpr ⟨execution, listed, startable.1⟩

/-- An execution that is returned runs on the executor that started it. -/
theorem runs_of_returned {execution : StartedExecution}
    (distinct : (executions.map StartedExecution.executionId).Nodup)
    (listed : execution ∈ executions)
    (returned : execution.executionId ∈
      (PostgresBackend.executionsStarted store pick executions).2) :
    Runs (PostgresBackend.executionsStarted store pick executions).1 execution.executorId
      execution.executionId := by
  obtain ⟨row, member, same, other, otherListed, startable⟩ := mem_executionsStarted.mp returned
  have effect := executionsStarted_starts store pick executions
  rcases Table.replaced_cases executions PostgresBackend.startable PostgresBackend.setStarted
    (fun row => pick row.id) row with ⟨unmatched, _, _⟩ | ⟨entry, present, matching, changed, _⟩
  · rw [unmatched other otherListed] at startable
    cases startable
  · have matched := matching
    simp only [PostgresBackend.startable, Bool.and_eq_true, beq_iff_eq] at matched
    have entrySame : entry = execution :=
      List.inj_on_of_nodup_map distinct present listed (matched.1.trans same)
    refine ⟨PostgresBackend.setStarted row entry, ?_, same, (setStarted_status matching).2, ?_⟩
    · rw [effect.executions]
      exact List.mem_map.mpr ⟨row, member, changed⟩
    · rw [entrySame]
      rfl

end Started

end Ora.Postgres
