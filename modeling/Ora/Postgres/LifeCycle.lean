import Ora.Postgres.ActiveExecution
import Ora.Library.Simulation
import Mathlib.Data.Prod.Lex

/-!
# The life cycle of a job

What the store says about one identifier: whether a job has it, what the job
asks for, how many executions it had and whether it waits, runs or is over.
Every operation moves every job by at most one step of this cycle.
-/

namespace Ora.Postgres

open Ora.Backend
open Ora.Library
open Relation

inductive Phase where
  /-- No job has the identifier yet. -/
  | unissued
  | pending (definition : JobRow) (attempt : Nat)
  | inProgress (definition : JobRow) (attempt : Nat)
  | finished (definition : JobRow) (attempt : Nat) (outcome : Option ExecutionStatus)
  /-- The identifier was issued, no job has it any more. -/
  | gone
  deriving DecidableEq, Repr

/-- A job as it was added. -/
def JobRow.definition (job : JobRow) : JobRow :=
  { job with inactiveSince := none, inactiveStatus := none }

/-- The executions of a job. -/
def jobExecutions (store : Store) (id : JobId) : List ExecutionRow :=
  store.executions.rows.filter fun row => row.jobId == id

def jobPhase (job : JobRow) (executions : List ExecutionRow) : Phase :=
  if job.inactiveSince.isSome then
    .finished job.definition executions.length job.inactiveStatus
  else if executions.any fun row => row.status == .pending then
    .pending job.definition executions.length
  else
    .inProgress job.definition executions.length

def phase (store : Store) (id : JobId) : Phase :=
  match store.jobs.find? id with
  | some job => jobPhase job (jobExecutions store id)
  | none => if store.nextUuid ≤ id then .unissued else .gone

namespace Phase

/-- The job waits for an executor or runs on one. -/
inductive Active (definition : JobRow) (attempt : Nat) : Phase → Prop where
  | pending : Active definition attempt (.pending definition attempt)
  | inProgress : Active definition attempt (.inProgress definition attempt)

inductive Step : Phase → Phase → Prop where
  /-- The identifier is issued to something that is no job. -/
  | skip : Step .unissued .gone
  | add (definition : JobRow) : Step .unissued (.pending definition 1)
  | start (definition : JobRow) (attempt : Nat) :
      Step (.pending definition attempt) (.inProgress definition attempt)
  | retry {active : Phase} {definition : JobRow} {attempt : Nat}
      (isActive : Active definition attempt active) :
      Step active (.pending definition (attempt + 1))
  | finish {active : Phase} {definition : JobRow} {attempt : Nat} {status : ExecutionStatus}
      (isActive : Active definition attempt active) (isTerminal : terminal status = true) :
      Step active (.finished definition attempt (some status))
  | delete (definition : JobRow) (attempt : Nat) (outcome : Option ExecutionStatus) :
      Step (.finished definition attempt outcome) .gone

/-- How far a job has come. -/
def rank : Phase → Nat ×ₗ Nat
  | unissued => toLex (0, 0)
  | pending _ attempt => toLex (1, 2 * attempt)
  | inProgress _ attempt => toLex (1, 2 * attempt + 1)
  | finished _ _ _ => toLex (2, 0)
  | gone => toLex (3, 0)

theorem Step.rank_lt {first second : Phase} (taken : Step first second) :
    first.rank < second.rank := by
  cases taken with
  | skip => simp [rank, Prod.Lex.toLex_lt_toLex]
  | add => simp [rank, Prod.Lex.toLex_lt_toLex]
  | start => simp [rank, Prod.Lex.toLex_lt_toLex]
  | retry isActive =>
      cases isActive with
      | pending => simp [rank, Prod.Lex.toLex_lt_toLex]
      | inProgress =>
          refine Prod.Lex.toLex_lt_toLex.mpr (.inr ⟨rfl, ?_⟩)
          show 2 * _ + 1 < 2 * (_ + 1)
          omega
  | finish isActive =>
      cases isActive with
      | pending => simp [rank, Prod.Lex.toLex_lt_toLex]
      | inProgress => simp [rank, Prod.Lex.toLex_lt_toLex]
  | delete => simp [rank, Prod.Lex.toLex_lt_toLex]

end Phase

/-- A job is left alone or takes one step. -/
def Moves (store after : Store) : Prop :=
  ∀ id, phase after id = phase store id ∨ Phase.Step (phase store id) (phase after id)

variable {store after : Store}

/-- Identifiers with a job and identifiers without one. -/
theorem Moves.of_cases
    (stored : ∀ job ∈ store.jobs.rows, phase after job.id = phase store job.id ∨
      Phase.Step (phase store job.id) (phase after job.id))
    (absent : ∀ id, (∀ job ∈ store.jobs.rows, job.id ≠ id) → phase after id = phase store id ∨
      Phase.Step (phase store id) (phase after id)) : Moves store after := by
  intro id
  by_cases present : ∃ job ∈ store.jobs.rows, job.id = id
  · obtain ⟨job, member, rfl⟩ := present
    exact stored job member
  · exact absent id fun job member same => present ⟨job, member, same⟩

theorem mem_jobExecutions (store : Store) (id : JobId) (row : ExecutionRow) :
    row ∈ jobExecutions store id ↔ row ∈ store.executions.rows ∧ row.jobId = id := by
  simp [jobExecutions]

theorem phase_of_mem {job : JobRow} (member : job ∈ store.jobs.rows) :
    phase store job.id = jobPhase job (jobExecutions store job.id) := by
  have found := (store.jobs.find?_eq_some_iff job.id job).mpr ⟨member, rfl⟩
  simp [phase, found]

theorem phase_of_absent {id : JobId} (absent : ∀ job ∈ store.jobs.rows, job.id ≠ id) :
    phase store id = if store.nextUuid ≤ id then .unissued else .gone := by
  have none := (store.jobs.find?_eq_none_iff id).mpr absent
  simp [phase, none]

theorem jobPhase_inactive {job : JobRow} (executions : List ExecutionRow)
    (inactive : job.inactiveSince ≠ none) :
    jobPhase job executions = .finished job.definition executions.length job.inactiveStatus := by
  rw [jobPhase, if_pos (Option.isSome_iff_ne_none.mpr inactive)]

/-- An identifier without a job stays so or is issued. -/
theorem moves_absent {id : JobId} (absent : ∀ job ∈ store.jobs.rows, job.id ≠ id)
    (absentAfter : ∀ job ∈ after.jobs.rows, job.id ≠ id) (next : store.nextUuid ≤ after.nextUuid) :
    phase after id = phase store id ∨ Phase.Step (phase store id) (phase after id) := by
  rw [phase_of_absent absent, phase_of_absent absentAfter]
  by_cases later : after.nextUuid ≤ id
  · rw [if_pos later, if_pos (Nat.le_trans next later)]
    exact .inl rfl
  · rw [if_neg later]
    split
    · exact .inr .skip
    · exact .inl rfl

/-- The phase of an active job is that of its active execution. -/
theorem JobInvariant.phase_active (inv : JobInvariant store) {row : ExecutionRow} {job : JobRow}
    (member : row ∈ store.executions.rows) (active : row.active = true)
    (hjob : job ∈ store.jobs.rows) (same : row.jobId = job.id) :
    phase store job.id = if row.status = .pending
      then .pending job.definition (jobExecutions store job.id).length
      else .inProgress job.definition (jobExecutions store job.id).length := by
  have unfinished := (inv.running job hjob).mpr ⟨row, member, same, active⟩
  have waiting : ((jobExecutions store job.id).any fun row => row.status == .pending) = true ↔
      row.status = .pending := by
    rw [List.any_eq_true]
    constructor
    · rintro ⟨other, found, pending⟩
      obtain ⟨present, otherSame⟩ := (mem_jobExecutions ..).mp found
      rw [beq_iff_eq] at pending
      have otherActive := (ExecutionRow.active_iff_status other).mpr (.inl pending)
      rwa [inv.active_unique member present active otherActive (same.trans otherSame.symm)]
    · intro pending
      exact ⟨row, (mem_jobExecutions ..).mpr ⟨member, same⟩, by simp [pending]⟩
  rw [phase_of_mem hjob, jobPhase, unfinished]
  simp only [Option.isSome_none, Bool.false_eq_true, if_false, waiting]

theorem JobInvariant.isActive (inv : JobInvariant store) {job : JobRow}
    (hjob : job ∈ store.jobs.rows) (unfinished : job.inactiveSince = none) :
    (phase store job.id).Active job.definition (jobExecutions store job.id).length := by
  obtain ⟨row, member, same, active⟩ := (inv.running job hjob).mp unfinished
  rw [inv.phase_active member active hjob same]
  split
  · exact .pending
  · exact .inProgress

theorem JobInvariant.not_unissued (inv : JobInvariant store) {job : JobRow}
    (hjob : job ∈ store.jobs.rows) : ¬store.nextUuid ≤ job.id :=
  Nat.not_le.mpr (inv.issuedJobs job hjob)

namespace JobInvariant

/-- Operations that leave the jobs and executions alone. -/
theorem moves_congr (jobs : after.jobs = store.jobs) (executions : after.executions = store.executions)
    (next : store.nextUuid ≤ after.nextUuid) : Moves store after := by
  refine .of_cases (fun job member => ?_) (fun id absent => ?_)
  · refine .inl ?_
    rw [phase_of_mem member, phase_of_mem (jobs ▸ member), jobExecutions, executions]
    rfl
  · exact moves_absent absent (jobs ▸ absent) next

/-- The executions of a job after every row is changed. -/
theorem jobExecutions_map {change : ExecutionRow → ExecutionRow}
    (keeps : ∀ row, (change row).jobId = row.jobId)
    (executions : after.executions.rows = store.executions.rows.map change) (id : JobId) :
    jobExecutions after id = (jobExecutions store id).map change := by
  simp only [jobExecutions, executions, List.filter_map, Function.comp_def, keeps]

/-- An active execution that is still active is left alone, and so are finished ones. -/
theorem map_of_unsettled {status : ExecutionStatus} (isTerminal : terminal status = true)
    {change : ExecutionRow → ExecutionRow} (execution : ∀ row, RowFinish status row (change row))
    {id : JobId} (unsettled : settled store change id = false) :
    (jobExecutions store id).map change = jobExecutions store id := by
  refine (List.map_congr_left fun row found => ?_).trans (List.map_id _)
  obtain ⟨member, same⟩ := (mem_jobExecutions ..).mp found
  cases active : row.active with
  | false => exact (execution row).eq_of_not_active active
  | true =>
      refine (execution row).eq_of_active isTerminal ?_
      by_contra finished
      have done := (settled_iff store change id).mpr
        ⟨row, member, same, active, by simpa using finished⟩
      rw [unsettled] at done
      cases done

theorem moves_finishes (inv : JobInvariant store) {status : ExecutionStatus}
    {change : ExecutionRow → ExecutionRow} {mark : JobRow → JobRow}
    {free : ScheduleRow → ScheduleRow} (effect : Finishes status change mark free store after) :
    Moves store after := by
  have executions := jobExecutions_map (fun row => (effect.execution row).job_eq) effect.executions
  have markId : ∀ job, (mark job).id = job.id := fun job => (effect.mark_keeps job).1
  refine .of_cases (fun job member => ?_) (fun id absent => ?_)
  · have marked : mark job ∈ after.jobs.rows := by
      rw [effect.jobs]
      exact List.mem_map_of_mem member
    have read := phase_of_mem marked
    rw [markId, executions] at read
    cases done : settled store change job.id with
    | true =>
        right
        have active := inv.isActive member (inv.active_of_settled member done)
        obtain ⟨time, finished⟩ := effect.marked job done
        rw [read, finished, jobPhase_inactive _ (by simp), List.length_map]
        exact .finish active effect.isTerminal
    | false =>
        left
        rw [read, effect.unmarked job done, map_of_unsettled effect.isTerminal effect.execution done,
          phase_of_mem member]
  · refine moves_absent absent ?_ effect.nextUuid.ge
    rw [effect.jobs, List.forall_mem_map]
    intro job member
    rw [markId]
    exact absent job member

theorem moves_starts (inv : JobInvariant store) {executions : List StartedExecution}
    {change : ExecutionRow → ExecutionRow} (effect : Starts executions change store after) :
    Moves store after := by
  have rows := jobExecutions_map (fun row => (effect.keeps row).2.1) effect.executions
  refine .of_cases (fun job member => ?_) (fun id absent => ?_)
  · have memberAfter : job ∈ after.jobs.rows := effect.jobs ▸ member
    have length : (jobExecutions after job.id).length = (jobExecutions store job.id).length := by
      rw [rows, List.length_map]
    by_cases unfinished : job.inactiveSince = none
    · obtain ⟨row, found, same, active⟩ := (inv.running job member).mp unfinished
      have before := inv.phase_active found active member same
      have foundAfter : change row ∈ after.executions.rows := by
        rw [effect.executions]
        exact List.mem_map_of_mem found
      have read := (inv.starts effect).phase_active foundAfter ((effect.keeps row).2.2.trans active)
        memberAfter ((effect.keeps row).2.1.trans same)
      rw [length] at read
      obtain kept | ⟨execution, _, startable, changed⟩ := effect.execution row
      · rw [kept, ← before] at read
        exact .inl read
      · rw [changed, (setStarted_status startable).2, if_neg (by simp)] at read
        rw [read, before]
        split
        · exact .inr (.start _ _)
        · exact .inl rfl
    · left
      rw [phase_of_mem member, phase_of_mem memberAfter, jobPhase_inactive _ unfinished,
        jobPhase_inactive _ unfinished, length]
  · exact moves_absent absent (effect.jobs ▸ absent) effect.nextUuid.ge

/-- The new executions of a job. -/
theorem jobExecutions_append {added : List ExecutionRow} {rows : List ExecutionRow}
    (executions : after.executions.rows = rows ++ added) (id : JobId) :
    jobExecutions after id =
      (rows.filter fun row => row.jobId == id) ++ added.filter fun row => row.jobId == id := by
  rw [jobExecutions, executions, List.filter_append]

theorem moves_retries (inv : JobInvariant store) {pick : Pick} {executions : List RetriedExecution}
    {added : List ExecutionRow}
    (effect : Retries executions (retryRow pick executions) added store after)
    (carries : CarriesJobs store (executions.map fun execution => execution.failedExecution))
    (once : RetriesOnce store executions) : Moves store after := by
  have next : store.nextUuid ≤ after.nextUuid := effect.nextUuid ▸ Nat.le_add_right ..
  have distinct := effect.once_iff.mpr once
  have rows : ∀ id, jobExecutions after id =
      (jobExecutions store id).map (retryRow pick executions) ++
        added.filter fun row => row.jobId == id := by
    intro id
    rw [jobExecutions_append effect.executions, List.filter_map, jobExecutions]
    simp only [Function.comp_def, (effect.execution _).job_eq]
  refine .of_cases (fun job member => ?_) (fun id absent => ?_)
  · have memberAfter : job ∈ after.jobs.rows := effect.jobs ▸ member
    cases done : settled store (retryRow pick executions) job.id with
    | true =>
        right
        obtain ⟨row, new, same⟩ := List.mem_map.mp ((effect.added_iff carries job.id).mpr done)
        have newMember : row ∈ after.executions.rows := by
          rw [effect.executions]
          exact List.mem_append_right _ new
        have pending := effect.pending row new
        have read := (inv.retries effect carries once).phase_active newMember
          ((ExecutionRow.active_iff_status row).mpr (.inl pending)) memberAfter same
        have single : (added.filter fun row => row.jobId == job.id).length = 1 := by
          have count := List.count_eq_one_of_mem distinct (List.mem_map_of_mem new)
          rw [same, List.count, List.countP_map, List.countP_eq_length_filter] at count
          exact count
        rw [if_pos pending, rows, List.length_append, List.length_map, single] at read
        rw [read]
        exact .retry (inv.isActive member (inv.active_of_settled member done))
    | false =>
        left
        have nothing : (added.filter fun row => row.jobId == job.id) = [] := by
          rw [List.filter_eq_nil_iff]
          intro row new same
          rw [beq_iff_eq] at same
          have settles := (effect.added_iff carries job.id).mp
            (same ▸ List.mem_map_of_mem (f := ExecutionRow.jobId) new)
          rw [done] at settles
          cases settles
        rw [phase_of_mem member, phase_of_mem memberAfter, rows, nothing, List.append_nil,
          map_of_unsettled rfl effect.execution done]
  · exact moves_absent absent (effect.jobs ▸ absent) next

theorem moves_adds (inv : JobInvariant store) {newJobs : List JobRow} {added : List ExecutionRow}
    {claim : ScheduleRow → ScheduleRow}
    (effect : AddsJobs store.nextUuid newJobs added claim store after) : Moves store after := by
  have rows := jobExecutions_append effect.executions
  have newIds : (newJobs.map JobRow.id).Nodup := by
    have unique := after.jobs.unique
    rw [effect.jobs, List.map_append] at unique
    exact (List.nodup_append.mp unique).2.1
  refine .of_cases (fun job member => ?_) (fun id absent => ?_)
  · have memberAfter : job ∈ after.jobs.rows := by
      rw [effect.jobs]
      exact List.mem_append_left _ member
    have nothing : (added.filter fun row => row.jobId == job.id) = [] := by
      rw [List.filter_eq_nil_iff]
      intro row new same
      rw [beq_iff_eq] at same
      have known := List.mem_map_of_mem (f := ExecutionRow.jobId) new
      rw [effect.jobIds, same] at known
      obtain ⟨other, otherNew, otherSame⟩ := List.mem_map.mp known
      exact inv.not_unissued member (otherSame ▸ (effect.freshJobs other otherNew).1)
    left
    rw [phase_of_mem member, phase_of_mem memberAfter, rows, nothing, List.append_nil]
    rfl
  · by_cases new : ∃ job ∈ newJobs, job.id = id
    · obtain ⟨job, member, rfl⟩ := new
      right
      have memberAfter : job ∈ after.jobs.rows := by
        rw [effect.jobs]
        exact List.mem_append_right _ member
      have known := List.mem_map_of_mem (f := JobRow.id) member
      rw [← effect.jobIds] at known newIds
      obtain ⟨row, first, same⟩ := List.mem_map.mp known
      have pending := effect.pending row first
      have rowMember : row ∈ after.executions.rows := by
        rw [effect.executions]
        exact List.mem_append_right _ first
      have read := (inv.adds effect).phase_active rowMember
        ((ExecutionRow.active_iff_status row).mpr (.inl pending)) memberAfter same
      have old : (store.executions.rows.filter fun row => row.jobId == job.id) = [] := by
        rw [List.filter_eq_nil_iff]
        intro other present otherSame
        rw [beq_iff_eq] at otherSame
        obtain ⟨owner, owned, ownerSame⟩ := store.execution_job other present
        exact absent owner owned (ownerSame.trans otherSame)
      have single : (added.filter fun row => row.jobId == job.id).length = 1 := by
        have count := List.count_eq_one_of_mem newIds known
        rw [List.count, List.countP_map, List.countP_eq_length_filter] at count
        exact count
      rw [if_pos pending, rows, old, List.nil_append, single] at read
      rw [read, phase_of_absent absent, if_pos (effect.freshJobs job member).1]
      exact .add _
    · refine moves_absent absent ?_ effect.nextUuid
      intro job member
      rw [effect.jobs, List.mem_append] at member
      obtain known | fresh := member
      · exact absent job known
      · exact fun same => new ⟨job, fresh, same⟩

/-- Only finished jobs are deleted. -/
def Deletes (store after : Store) : Prop :=
  ∀ id, phase after id = phase store id ∨ ∃ definition attempt outcome,
    phase store id = .finished definition attempt outcome ∧ phase after id = .gone

theorem Deletes.moves (deletes : Deletes store after) : Moves store after := by
  intro id
  obtain kept | ⟨definition, attempt, outcome, ended, gone⟩ := deletes id
  · exact .inl kept
  · rw [ended, gone]
    exact .inr (.delete ..)

theorem Deletes.trans {middle : Store} (first : Deletes store middle)
    (second : Deletes middle after) : Deletes store after := by
  intro id
  obtain kept | ⟨definition, attempt, outcome, ended, gone⟩ := second id
  · rw [kept]
    exact first id
  · obtain same | ⟨_, _, _, _, already⟩ := first id
    · exact .inr ⟨definition, attempt, outcome, same ▸ ended, gone⟩
    · rw [already] at ended
      cases ended

theorem deletes_congr (jobs : after.jobs = store.jobs)
    (executions : after.executions = store.executions) (next : after.nextUuid = store.nextUuid) :
    Deletes store after := by
  intro id
  rw [phase, phase, jobs, jobExecutions, jobExecutions, executions, next]
  exact .inl rfl

theorem deletes_jobs (inv : JobInvariant store) {doomed : JobRow → Bool}
    (inactive : ∀ job ∈ store.jobs.rows, doomed job = true → job.inactiveSince ≠ none) :
    Deletes store (store.deleteJobs doomed) := by
  have rows : ∀ job, job ∈ (store.deleteJobs doomed).jobs.rows ↔
      job ∈ store.jobs.rows ∧ doomed job = false := by
    intro job
    simp [Store.deleteJobs]
  intro id
  by_cases present : ∃ job ∈ store.jobs.rows, job.id = id
  · obtain ⟨job, member, rfl⟩ := present
    cases gone : doomed job with
    | true =>
        have deleted : ∀ other ∈ (store.deleteJobs doomed).jobs.rows, other.id ≠ job.id := by
          intro other remaining same
          obtain ⟨present, kept⟩ := (rows other).mp remaining
          rw [store.jobs.eq_of_key present member same, gone] at kept
          cases kept
        have issued : ¬(store.deleteJobs doomed).nextUuid ≤ job.id := inv.not_unissued member
        refine .inr ⟨job.definition, (jobExecutions store job.id).length, job.inactiveStatus, ?_, ?_⟩
        · rw [phase_of_mem member, jobPhase_inactive _ (inactive job member gone)]
        · rw [phase_of_absent deleted, if_neg issued]
    | false =>
        left
        have kept : jobExecutions (store.deleteJobs doomed) job.id = jobExecutions store job.id := by
          simp only [jobExecutions, Store.deleteJobs, Table.delete_rows, List.filter_filter]
          refine List.filter_congr fun row _ => ?_
          cases same : row.jobId == job.id with
          | false => rfl
          | true =>
              rw [beq_iff_eq] at same
              simp [same, jobDeleted_eq_false member gone]
        rw [phase_of_mem member, phase_of_mem ((rows job).mpr ⟨member, gone⟩), kept]
  · left
    have absent : ∀ job ∈ store.jobs.rows, job.id ≠ id :=
      fun job member same => present ⟨job, member, same⟩
    rw [phase_of_absent absent, phase_of_absent fun job remaining => absent job ((rows job).mp remaining).1]
    rfl

theorem deletes_history (inv : JobInvariant store) (deleteBatchSize : Nat) (before : Time) :
    Deletes store (PostgresBackend.deleteHistory store deleteBatchSize before) := by
  have both : JobInvariant (PostgresBackend.deleteHistory store deleteBatchSize before) ∧
      Deletes store (PostgresBackend.deleteHistory store deleteBatchSize before) := by
    refine @deleteHistory_preserves (fun middle => JobInvariant middle ∧ Deletes store middle)
      (fun middle doomed holds inactive => ?_) (fun middle doomed holds _ => ?_)
      (fun middle table holds => ?_) store deleteBatchSize before ⟨inv, fun _ => .inl rfl⟩
    · exact ⟨holds.1.deletes doomed, holds.2.trans (deletes_jobs holds.1 inactive)⟩
    · exact ⟨holds.1.congr rfl rfl (Nat.le_refl _), holds.2.trans (deletes_congr rfl rfl rfl)⟩
    · exact ⟨holds.1.congr rfl rfl (Nat.le_refl _), holds.2.trans (deletes_congr rfl rfl rfl)⟩
  exact both.2

theorem moves {operation : Operation} (inv : JobInvariant store)
    (sound : operation.retriesSound store) (done : operation.apply store = some after) :
    Moves store after := by
  cases operation with
  | addJobs now pick jobs ifNotExists =>
      obtain ⟨⟨_, result⟩, added, rfl⟩ := Option.map_eq_some_iff.mp done
      obtain ⟨_, _, _, effect⟩ := addJobs_adds added
      exact inv.moves_adds effect
  | addSchedules now schedules ifNotExists =>
      obtain ⟨⟨_, result⟩, added, rfl⟩ := Option.map_eq_some_iff.mp done
      obtain ⟨_, effect⟩ := addSchedules_adds added
      exact moves_congr effect.jobs effect.executions effect.nextUuid
  | stopSchedules now filters =>
      cases done
      exact moves_congr rfl rfl (Nat.le_refl _)
  | executionsStarted pick executions =>
      cases done
      exact inv.moves_starts (executionsStarted_starts store pick executions)
  | executionsSucceeded pick executions =>
      cases done
      obtain ⟨_, _, effect⟩ := executionsSucceeded_finishes store pick executions
      exact inv.moves_finishes effect
  | executionsFailed pick executions =>
      cases done
      obtain ⟨_, _, effect⟩ := executionsFailed_finishes store pick executions
      exact inv.moves_finishes effect
  | executionsRetried now pick executions =>
      obtain ⟨_, effect⟩ := executionsRetried_retries done
      exact inv.moves_retries effect sound.1 sound.2
  | cancelJobs now systemNow pick filters =>
      cases done
      obtain ⟨_, _, _, effect⟩ := cancelJobs_finishes store now systemNow pick filters
      exact inv.moves_finishes effect
  | deleteHistory deleteBatchSize before =>
      cases done
      exact (deletes_history inv deleteBatchSize before).moves

end JobInvariant

/-- The store as a job sees it. -/
theorem lifeCycle (id : JobId) :
    Simulation Operation.apply (fun store operation => operation.retriesSound store) JobInvariant
      (fun store => phase store id) Phase.Step where
  preserved _ _ _ inv sound done := inv.step sound.1 sound.2 done
  matched _ _ _ inv sound done := by
    obtain same | taken := inv.moves sound done id
    · rw [same]
    · exact .single taken

/-- In every run each operation moves every job by at most one step of its life
cycle, what the job asks for never changes and a phase that it has left never
comes back. -/
theorem job_follows_lifeCycle {start middle store : Store} (initial : JobInvariant start)
    (first : Reaches Operation.apply (fun store operation => operation.retriesSound store)
      start middle)
    (second : Reaches Operation.apply (fun store operation => operation.retriesSound store)
      middle store) :
    (∀ (operation : Operation) next, operation.retriesSound middle → operation.apply middle = some next →
      Moves middle next) ∧
    ∀ id, ReflTransGen Phase.Step (phase start id) (phase middle id) ∧
      ReflTransGen Phase.Step (phase middle id) (phase store id) ∧
      (phase start id = phase store id → phase middle id = phase start id) := by
  have inv := jobInvariant_of_reaches initial first
  refine ⟨fun operation next sound done => inv.moves sound done, fun id => ?_⟩
  exact ⟨(lifeCycle id).path first initial, (lifeCycle id).path second inv,
    (lifeCycle id).constant (fun _ _ => Phase.Step.rank_lt) first second initial⟩

/-- A job is retried once and fails for good. -/
theorem job_follows_lifeCycle_retriedOnce :
    ∃ middle, phase middle 0 = .pending (PostgresBackend.newJobRow 0 (plainJob 2, 0)) 2 ∧
      ReflTransGen Phase.Step .unissued (phase middle 0) ∧
      ReflTransGen Phase.Step (phase middle 0)
        (.finished (PostgresBackend.newJobRow 0 (plainJob 2, 0)) 2 (some .failed)) := by
  obtain ⟨middle, run, reached⟩ := exists_reaches_of_execute Operation.apply
    (fun store operation => operation.retriesSound store) Store.empty retriedOnce
    (fun store => (phase store 0 == .pending (PostgresBackend.newJobRow 0 (plainJob 2, 0)) 2) &&
      (execute Operation.apply (fun store operation => operation.retriesSound store) store
        [.executionsFailed (fun _ => 0) [⟨2, 0, 2, "failed"⟩]]).any fun store =>
          phase store 0 == .finished (PostgresBackend.newJobRow 0 (plainJob 2, 0)) 2 (some .failed))
    (by decide)
  rw [Bool.and_eq_true, beq_iff_eq] at reached
  obtain ⟨store, later, failed⟩ := exists_reaches_of_execute Operation.apply
    (fun store operation => operation.retriesSound store) middle
    [.executionsFailed (fun _ => 0) [⟨2, 0, 2, "failed"⟩]] _ reached.2
  have follows := (job_follows_lifeCycle JobInvariant.empty run later).2 0
  rw [beq_iff_eq] at failed
  rw [failed] at follows
  exact ⟨middle, reached.1, follows.1, follows.2.1⟩

end Ora.Postgres
