import Ora.Server.AddedLabels
import Ora.Postgres.ScheduleLink

/-!
# Refused transactions

Identifiers are issued once, so that a label key which one job or schedule has
twice is the only thing the constraints of the store can refuse.  A schedule is
also refused if its job template cannot be written as JSON.
-/

namespace Ora.Server

open Ora.Backend
open Ora.Library
open Ora.Postgres
open Ora.Postgres.PostgresBackend

/-- All executions have identifiers that were issued. -/
def ExecutionsIssued (store : Store) : Prop :=
  ∀ row ∈ store.executions.rows, row.id < store.nextUuid

namespace ExecutionsIssued

variable {store after : Store}

theorem of_map (inv : ExecutionsIssued store) {change : ExecutionRow → ExecutionRow}
    (keeps : ∀ row, (change row).id = row.id)
    (executions : after.executions.rows = store.executions.rows.map change)
    (next : after.nextUuid = store.nextUuid) : ExecutionsIssued after := by
  rw [ExecutionsIssued, executions, next, List.forall_mem_map]
  intro row member
  rw [keeps]
  exact inv row member

theorem of_append (inv : ExecutionsIssued store) {added : List ExecutionRow}
    (executions : after.executions.rows = store.executions.rows ++ added)
    (fresh : ∀ row ∈ added, row.id < after.nextUuid)
    (next : store.nextUuid ≤ after.nextUuid) : ExecutionsIssued after := by
  intro row member
  rw [executions, List.mem_append] at member
  obtain old | new := member
  · exact Nat.lt_of_lt_of_le (inv row old) next
  · exact fresh row new

theorem finishes (inv : ExecutionsIssued store) {status : ExecutionStatus}
    {change : ExecutionRow → ExecutionRow} {mark : JobRow → JobRow}
    {free : ScheduleRow → ScheduleRow} (effect : Finishes status change mark free store after) :
    ExecutionsIssued after :=
  inv.of_map (fun row => (effect.execution row).id_eq) effect.executions effect.nextUuid

theorem step {operation : Operation} (inv : ExecutionsIssued store)
    (done : operation.apply store = some after) : ExecutionsIssued after := by
  cases operation with
  | addJobs now pick jobs ifNotExists =>
      obtain ⟨⟨_, result⟩, added, rfl⟩ := Option.map_eq_some_iff.mp done
      obtain ⟨_, _, _, effect⟩ := addJobs_adds added
      exact inv.of_append effect.executions (fun row new => (effect.fresh row new).2) effect.nextUuid
  | addSchedules now schedules ifNotExists =>
      obtain ⟨⟨_, result⟩, added, rfl⟩ := Option.map_eq_some_iff.mp done
      obtain ⟨_, effect⟩ := addSchedules_adds added
      intro row member
      exact Nat.lt_of_lt_of_le (inv row (effect.executions ▸ member)) effect.nextUuid
  | stopSchedules now filters =>
      cases done
      exact inv
  | executionsStarted pick executions =>
      cases done
      have effect := executionsStarted_starts store pick executions
      exact inv.of_map (fun row => (effect.keeps row).1) effect.executions effect.nextUuid
  | executionsSucceeded pick executions =>
      cases done
      obtain ⟨_, _, effect⟩ := executionsSucceeded_finishes store pick executions
      exact inv.finishes effect
  | executionsFailed pick executions =>
      cases done
      obtain ⟨_, _, effect⟩ := executionsFailed_finishes store pick executions
      exact inv.finishes effect
  | executionsRetried now pick executions =>
      obtain ⟨added, effect⟩ := executionsRetried_retries done
      intro row member
      rw [effect.executions, List.mem_append, List.mem_map] at member
      obtain ⟨before, present, rfl⟩ | new := member
      · rw [(effect.execution before).id_eq, effect.nextUuid]
        exact Nat.lt_of_lt_of_le (inv before present) (Nat.le_add_right ..)
      · exact (effect.fresh new).2
  | cancelJobs now systemNow pick filters =>
      cases done
      obtain ⟨_, _, _, effect⟩ := cancelJobs_finishes store now systemNow pick filters
      exact inv.finishes effect
  | deleteHistory deleteBatchSize before =>
      cases done
      exact deleteHistory_preserves (fun _ _ inv _ row member => inv row (List.mem_filter.mp member).1)
        (fun _ _ inv _ => inv) (fun _ _ inv => inv) deleteBatchSize before inv

end ExecutionsIssued

/-- The labels have distinct keys. -/
def UniqueKeys (labels : List Label) : Prop :=
  (labels.map Label.key).Nodup

instance (labels : List Label) : Decidable (UniqueKeys labels) :=
  inferInstanceAs (Decidable (labels.map Label.key).Nodup)

/-- A key given twice for one identifier is a primary key given twice. -/
theorem uniqueKeys_of_rows {β ρ : Type} {rowKey : ρ → Uuid × String} (row : Uuid → Label → ρ)
    (labels : β → List Label) (keyed : ∀ id label, rowKey (row id label) = (id, label.key))
    {entries : List (β × Uuid)}
    (distinct : ((entries.flatMap fun entry => (labels entry.1).map (row entry.2)).map rowKey).Nodup) :
    ∀ entry ∈ entries, UniqueKeys (labels entry.1) := by
  intro entry member
  rw [List.map_flatMap, List.nodup_flatMap] at distinct
  have own := distinct.1 entry member
  simp only [List.map_map, Function.comp_def, keyed] at own
  refine .of_map (fun key => (entry.2, key)) ?_
  rwa [List.map_map]

/-- Labels of new identifiers are inserted if no key is given twice for one. -/
theorem insert?_labels_iff {β ρ : Type} {rowKey : ρ → Uuid × String} (table : Table rowKey)
    (row : Uuid → Label → ρ) (labels : β → List Label)
    (keyed : ∀ id label, rowKey (row id label) = (id, label.key)) {entries : List (β × Uuid)}
    (ids : (entries.map Prod.snd).Nodup)
    (fresh : ∀ known ∈ table.rows, (rowKey known).1 ∉ entries.map Prod.snd) :
    (table.insert? (entries.flatMap fun entry => (labels entry.1).map (row entry.2))).isSome = true ↔
      ∀ entry ∈ entries, UniqueKeys (labels entry.1) := by
  constructor
  · intro done
    obtain ⟨after, inserted⟩ := Option.isSome_iff_exists.mp done
    have unique := after.unique
    rw [Table.insert?_eq_some_iff.mp inserted, List.map_append] at unique
    exact uniqueKeys_of_rows row labels keyed (List.nodup_append.mp unique).2.1
  · intro distinct
    obtain ⟨after, inserted⟩ := insert?_of_disjoint table
      (labelRows_nodup row labels keyed ids distinct) (by
        intro known old added new same
        obtain ⟨entry, member, made⟩ := List.mem_flatMap.mp new
        obtain ⟨label, _, rfl⟩ := List.mem_map.mp made
        rw [keyed] at same
        exact fresh known old (List.mem_map.mpr ⟨entry, member, (congrArg Prod.fst same).symm⟩))
    rw [inserted]
    rfl

variable {store : Store}

theorem insertJobLabels?_isSome_iff {jobs : List (NewJob × JobId)}
    (ids : (jobs.map Prod.snd).Nodup)
    (fresh : ∀ row ∈ store.jobLabels.rows, row.jobId ∉ jobs.map Prod.snd)
    (exist : ∀ entry ∈ jobs, ∃ job ∈ store.jobs.rows, job.id = entry.2) :
    (store.insertJobLabels? (jobs.flatMap newJobLabels)).isSome = true ↔
      ∀ entry ∈ jobs, UniqueKeys entry.1.job.labels := by
  have inserted : (store.jobLabels.insert? (jobs.flatMap newJobLabels)).isSome = true ↔
      ∀ entry ∈ jobs, UniqueKeys entry.1.job.labels :=
    insert?_labels_iff store.jobLabels (fun id label => JobLabelRow.mk id label.key label.value)
      (fun job : NewJob => job.job.labels) (fun _ _ => rfl) ids fresh
  have referenced : ∀ label ∈ jobs.flatMap newJobLabels, ∃ job ∈ store.jobs.rows,
      job.id = label.jobId := by
    intro label member
    obtain ⟨entry, present, made⟩ := List.mem_flatMap.mp member
    obtain ⟨_, _, rfl⟩ := List.mem_map.mp made
    exact exist entry present
  refine Iff.trans ?_ inserted
  unfold Store.insertJobLabels?
  split
  · rename_i refused
    rw [refused]
    exact iff_of_false nofun nofun
  · rename_i labels done
    rw [dif_pos referenced]
    exact iff_of_true rfl (Option.isSome_iff_exists.mpr ⟨labels, done⟩)

theorem insertScheduleLabels?_isSome_iff {schedules : List (ScheduleDefinition × ScheduleId)}
    (ids : (schedules.map Prod.snd).Nodup)
    (fresh : ∀ row ∈ store.scheduleLabels.rows, row.scheduleId ∉ schedules.map Prod.snd)
    (exist : ∀ entry ∈ schedules, ∃ row ∈ store.schedules.rows, row.id = entry.2) :
    (store.insertScheduleLabels? (schedules.flatMap newScheduleLabels)).isSome = true ↔
      ∀ entry ∈ schedules, UniqueKeys entry.1.labels := by
  have inserted : (store.scheduleLabels.insert? (schedules.flatMap newScheduleLabels)).isSome = true ↔
      ∀ entry ∈ schedules, UniqueKeys entry.1.labels :=
    insert?_labels_iff store.scheduleLabels
      (fun id label => ScheduleLabelRow.mk id label.key label.value)
      ScheduleDefinition.labels (fun _ _ => rfl) ids fresh
  have referenced : ∀ label ∈ schedules.flatMap newScheduleLabels, ∃ row ∈ store.schedules.rows,
      row.id = label.scheduleId := by
    intro label member
    obtain ⟨entry, present, made⟩ := List.mem_flatMap.mp member
    obtain ⟨_, _, rfl⟩ := List.mem_map.mp made
    exact exist entry present
  refine Iff.trans ?_ inserted
  unfold Store.insertScheduleLabels?
  split
  · rename_i refused
    rw [refused]
    exact iff_of_false nofun nofun
  · rename_i labels done
    rw [dif_pos referenced]
    exact iff_of_true rfl (Option.isSome_iff_exists.mpr ⟨labels, done⟩)

theorem insertJobs?_inserts {rows : List JobRow} (ids : (rows.map JobRow.id).Nodup)
    (fresh : ∀ job ∈ store.jobs.rows, ∀ row ∈ rows, job.id ≠ row.id) :
    ∃ after, store.insertJobs? rows = some after ∧ after.jobLabels = store.jobLabels := by
  obtain ⟨table, inserted⟩ := insert?_of_disjoint store.jobs ids fresh
  unfold Store.insertJobs?
  split
  · rename_i refused
    rw [inserted] at refused
    cases refused
  · exact ⟨_, rfl, rfl⟩

theorem insertSchedules?_inserts {rows : List ScheduleRow} (ids : (rows.map ScheduleRow.id).Nodup)
    (fresh : ∀ known ∈ store.schedules.rows, ∀ row ∈ rows, known.id ≠ row.id) :
    ∃ after, store.insertSchedules? rows = some after ∧
      after.scheduleLabels = store.scheduleLabels := by
  obtain ⟨table, inserted⟩ := insert?_of_disjoint store.schedules ids fresh
  unfold Store.insertSchedules?
  split
  · rename_i refused
    rw [inserted] at refused
    cases refused
  · exact ⟨_, rfl, rfl⟩

/-- Jobs with new identifiers are inserted unless one has a label key twice. -/
theorem insertNewJobs_isSome_iff (now : Time) {jobs : List (NewJob × JobId)}
    (issued : ExecutionsIssued store) (ids : (jobs.map Prod.snd).Nodup)
    (fresh : ∀ job ∈ store.jobs.rows, job.id ∉ jobs.map Prod.snd) :
    (insertNewJobs store now jobs).isSome = true ↔
      ∀ entry ∈ jobs, UniqueKeys entry.1.job.labels := by
  obtain ⟨withJobs, inserted, labels⟩ := @insertJobs?_inserts store (jobs.map (newJobRow now))
    (by rw [List.map_map]; exact ids) (by
      intro job old row new same
      obtain ⟨entry, member, rfl⟩ := List.mem_map.mp new
      exact fresh job old (List.mem_map.mpr ⟨entry, member, same.symm⟩))
  obtain ⟨rows, _, executions, next⟩ := Store.insertJobs?_spec inserted
  have exist : ∀ entry ∈ jobs, ∃ job ∈ withJobs.jobs.rows, job.id = entry.2 := by
    intro entry member
    rw [rows]
    exact ⟨newJobRow now entry, List.mem_append_right _ (List.mem_map_of_mem member), rfl⟩
  have others : ∀ row ∈ withJobs.jobLabels.rows, row.jobId ∉ jobs.map Prod.snd := by
    intro row member
    obtain ⟨job, present, same⟩ := store.jobLabel_job row (labels ▸ member)
    rw [← same]
    exact fresh job present
  rw [← insertJobLabels?_isSome_iff ids others exist, insertNewJobs, inserted, Option.bind_some]
  cases done : withJobs.insertJobLabels? (jobs.flatMap newJobLabels) with
  | none => simp
  | some withLabels =>
      obtain ⟨labelJobs, _, labelExecutions, labelNext⟩ := Store.insertJobLabels?_spec done
      obtain ⟨after, added⟩ := @addExecutions_isSome withLabels now
        (jobs.map fun entry => ⟨entry.2, entry.1.job.targetExecutionTime⟩) (by
          rw [labelExecutions, executions, labelNext, next]
          exact issued) (by
          intro execution member
          obtain ⟨entry, present, rfl⟩ := List.mem_map.mp member
          rw [labelJobs]
          exact exist entry present)
      rw [Option.bind_some, added]
      simp

/-- The jobs that a call adds, unless there are existing ones. -/
def admittedJobs (store : Store) (pick : Pick) (jobs : List NewJob) : List (NewJob × JobId) :=
  let entries := jobs.zip (store.nowV7 jobs.length).1
  admitted (claimSchedules (store.nowV7 jobs.length).2 pick (claims entries)).2 entries

/-- One of the jobs or schedules that the operation adds has a label key twice, or
a schedule has a template that is due before the epoch. -/
def Refuses (store : Store) : Operation → Prop
  | .addJobs now pick jobs ifNotExists => existingJobs store now ifNotExists = [] ∧
      ∃ entry ∈ admittedJobs store pick jobs, ¬UniqueKeys entry.1.job.labels
  | .addSchedules _ schedules ifNotExists => existingSchedules store ifNotExists = [] ∧
      ∃ schedule ∈ schedules, ¬UniqueKeys schedule.labels ∨
        schedule.jobTemplate.targetExecutionTime < 0
  | _ => False

/-- Identifiers of the next calls of `Uuid::now_v7` are used by no row. -/
theorem not_mem_nextIds {id : Uuid} (issued : id < store.nextUuid) (count : Nat) :
    id ∉ List.range' store.nextUuid count := by
  intro member
  exact absurd issued (Nat.not_lt.mpr (List.mem_range'_1.mp member).1)

theorem addJobs_refused_iff (inv : ScheduleLink store) (issued : ExecutionsIssued store)
    (now : Time) (pick : Pick) (jobs : List NewJob) (ifNotExists : Option JobFilters) :
    addJobs store now pick jobs ifNotExists = none ↔
      Refuses store (.addJobs now pick jobs ifNotExists) := by
  have length : jobs.length = (List.range' store.nextUuid jobs.length).length := by simp
  have ids : ((admittedJobs store pick jobs).map Prod.snd).Sublist
      (List.range' store.nextUuid jobs.length) := by
    have all := (List.filter_sublist (p := fun entry : NewJob × JobId => entry.1.scheduleId.isNone ||
      (claimSchedules (store.nowV7 jobs.length).2 pick
        (claims (jobs.zip (List.range' store.nextUuid jobs.length)))).2.contains entry.2)
      (l := jobs.zip (List.range' store.nextUuid jobs.length))).map Prod.snd
    rwa [List.map_snd_zip length.ge] at all
  obtain ⟨_, sameJobs, sameExecutions, sameNext⟩ := claimSchedules_spec (store.nowV7 jobs.length).2
    pick (claims (jobs.zip (List.range' store.nextUuid jobs.length)))
  have inserted := @insertNewJobs_isSome_iff (claimSchedules (store.nowV7 jobs.length).2 pick
      (claims (jobs.zip (List.range' store.nextUuid jobs.length)))).1 now
    (admittedJobs store pick jobs) (by
      rw [ExecutionsIssued, sameExecutions, sameNext]
      exact fun row member => Nat.lt_add_right _ (issued row member))
    (ids.nodup List.nodup_range') (by
      rw [sameJobs]
      exact fun job member known => not_mem_nextIds (inv.issuedJobs job member) _ (ids.subset known))
  have admits : admitJobs (store.nowV7 jobs.length).2 now pick
      (jobs.zip (List.range' store.nextUuid jobs.length)) = none ↔
      ∃ entry ∈ admittedJobs store pick jobs, ¬UniqueKeys entry.1.job.labels := by
    unfold admitJobs
    simp only
    split
    · rename_i nothing
      have none : admittedJobs store pick jobs = [] := List.isEmpty_iff.mp nothing
      simp [none]
    · rw [Option.map_eq_none_iff, ← Option.not_isSome_iff_eq_none]
      refine (not_congr inserted).trans ?_
      simp only [not_forall, exists_prop]
  unfold addJobs Refuses
  split
  · rename_i nothing
    refine iff_of_false (by simp) ?_
    rintro ⟨_, entry, member, _⟩
    have none := ids.length_le
    rw [List.isEmpty_iff.mp nothing] at member none
    simp [List.eq_nil_of_length_eq_zero (Nat.le_zero.mp (by simpa using none))] at member
  split
  · rename_i existing
    refine iff_of_false (by simp) ?_
    rintro ⟨nothing, _⟩
    simp [nothing] at existing
  · rename_i new
    have new : existingJobs store now ifNotExists = [] := by simpa using new
    exact admits.trans (and_iff_right new).symm

theorem addSchedules_refused_iff (inv : ScheduleLink store) (now : Time)
    (schedules : List ScheduleDefinition) (ifNotExists : Option ScheduleFilters) :
    addSchedules store now schedules ifNotExists = none ↔
      Refuses store (.addSchedules now schedules ifNotExists) := by
  have length : schedules.length = (List.range' store.nextUuid schedules.length).length := by simp
  have ids : ((schedules.zip (List.range' store.nextUuid schedules.length)).map Prod.snd) =
      List.range' store.nextUuid schedules.length := List.map_snd_zip length.ge
  have distinct : ((schedules.zip (List.range' store.nextUuid schedules.length)).map
      Prod.snd).Nodup := by
    rw [ids]
    exact List.nodup_range'
  obtain ⟨withRows, inserted, labels⟩ := @insertSchedules?_inserts
    (store.nowV7 schedules.length).2 ((schedules.zip
      (List.range' store.nextUuid schedules.length)).map (newScheduleRow now))
    (by
      rw [List.map_map]
      exact distinct) (by
      intro known old row new same
      obtain ⟨entry, member, rfl⟩ := List.mem_map.mp new
      have issued := not_mem_nextIds (inv.issuedSchedules known old) schedules.length
      rw [← ids] at issued
      exact issued (List.mem_map.mpr ⟨entry, member, same.symm⟩))
  obtain ⟨rows, _⟩ := Store.insertSchedules?_spec inserted
  have keys := @insertScheduleLabels?_isSome_iff withRows
    (schedules.zip (List.range' store.nextUuid schedules.length)) distinct (by
      intro row member
      obtain ⟨known, old, same⟩ := store.scheduleLabel_schedule row (labels ▸ member)
      rw [ids, ← same]
      exact not_mem_nextIds (inv.issuedSchedules known old) _) (by
      intro entry member
      rw [rows]
      exact ⟨newScheduleRow now entry, List.mem_append_right _ (List.mem_map_of_mem member), rfl⟩)
  have firsts : (schedules.zip (List.range' store.nextUuid schedules.length)).map Prod.fst =
      schedules := List.map_fst_zip length.le
  have unique : (∀ entry ∈ schedules.zip (List.range' store.nextUuid schedules.length),
      UniqueKeys entry.1.labels) ↔ ∀ schedule ∈ schedules, UniqueKeys schedule.labels := by
    conv_rhs => rw [← firsts, List.forall_mem_map]
  rw [unique] at keys
  unfold addSchedules Refuses
  split
  · rename_i nothing
    simp [List.isEmpty_iff.mp nothing]
  split
  · rename_i existing
    refine iff_of_false (by simp) ?_
    rintro ⟨nothing, _⟩
    simp [nothing] at existing
  rename_i new
  have new : existingSchedules store ifNotExists = [] := by simpa using new
  refine Iff.trans ?_ (and_iff_right new).symm
  split
  · rename_i unwritten
    have early : ∃ schedule ∈ schedules, schedule.jobTemplate.targetExecutionTime < 0 := by
      simpa [templateSerializable] using unwritten
    exact iff_of_true rfl (early.imp fun _ both => ⟨both.1, .inr both.2⟩)
  · rename_i written
    have late : ∀ schedule ∈ schedules, ¬schedule.jobTemplate.targetExecutionTime < 0 := by
      simpa [templateSerializable] using written
    simp only [Store.nowV7] at inserted ⊢
    rw [inserted, Option.bind_some, Option.map_eq_none_iff, ← Option.not_isSome_iff_eq_none]
    refine (not_congr keys).trans ?_
    simp only [not_forall, exists_prop]
    exact exists_congr fun schedule => and_congr_right fun member =>
      (or_iff_left (late schedule member)).symm

theorem executionsRetried_isSome (issued : ExecutionsIssued store) (now : Time) (pick : Pick)
    (executions : List RetriedExecution) :
    ∃ after, executionsRetried store now pick executions = some after := by
  unfold executionsRetried
  split
  · exact ⟨_, rfl⟩
  simp only
  split
  · exact ⟨_, rfl⟩
  · refine addExecutions_isSome now ?_ (retained_exist store pick _ _)
    exact issued.of_map (fun row => (finishRow_finish setFailed_final row).id_eq) rfl rfl

end Ora.Server
