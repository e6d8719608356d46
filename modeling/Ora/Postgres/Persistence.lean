import Ora.Postgres.JobInvariant

/-!
# What is kept of stored rows

Whatever an operation does, a job or schedule that is still stored afterwards
has the columns it was inserted with, apart from those that say whether it is
finished, and the labels it was inserted with.  Rows that are new have
identifiers that were not issued before.
-/

namespace Ora.Postgres

open Ora.Backend
open Ora.Library

/-- The columns that are only written by the insert. -/
def JobRow.columns (row : JobRow) : JobRow :=
  { row with
    inactiveSince := none
    inactiveStatus := none }

def ScheduleRow.columns (row : ScheduleRow) : ScheduleRow :=
  { row with
    stoppedAt := none
    activeJobId := none }

def ExecutionRow.columns (row : ExecutionRow) : ExecutionRow :=
  { row with
    executorId := none
    startedAt := none
    succeededAt := none
    failedAt := none
    cancelledAt := none
    outputJson := none
    failureReason := none }

section Rows

variable {ρ lab : Type} {id : ρ → Uuid} {columns : ρ → ρ} {owner : lab → Uuid}

/-- Rows whose identifier is below the bound were there before, with the same
columns and labels. -/
structure RowsKept (id : ρ → Uuid) (columns : ρ → ρ) (owner : lab → Uuid) (bound : Uuid)
    (rows after : List ρ) (labels afterLabels : List lab) : Prop where
  rows : ∀ row ∈ after, id row < bound → ∃ before ∈ rows, columns before = columns row
  labels : ∀ row ∈ after, id row < bound → ∀ label, owner label = id row →
    (label ∈ afterLabels ↔ label ∈ labels)

namespace RowsKept

variable {bound next : Uuid} {rows middle after : List ρ} {labels middleLabels afterLabels : List lab}

theorem refl (bound : Uuid) (rows : List ρ) (labels : List lab) :
    RowsKept id columns owner bound rows rows labels labels :=
  ⟨fun row member _ => ⟨row, member, rfl⟩, fun _ _ _ _ _ => Iff.rfl⟩

theorem trans (key : ∀ row other, columns row = columns other → id row = id other)
    (bounds : bound ≤ next)
    (first : RowsKept id columns owner bound rows middle labels middleLabels)
    (second : RowsKept id columns owner next middle after middleLabels afterLabels) :
    RowsKept id columns owner bound rows after labels afterLabels where
  rows row member old := by
    obtain ⟨between, present, same⟩ := second.rows row member (Nat.lt_of_lt_of_le old bounds)
    obtain ⟨before, known, unchanged⟩ := first.rows between present (key _ _ same ▸ old)
    exact ⟨before, known, unchanged.trans same⟩
  labels row member old label own := by
    obtain ⟨between, present, same⟩ := second.rows row member (Nat.lt_of_lt_of_le old bounds)
    rw [second.labels row member (Nat.lt_of_lt_of_le old bounds) label own]
    exact first.labels between present (key _ _ same ▸ old) label (own.trans (key _ _ same).symm)

/-- Rows are changed in place, new ones are appended with their labels. -/
theorem of_update {change : ρ → ρ} (new : List ρ) (newLabels : List lab)
    (sameRows : after = rows.map change ++ new) (sameLabels : afterLabels = labels ++ newLabels)
    (keeps : ∀ row ∈ rows, columns (change row) = columns row)
    (fresh : ∀ row ∈ new, bound ≤ id row) (freshLabels : ∀ label ∈ newLabels, bound ≤ owner label) :
    RowsKept id columns owner bound rows after labels afterLabels where
  rows row member old := by
    rw [sameRows, List.mem_append, List.mem_map] at member
    rcases member with ⟨before, present, rfl⟩ | added
    · exact ⟨before, present, (keeps before present).symm⟩
    · exact absurd old (Nat.not_lt.mpr (fresh row added))
  labels row member old label own := by
    rw [sameLabels, List.mem_append]
    refine ⟨fun found => found.resolve_right fun added => ?_, .inl⟩
    exact absurd (own ▸ old) (Nat.not_lt.mpr (freshLabels label added))

/-- Rows are deleted with their labels. -/
theorem of_delete {kept : ρ → Bool} {keptLabel : lab → Bool} (sameRows : after = rows.filter kept)
    (sameLabels : afterLabels = labels.filter keptLabel)
    (together : ∀ row ∈ rows, kept row = true → ∀ label, owner label = id row →
      keptLabel label = true) :
    RowsKept id columns owner bound rows after labels afterLabels where
  rows row member _ := by
    rw [sameRows] at member
    exact ⟨row, (List.mem_filter.mp member).1, rfl⟩
  labels row member _ label own := by
    rw [sameRows] at member
    obtain ⟨present, remains⟩ := List.mem_filter.mp member
    rw [sameLabels, List.mem_filter]
    exact and_iff_left (together row present remains label own)

end RowsKept

end Rows

abbrev JobsKept (bound : Uuid) (store after : Store) : Prop :=
  RowsKept JobRow.id JobRow.columns JobLabelRow.jobId bound store.jobs.rows after.jobs.rows
    store.jobLabels.rows after.jobLabels.rows

abbrev SchedulesKept (bound : Uuid) (store after : Store) : Prop :=
  RowsKept ScheduleRow.id ScheduleRow.columns ScheduleLabelRow.scheduleId bound
    store.schedules.rows after.schedules.rows store.scheduleLabels.rows after.scheduleLabels.rows

structure StoreKept (store after : Store) : Prop where
  next : store.nextUuid ≤ after.nextUuid
  jobs : JobsKept store.nextUuid store after
  schedules : SchedulesKept store.nextUuid store after

theorem JobRow.columns_id (row other : JobRow) (same : row.columns = other.columns) :
    row.id = other.id := by
  change row.columns.id = other.columns.id
  rw [same]

theorem ScheduleRow.columns_id (row other : ScheduleRow) (same : row.columns = other.columns) :
    row.id = other.id := by
  change row.columns.id = other.columns.id
  rw [same]

/-- The label tables are left alone. -/
structure LabelsKept (store after : Store) : Prop where
  jobs : after.jobLabels = store.jobLabels
  schedules : after.scheduleLabels = store.scheduleLabels

theorem markJobsInactive_labels (store : Store) (pick : Pick) (jobs : List (JobId × Time))
    (status : ExecutionStatus) : LabelsKept store (markJobsInactive store pick jobs status).1 := by
  cases jobs <;> exact ⟨rfl, rfl⟩

theorem insertExecutions?_labels {store after : Store} {rows : List ExecutionRow}
    (done : store.insertExecutions? rows = some after) : LabelsKept store after := by
  unfold Store.insertExecutions? at done
  split at done
  · cases done
  · split at done
    · cases done
      exact ⟨rfl, rfl⟩
    · cases done

theorem addExecutions_labels {store after : Store} {now : Time} {executions : List NewExecution}
    (done : addExecutions store now executions = some after) : LabelsKept store after := by
  cases executions with
  | nil =>
      cases done
      exact ⟨rfl, rfl⟩
  | cons _ _ =>
      have kept := insertExecutions?_labels done
      exact ⟨kept.jobs, kept.schedules⟩

theorem claimSchedules_labels (store : Store) (pick : Pick) (source : List (JobId × ScheduleId)) :
    LabelsKept store (PostgresBackend.claimSchedules store pick source).1 := by
  cases source <;> exact ⟨rfl, rfl⟩

theorem insertJobs?_labels {store after : Store} {rows : List JobRow}
    (done : store.insertJobs? rows = some after) : LabelsKept store after := by
  unfold Store.insertJobs? at done
  split at done
  · cases done
  · cases done
    exact ⟨rfl, rfl⟩

theorem insertJobLabels?_labels {store after : Store} {rows : List JobLabelRow}
    (done : store.insertJobLabels? rows = some after) :
    after.jobLabels.rows = store.jobLabels.rows ++ rows ∧
      after.scheduleLabels = store.scheduleLabels := by
  unfold Store.insertJobLabels? at done
  split at done
  · cases done
  · rename_i labels inserted
    split at done
    · cases done
      exact ⟨Table.insert?_eq_some_iff.mp inserted, rfl⟩
    · cases done

theorem executionsRetried_labels {store after : Store} {now : Time} {pick : Pick}
    {executions : List RetriedExecution}
    (done : PostgresBackend.executionsRetried store now pick executions = some after) :
    LabelsKept store after := by
  cases executions with
  | nil =>
      cases done
      exact ⟨rfl, rfl⟩
  | cons first rest =>
      unfold PostgresBackend.executionsRetried at done
      rw [if_neg (by simp)] at done
      simp only at done
      split at done
      · cases done
        exact ⟨rfl, rfl⟩
      · have kept := addExecutions_labels done
        exact ⟨kept.jobs, kept.schedules⟩

theorem cancelJobs_labels (store : Store) (now systemNow : Time) (pick : Pick)
    (filters : JobFilters) :
    LabelsKept store (PostgresBackend.cancelJobs store now systemNow pick filters).1 := by
  have same : LabelsKept store (Postgres.cancelJobs store now filters).1 := by
    unfold Postgres.cancelJobs
    split <;> exact ⟨rfl, rfl⟩
  have marked := markJobsInactive_labels (Postgres.cancelJobs store now filters).1 pick
    ((Postgres.cancelJobs store now filters).2.map fun job => (job.jobId, systemNow)) .cancelled
  exact ⟨marked.jobs.trans same.jobs, marked.schedules.trans same.schedules⟩

theorem insertSchedules?_labels {store after : Store} {rows : List ScheduleRow}
    (done : store.insertSchedules? rows = some after) : LabelsKept store after := by
  unfold Store.insertSchedules? at done
  split at done
  · cases done
  · cases done
    exact ⟨rfl, rfl⟩

theorem insertScheduleLabels?_labels {store after : Store} {rows : List ScheduleLabelRow}
    (done : store.insertScheduleLabels? rows = some after) :
    after.scheduleLabels.rows = store.scheduleLabels.rows ++ rows ∧
      after.jobLabels = store.jobLabels := by
  unfold Store.insertScheduleLabels? at done
  split at done
  · cases done
  · rename_i labels inserted
    split at done
    · cases done
      exact ⟨Table.insert?_eq_some_iff.mp inserted, rfl⟩
    · cases done

open PostgresBackend

theorem insertNewJobs_labels {store after : Store} {now : Time} {jobs : List (NewJob × JobId)}
    (done : insertNewJobs store now jobs = some after) :
    after.jobLabels.rows = store.jobLabels.rows ++ jobs.flatMap newJobLabels ∧
      after.scheduleLabels = store.scheduleLabels := by
  obtain ⟨withJobs, jobsDone, done⟩ := Option.bind_eq_some_iff.mp done
  obtain ⟨withLabels, labelsDone, done⟩ := Option.bind_eq_some_iff.mp done
  have jobsKept := insertJobs?_labels jobsDone
  obtain ⟨rows, schedules⟩ := insertJobLabels?_labels labelsDone
  have executionsKept := addExecutions_labels done
  exact ⟨by rw [executionsKept.jobs, rows, jobsKept.jobs],
    by rw [executionsKept.schedules, schedules, jobsKept.schedules]⟩

/-- Jobs are added with labels of their own, those of schedules are left alone. -/
theorem addJobs_labels {store after : Store} {now : Time} {pick : Pick} {jobs : List NewJob}
    {ifNotExists : Option JobFilters} {result : AddedJobs}
    (done : addJobs store now pick jobs ifNotExists = some (after, result)) :
    after.scheduleLabels = store.scheduleLabels ∧
      ∃ new, after.jobLabels.rows = store.jobLabels.rows ++ new ∧
        ∀ label ∈ new, store.nextUuid ≤ label.jobId := by
  have nothing : store.scheduleLabels = store.scheduleLabels ∧
      ∃ new, store.jobLabels.rows = store.jobLabels.rows ++ new ∧
        ∀ label ∈ new, store.nextUuid ≤ label.jobId := ⟨rfl, [], by simp, by simp⟩
  unfold addJobs at done
  split at done
  · cases done
    exact nothing
  split at done
  · cases done
    exact nothing
  have claimed := claimSchedules_labels (store.nowV7 jobs.length).2 pick
    (claims (jobs.zip (store.nowV7 jobs.length).1))
  simp only [admitJobs] at done
  split at done
  · cases done
    exact ⟨claimed.schedules, [], by rw [claimed.jobs]; exact (List.append_nil _).symm, by simp⟩
  · obtain ⟨inserted, insertDone, pair⟩ := Option.map_eq_some_iff.mp done
    cases pair
    obtain ⟨rows, schedules⟩ := insertNewJobs_labels insertDone
    refine ⟨schedules.trans claimed.schedules, _, by rw [rows, claimed.jobs]; rfl, ?_⟩
    intro label member
    obtain ⟨entry, admission, own⟩ := List.mem_flatMap.mp member
    obtain ⟨_, _, rfl⟩ := List.mem_map.mp own
    have issued := (List.of_mem_zip (List.mem_filter.mp admission).1).2
    exact (List.mem_range'_1.mp issued).1

theorem addSchedules_labels {store after : Store} {now : Time} {schedules : List ScheduleDefinition}
    {ifNotExists : Option ScheduleFilters} {result : AddedSchedules}
    (done : addSchedules store now schedules ifNotExists = some (after, result)) :
    after.jobLabels = store.jobLabels ∧
      ∃ new, after.scheduleLabels.rows = store.scheduleLabels.rows ++ new ∧
        ∀ label ∈ new, store.nextUuid ≤ label.scheduleId := by
  have nothing : store.jobLabels = store.jobLabels ∧
      ∃ new, store.scheduleLabels.rows = store.scheduleLabels.rows ++ new ∧
        ∀ label ∈ new, store.nextUuid ≤ label.scheduleId := ⟨rfl, [], by simp, by simp⟩
  unfold addSchedules at done
  split at done
  · cases done
    exact nothing
  split at done
  · cases done
    exact nothing
  split at done
  · cases done
  obtain ⟨withRows, rowsDone, done⟩ := Option.bind_eq_some_iff.mp done
  obtain ⟨withLabels, labelsDone, pair⟩ := Option.map_eq_some_iff.mp done
  cases pair
  have rowsKept := insertSchedules?_labels rowsDone
  obtain ⟨rows, jobs⟩ := insertScheduleLabels?_labels labelsDone
  refine ⟨jobs.trans rowsKept.jobs, _, by rw [rows, rowsKept.schedules], ?_⟩
  intro label member
  obtain ⟨entry, present, own⟩ := List.mem_flatMap.mp member
  obtain ⟨_, _, rfl⟩ := List.mem_map.mp own
  exact (List.mem_range'_1.mp (List.of_mem_zip present).2).1

namespace StoreKept

variable {store middle after : Store}

theorem refl (store : Store) : StoreKept store store :=
  ⟨Nat.le_refl _, .refl .., .refl ..⟩

theorem trans (first : StoreKept store middle) (second : StoreKept middle after) :
    StoreKept store after where
  next := Nat.le_trans first.next second.next
  jobs := first.jobs.trans JobRow.columns_id first.next second.jobs
  schedules := first.schedules.trans ScheduleRow.columns_id first.next second.schedules

/-- Jobs and schedules are changed in place. -/
theorem of_update {mark : JobRow → JobRow} {free : ScheduleRow → ScheduleRow}
    (labels : LabelsKept store after) (next : store.nextUuid ≤ after.nextUuid)
    (jobs : after.jobs.rows = store.jobs.rows.map mark)
    (keepsJobs : ∀ row, (mark row).columns = row.columns)
    (schedules : after.schedules.rows = store.schedules.rows.map free)
    (keepsSchedules : ∀ row, (free row).columns = row.columns) : StoreKept store after where
  next := next
  jobs := .of_update [] [] (by rw [jobs, List.append_nil])
    (by rw [labels.jobs, List.append_nil]) (fun row _ => keepsJobs row) (by simp) (by simp)
  schedules := .of_update [] [] (by rw [schedules, List.append_nil])
    (by rw [labels.schedules, List.append_nil]) (fun row _ => keepsSchedules row) (by simp) (by simp)

theorem congr (labels : LabelsKept store after) (next : store.nextUuid ≤ after.nextUuid)
    (jobs : after.jobs = store.jobs) (schedules : after.schedules = store.schedules) :
    StoreKept store after :=
  of_update labels next (by rw [jobs, List.map_id']) (fun _ => rfl)
    (by rw [schedules, List.map_id']) fun _ => rfl

theorem finishes {status : ExecutionStatus} {change : ExecutionRow → ExecutionRow}
    {mark : JobRow → JobRow} {free : ScheduleRow → ScheduleRow} (labels : LabelsKept store after)
    (effect : Finishes status change mark free store after) : StoreKept store after := by
  refine of_update labels (Nat.le_of_eq effect.nextUuid.symm) effect.jobs ?_ effect.schedules ?_
  · intro row
    cases done : settled store change row.id with
    | true =>
        obtain ⟨time, marked⟩ := effect.marked row done
        rw [marked]
        rfl
    | false => rw [effect.unmarked row done]
  · intro row
    by_cases running : ∀ id, row.activeJobId = some id → settled store change id = false
    · rw [effect.unfreed row running]
    · simp only [not_forall, Bool.not_eq_false] at running
      obtain ⟨id, claimed, done⟩ := running
      rw [effect.freed row id claimed done]
      rfl

theorem addsJobs {now : Time} {pick : Pick} {jobs : List NewJob}
    {ifNotExists : Option JobFilters} {result : AddedJobs}
    (done : addJobs store now pick jobs ifNotExists = some (after, result)) :
    StoreKept store after := by
  obtain ⟨newJobs, added, claim, effect⟩ := addJobs_adds done
  obtain ⟨scheduleLabels, newLabels, labels, freshLabels⟩ := addJobs_labels done
  refine ⟨effect.nextUuid, ?_, ?_⟩
  · exact .of_update _ _ (by rw [effect.jobs, List.map_id']) labels (fun _ _ => rfl)
      (fun job member => (effect.freshJobs job member).1) freshLabels
  · refine .of_update [] [] (by rw [effect.schedules, List.append_nil])
      (by rw [scheduleLabels, List.append_nil]) ?_ (by simp) (by simp)
    intro row member
    rcases effect.claims row member with kept | ⟨job, _, _, _, _, claimed⟩
    · rw [kept]
    · rw [claimed]
      rfl

theorem addsSchedules {now : Time} {schedules : List ScheduleDefinition}
    {ifNotExists : Option ScheduleFilters} {result : AddedSchedules}
    (done : addSchedules store now schedules ifNotExists = some (after, result)) :
    StoreKept store after := by
  obtain ⟨new, effect⟩ := addSchedules_adds done
  obtain ⟨jobLabels, newLabels, labels, freshLabels⟩ := addSchedules_labels done
  refine ⟨effect.nextUuid, ?_, ?_⟩
  · rw [JobsKept, effect.jobs, jobLabels]
    exact .refl ..
  · exact .of_update _ _ (by rw [effect.schedules, List.map_id']) labels (fun _ _ => rfl)
      (fun row member => (effect.fresh row member).1) freshLabels

theorem deletesJobs (store : Store) (doomed : JobRow → Bool) :
    StoreKept store (store.deleteJobs doomed) where
  next := Nat.le_refl _
  jobs := by
    refine .of_delete rfl rfl ?_
    intro row member remains label own
    have kept := JobInvariant.jobDeleted_eq_false member (by simpa using remains)
    simp [own, kept]
  schedules := .refl ..

theorem deletesSchedules (store : Store) (doomed : ScheduleRow → Bool) :
    StoreKept store (store.deleteSchedules doomed) where
  next := Nat.le_refl _
  jobs := .refl ..
  schedules := by
    refine .of_delete rfl rfl ?_
    intro row member remains label own
    simp only [Bool.not_eq_true', List.any_eq_false, Bool.and_eq_true, beq_iff_eq, not_and]
    intro other present gone same
    rw [store.schedules.eq_of_key present member (same.trans own)] at gone
    simp [gone] at remains

/-- What every operation keeps. -/
theorem of_apply {operation : Operation} (done : operation.apply store = some after) :
    StoreKept store after := by
  cases operation with
  | addJobs now pick jobs ifNotExists =>
      obtain ⟨⟨_, result⟩, added, rfl⟩ := Option.map_eq_some_iff.mp done
      exact addsJobs added
  | addSchedules now schedules ifNotExists =>
      obtain ⟨⟨_, result⟩, added, rfl⟩ := Option.map_eq_some_iff.mp done
      exact addsSchedules added
  | stopSchedules now filters =>
      cases done
      refine of_update ⟨rfl, rfl⟩ (Nat.le_refl _) (List.map_id' _).symm (fun _ => rfl) rfl ?_
      intro row
      unfold stopRow
      split <;> rfl
  | executionsStarted pick executions =>
      cases done
      have effect := executionsStarted_starts store pick executions
      refine congr ?_ (Nat.le_of_eq effect.nextUuid.symm) effect.jobs effect.schedules
      cases executions <;> exact ⟨rfl, rfl⟩
  | executionsSucceeded pick executions =>
      cases done
      obtain ⟨_, _, effect⟩ := executionsSucceeded_finishes store pick executions
      refine finishes ?_ effect
      cases executions with
      | nil => exact ⟨rfl, rfl⟩
      | cons _ _ =>
          have labels := markJobsInactive_labels
          exact ⟨(labels ..).jobs, (labels ..).schedules⟩
  | executionsFailed pick executions =>
      cases done
      obtain ⟨_, _, effect⟩ := executionsFailed_finishes store pick executions
      refine finishes ?_ effect
      cases executions with
      | nil => exact ⟨rfl, rfl⟩
      | cons _ _ =>
          have labels := markJobsInactive_labels
          exact ⟨(labels ..).jobs, (labels ..).schedules⟩
  | executionsRetried now pick executions =>
      obtain ⟨_, effect⟩ := executionsRetried_retries done
      refine congr ?_ (by rw [effect.nextUuid]; exact Nat.le_add_right ..) effect.jobs effect.schedules
      exact executionsRetried_labels done
  | cancelJobs now systemNow pick filters =>
      cases done
      obtain ⟨_, _, _, effect⟩ := cancelJobs_finishes store now systemNow pick filters
      exact finishes (cancelJobs_labels store now systemNow pick filters) effect
  | deleteHistory deleteBatchSize before =>
      cases done
      exact deleteHistory_preserves (P := StoreKept store)
        (fun state doomed kept _ => kept.trans (deletesJobs state doomed))
        (fun state doomed kept _ => kept.trans (deletesSchedules state doomed))
        (fun _ _ kept => ⟨kept.next, kept.jobs, kept.schedules⟩) deleteBatchSize before (.refl store)

end StoreKept

/-- An execution that was there before has the columns it was inserted with. -/
structure ExecutionsKept (store after : Store) : Prop where
  next : store.nextUuid ≤ after.nextUuid
  rows : ∀ row ∈ after.executions.rows, row.id < store.nextUuid →
    ∃ before ∈ store.executions.rows, before.columns = row.columns

theorem ExecutionRow.columns_id {row other : ExecutionRow} (same : row.columns = other.columns) :
    row.id = other.id := by
  change row.columns.id = other.columns.id
  rw [same]

theorem finishRow_columns {σ : Type} {executionId : σ → ExecutionId}
    {set : ExecutionRow → σ → ExecutionRow} (source : List σ) (pick : Pick)
    (keeps : ∀ row entry, (set row entry).columns = row.columns) (row : ExecutionRow) :
    (finishRow executionId set source pick row).columns = row.columns :=
  Table.replaced_key ExecutionRow.columns source _ set _ keeps row

theorem cancelRow_columns (ids : List JobId) (now : Time) (row : ExecutionRow) :
    (cancelRow ids now row).columns = row.columns := by
  unfold cancelRow
  split <;> rfl

namespace ExecutionsKept

variable {store middle after : Store}

theorem refl (store : Store) : ExecutionsKept store store :=
  ⟨Nat.le_refl _, fun row member _ => ⟨row, member, rfl⟩⟩

theorem trans (first : ExecutionsKept store middle) (second : ExecutionsKept middle after) :
    ExecutionsKept store after where
  next := Nat.le_trans first.next second.next
  rows row member old := by
    obtain ⟨between, present, same⟩ := second.rows row member (Nat.lt_of_lt_of_le old first.next)
    obtain ⟨before, known, unchanged⟩ := first.rows between present
      (ExecutionRow.columns_id same ▸ old)
    exact ⟨before, known, unchanged.trans same⟩

/-- Executions are changed in place and new ones are appended. -/
theorem of_rows {change : ExecutionRow → ExecutionRow} {added : List ExecutionRow}
    (next : store.nextUuid ≤ after.nextUuid)
    (executions : after.executions.rows = store.executions.rows.map change ++ added)
    (keeps : ∀ row, (change row).columns = row.columns)
    (fresh : ∀ row ∈ added, store.nextUuid ≤ row.id) : ExecutionsKept store after where
  next := next
  rows row member old := by
    rw [executions, List.mem_append, List.mem_map] at member
    rcases member with ⟨before, present, rfl⟩ | new
    · exact ⟨before, present, (keeps before).symm⟩
    · exact absurd old (Nat.not_lt.mpr (fresh row new))

theorem congr (next : store.nextUuid ≤ after.nextUuid) (executions : after.executions = store.executions) :
    ExecutionsKept store after :=
  @of_rows store after id [] next (by rw [executions, List.map_id, List.append_nil])
    (fun _ => rfl) (by simp)

theorem finishes {status : ExecutionStatus} {change : ExecutionRow → ExecutionRow}
    {mark : JobRow → JobRow} {free : ScheduleRow → ScheduleRow}
    (effect : Finishes status change mark free store after)
    (keeps : ∀ row, (change row).columns = row.columns) : ExecutionsKept store after :=
  of_rows (Nat.le_of_eq effect.nextUuid.symm) (by rw [effect.executions, List.append_nil]) keeps
    (by simp)

theorem deletes (kept : ExecutionsKept store after) (doomed : JobRow → Bool) :
    ExecutionsKept store (after.deleteJobs doomed) where
  next := kept.next
  rows row member old := kept.rows row (List.mem_of_mem_filter member) old

/-- What every operation keeps. -/
theorem of_apply {operation : Operation} (done : operation.apply store = some after) :
    ExecutionsKept store after := by
  cases operation with
  | addJobs now pick jobs ifNotExists =>
      obtain ⟨⟨_, result⟩, added, rfl⟩ := Option.map_eq_some_iff.mp done
      obtain ⟨_, _, _, effect⟩ := addJobs_adds added
      exact of_rows effect.nextUuid (by rw [effect.executions, List.map_id']) (fun _ => rfl)
        fun row member => (effect.fresh row member).1
  | addSchedules now schedules ifNotExists =>
      obtain ⟨⟨_, result⟩, added, rfl⟩ := Option.map_eq_some_iff.mp done
      obtain ⟨_, effect⟩ := addSchedules_adds added
      exact congr effect.nextUuid effect.executions
  | stopSchedules now filters =>
      cases done
      exact congr (Nat.le_refl _) rfl
  | executionsStarted pick executions =>
      cases done
      have effect := executionsStarted_starts store pick executions
      refine of_rows (Nat.le_of_eq effect.nextUuid.symm)
        (by rw [effect.executions, List.append_nil]) ?_ (by simp)
      exact Table.replaced_key ExecutionRow.columns executions _ _ _ fun _ _ => rfl
  | executionsSucceeded pick executions =>
      cases done
      obtain ⟨_, _, effect⟩ := executionsSucceeded_finishes store pick executions
      exact finishes effect (finishRow_columns executions pick fun _ _ => rfl)
  | executionsFailed pick executions =>
      cases done
      obtain ⟨_, _, effect⟩ := executionsFailed_finishes store pick executions
      exact finishes effect (finishRow_columns executions pick fun _ _ => rfl)
  | executionsRetried now pick executions =>
      obtain ⟨_, effect⟩ := executionsRetried_retries done
      refine of_rows (by rw [effect.nextUuid]; exact Nat.le_add_right ..) effect.executions
        (finishRow_columns _ pick fun _ _ => rfl) ?_
      exact fun _ member => (effect.fresh member).1
  | cancelJobs now systemNow pick filters =>
      cases done
      cases cancelled : cancelStatuses filters with
      | none =>
          rw [cancelJobs_nothing store now systemNow pick cancelled]
          exact refl store
      | some statuses =>
          obtain ⟨_, _, effect⟩ := cancelJobs_cancels store now systemNow pick filters cancelled
          refine finishes effect fun row => ?_
          rw [cancelTwice, cancelRow_columns, cancelRow_columns]
  | deleteHistory deleteBatchSize before =>
      cases done
      exact deleteHistory_preserves (P := ExecutionsKept store)
        (fun _ doomed kept _ => kept.deletes doomed) (fun _ _ kept _ => ⟨kept.next, kept.rows⟩)
        (fun _ _ kept => ⟨kept.next, kept.rows⟩) deleteBatchSize before (.refl store)

/-- What every run of operations keeps. -/
theorem of_reaches (run : Reaches Operation.apply (fun _ _ => True) store after) :
    ExecutionsKept store after := by
  induction run with
  | refl => exact refl store
  | tail _ _ done ih => exact ih.trans (of_apply done)

end ExecutionsKept

end Ora.Postgres
