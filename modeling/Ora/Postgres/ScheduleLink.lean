import Ora.Postgres.ActiveExecution

/-!
# Schedules and their active jobs

`ora.schedule.active_job_id` names the only active job of a schedule.  The link
has no foreign key: it is set when a job claims its schedule and cleared when
the job becomes inactive, and both ends can be deleted.
-/

namespace Ora.Postgres

open Ora.Backend
open Ora.Library

structure ScheduleLink (store : Store) : Prop where
  issuedJobs : ∀ job ∈ store.jobs.rows, job.id < store.nextUuid
  issuedSchedules : ∀ row ∈ store.schedules.rows, row.id < store.nextUuid
  /-- Jobs are added only to schedules that exist, which may be deleted later. -/
  issuedLinks : ∀ job ∈ store.jobs.rows, ∀ id, job.scheduleId = some id → id < store.nextUuid
  linked : ∀ row ∈ store.schedules.rows, ∀ id, row.activeJobId = some id →
    ∃ job ∈ store.jobs.rows, job.id = id ∧ job.scheduleId = some row.id ∧ job.inactiveSince = none
  exact : ∀ job ∈ store.jobs.rows, job.inactiveSince = none →
    ∀ row ∈ store.schedules.rows, job.scheduleId = some row.id → row.activeJobId = some job.id
  single : ∀ first ∈ store.jobs.rows, ∀ second ∈ store.jobs.rows, first.inactiveSince = none →
    second.inactiveSince = none → first.scheduleId.isSome = true →
    first.scheduleId = second.scheduleId → first = second

namespace ScheduleLink

variable {store after : Store}

theorem empty : ScheduleLink Store.empty where
  issuedJobs := by simp [Store.empty]
  issuedSchedules := by simp [Store.empty]
  issuedLinks := by simp [Store.empty]
  linked := by simp [Store.empty]
  exact := by simp [Store.empty]
  single := by simp [Store.empty]

/-- A free schedule has no active job. -/
theorem inactive_of_free (inv : ScheduleLink store) {row : ScheduleRow}
    (hrow : row ∈ store.schedules.rows) (free : row.activeJobId = none) {job : JobRow}
    (hjob : job ∈ store.jobs.rows) (scheduled : job.scheduleId = some row.id) :
    job.inactiveSince ≠ none := by
  intro active
  have claimed := inv.exact job hjob active row hrow scheduled
  rw [free] at claimed
  cases claimed

/-- Operations that change neither the jobs nor the links. -/
theorem congr (inv : ScheduleLink store) (jobs : after.jobs = store.jobs)
    (rows : ∀ row ∈ after.schedules.rows, ∃ before ∈ store.schedules.rows,
      before.id = row.id ∧ before.activeJobId = row.activeJobId)
    (next : store.nextUuid ≤ after.nextUuid) : ScheduleLink after := by
  refine ⟨?_, ?_, ?_, ?_, ?_, ?_⟩
  · rw [jobs]
    exact fun job member => Nat.lt_of_lt_of_le (inv.issuedJobs job member) next
  · intro row member
    obtain ⟨before, present, same, _⟩ := rows row member
    rw [← same]
    exact Nat.lt_of_lt_of_le (inv.issuedSchedules before present) next
  · rw [jobs]
    exact fun job member id scheduled =>
      Nat.lt_of_lt_of_le (inv.issuedLinks job member id scheduled) next
  · intro row member id claimed
    obtain ⟨before, present, same, link⟩ := rows row member
    rw [jobs, ← same]
    exact inv.linked before present id (link.trans claimed)
  · rw [jobs]
    intro job member active row rowMember scheduled
    obtain ⟨before, present, same, link⟩ := rows row rowMember
    rw [← link]
    exact inv.exact job member active before present (same ▸ scheduled)
  · rw [jobs]
    exact inv.single

theorem finishes (inv : ScheduleLink store) {status : ExecutionStatus}
    {change : ExecutionRow → ExecutionRow} {mark : JobRow → JobRow}
    {free : ScheduleRow → ScheduleRow} (effect : Finishes status change mark free store after) :
    ScheduleLink after := by
  refine ⟨?_, ?_, ?_, ?_, ?_, ?_⟩
  · simp only [effect.jobs, effect.nextUuid, List.forall_mem_map, effect.mark_keeps]
    exact inv.issuedJobs
  · simp only [effect.schedules, effect.nextUuid, List.forall_mem_map, effect.free_keeps]
    exact inv.issuedSchedules
  · simp only [effect.jobs, effect.nextUuid, List.forall_mem_map, effect.mark_keeps]
    exact inv.issuedLinks
  · simp only [effect.jobs, effect.schedules, List.mem_map, exists_exists_and_eq_and,
      forall_exists_index, and_imp, forall_apply_eq_imp_iff₂, effect.free_keeps, effect.mark_keeps]
    intro row member id claimed running
    obtain ⟨job, present, rfl, scheduled, active⟩ := inv.linked row member id claimed
    refine ⟨job, present, rfl, scheduled, ?_⟩
    rw [effect.unmarked job running]
    exact active
  · simp only [effect.jobs, effect.schedules, List.forall_mem_map, effect.free_keeps, effect.mark_keeps]
    intro job member active row rowMember scheduled
    obtain ⟨unmarked, running⟩ := effect.mark_active active
    rw [unmarked] at active
    exact ⟨inv.exact job member active row rowMember scheduled, running⟩
  · simp only [effect.jobs, List.forall_mem_map, effect.mark_keeps]
    intro first hfirst second hsecond firstActive secondActive scheduled same
    obtain ⟨firstKept, _⟩ := effect.mark_active firstActive
    obtain ⟨secondKept, _⟩ := effect.mark_active secondActive
    rw [firstKept] at firstActive
    rw [secondKept] at secondActive
    rw [inv.single first hfirst second hsecond firstActive secondActive scheduled same]

theorem adds (inv : ScheduleLink store) {newJobs : List JobRow} {added : List ExecutionRow}
    {claim : ScheduleRow → ScheduleRow}
    (effect : AddsJobs store.nextUuid newJobs added claim store after) : ScheduleLink after := by
  have claimId : ∀ row ∈ store.schedules.rows, (claim row).id = row.id := by
    intro row member
    obtain kept | ⟨job, _, _, _, _, claimed⟩ := effect.claims row member
    · rw [kept]
    · rw [claimed]
  -- an old job with the schedule of a new one is inactive
  have replaced : ∀ new ∈ newJobs, ∀ old ∈ store.jobs.rows, new.scheduleId.isSome = true →
      old.scheduleId = new.scheduleId → old.inactiveSince ≠ none := by
    intro new newMember old oldMember scheduled same
    obtain ⟨id, hid⟩ := Option.isSome_iff_exists.mp scheduled
    obtain ⟨row, rowMember, rfl, _, free, _⟩ := effect.claimed new newMember id hid
    exact inv.inactive_of_free rowMember free oldMember (same.trans hid)
  refine ⟨?_, ?_, ?_, ?_, ?_, ?_⟩
  · intro job member
    rw [effect.jobs, List.mem_append] at member
    obtain old | new := member
    · exact Nat.lt_of_lt_of_le (inv.issuedJobs job old) effect.nextUuid
    · exact (effect.freshJobs job new).2
  · rw [effect.schedules, List.forall_mem_map]
    intro row member
    rw [claimId row member]
    exact Nat.lt_of_lt_of_le (inv.issuedSchedules row member) effect.nextUuid
  · intro job member id scheduled
    refine Nat.lt_of_lt_of_le ?_ effect.nextUuid
    rw [effect.jobs, List.mem_append] at member
    obtain old | new := member
    · exact inv.issuedLinks job old id scheduled
    · obtain ⟨row, rowMember, rfl, _⟩ := effect.claimed job new id scheduled
      exact inv.issuedSchedules row rowMember
  · rw [effect.schedules, List.forall_mem_map]
    intro row member id claimed
    rw [claimId row member, effect.jobs]
    obtain kept | ⟨job, jobMember, scheduled, _, _, changed⟩ := effect.claims row member
    · rw [kept] at claimed
      obtain ⟨job, jobMember, facts⟩ := inv.linked row member id claimed
      exact ⟨job, List.mem_append_left _ jobMember, facts⟩
    · rw [changed] at claimed
      exact ⟨job, List.mem_append_right _ jobMember, Option.some.inj claimed, scheduled,
        (effect.unfinished job jobMember).1⟩
  · intro job member active
    rw [effect.schedules, List.forall_mem_map]
    intro row rowMember scheduled
    rw [claimId row rowMember] at scheduled
    rw [effect.jobs, List.mem_append] at member
    obtain old | new := member
    · obtain kept | ⟨_, _, _, _, free, _⟩ := effect.claims row rowMember
      · rw [kept]
        exact inv.exact job old active row rowMember scheduled
      · exact absurd active (inv.inactive_of_free rowMember free old scheduled)
    · obtain ⟨other, otherMember, same, _, _, claimed⟩ := effect.claimed job new row.id scheduled
      rw [← store.schedules.eq_of_key otherMember rowMember same, claimed]
  · intro first hfirst second hsecond firstActive secondActive scheduled same
    have scheduled' : second.scheduleId.isSome = true := same ▸ scheduled
    rw [effect.jobs, List.mem_append] at hfirst hsecond
    obtain firstOld | firstNew := hfirst
    · obtain secondOld | secondNew := hsecond
      · exact inv.single first firstOld second secondOld firstActive secondActive scheduled same
      · exact absurd firstActive (replaced second secondNew first firstOld scheduled' same)
    · obtain secondOld | secondNew := hsecond
      · exact absurd secondActive (replaced first firstNew second secondOld scheduled same.symm)
      · obtain ⟨id, hid⟩ := Option.isSome_iff_exists.mp scheduled
        obtain ⟨row, rowMember, rowId, _, _, claimed⟩ := effect.claimed first firstNew id hid
        obtain ⟨other, otherMember, otherId, _, _, otherClaimed⟩ :=
          effect.claimed second secondNew id (same ▸ hid)
        obtain rfl := store.schedules.eq_of_key rowMember otherMember (rowId.trans otherId.symm)
        rw [claimed] at otherClaimed
        have sameId : first.id = second.id := by simpa using otherClaimed
        exact after.jobs.eq_of_key
          (by rw [effect.jobs]; exact List.mem_append_right _ firstNew)
          (by rw [effect.jobs]; exact List.mem_append_right _ secondNew) sameId

theorem addsSchedules (inv : ScheduleLink store) {new : List ScheduleRow}
    (effect : AddsSchedules new store after) : ScheduleLink after := by
  refine ⟨?_, ?_, ?_, ?_, ?_, ?_⟩
  · rw [effect.jobs]
    exact fun job member => Nat.lt_of_lt_of_le (inv.issuedJobs job member) effect.nextUuid
  · intro row member
    rw [effect.schedules, List.mem_append] at member
    obtain old | fresh := member
    · exact Nat.lt_of_lt_of_le (inv.issuedSchedules row old) effect.nextUuid
    · exact (effect.fresh row fresh).2
  · rw [effect.jobs]
    exact fun job member id scheduled =>
      Nat.lt_of_lt_of_le (inv.issuedLinks job member id scheduled) effect.nextUuid
  · intro row member id claimed
    rw [effect.schedules, List.mem_append] at member
    rw [effect.jobs]
    obtain old | fresh := member
    · exact inv.linked row old id claimed
    · rw [effect.free row fresh] at claimed
      cases claimed
  · rw [effect.jobs]
    intro job member active row rowMember scheduled
    rw [effect.schedules, List.mem_append] at rowMember
    obtain old | fresh := rowMember
    · exact inv.exact job member active row old scheduled
    · have above := (effect.fresh row fresh).1
      exact absurd (inv.issuedLinks job member row.id scheduled) (Nat.not_lt.mpr above)
  · rw [effect.jobs]
    exact inv.single

theorem deletesJobs (inv : ScheduleLink store) {doomed : JobRow → Bool}
    (inactive : ∀ row ∈ store.jobs.rows, doomed row = true → row.inactiveSince ≠ none) :
    ScheduleLink (store.deleteJobs doomed) := by
  have remaining : ∀ {job}, job ∈ (store.deleteJobs doomed).jobs.rows → job ∈ store.jobs.rows :=
    fun member => (List.mem_filter.mp member).1
  refine ⟨fun job member => inv.issuedJobs job (remaining member), inv.issuedSchedules,
    fun job member => inv.issuedLinks job (remaining member), ?_,
    fun job member => inv.exact job (remaining member),
    fun first hfirst second hsecond => inv.single first (remaining hfirst) second
      (remaining hsecond)⟩
  intro row member id claimed
  obtain ⟨job, present, same, scheduled, active⟩ := inv.linked row member id claimed
  refine ⟨job, List.mem_filter.mpr ⟨present, ?_⟩, same, scheduled, active⟩
  rw [Bool.not_eq_true', Bool.eq_false_iff]
  exact fun gone => inactive job present gone active

theorem step {operation : Operation} (inv : ScheduleLink store)
    (done : operation.apply store = some after) : ScheduleLink after := by
  have unchanged : ∀ {store : Store}, ∀ row ∈ store.schedules.rows, ∃ before ∈ store.schedules.rows,
      before.id = row.id ∧ before.activeJobId = row.activeJobId :=
    fun row member => ⟨row, member, rfl, rfl⟩
  cases operation with
  | addJobs now pick jobs ifNotExists =>
      obtain ⟨⟨_, result⟩, added, rfl⟩ := Option.map_eq_some_iff.mp done
      obtain ⟨_, _, _, effect⟩ := addJobs_adds added
      exact inv.adds effect
  | addSchedules now schedules ifNotExists =>
      obtain ⟨⟨_, result⟩, added, rfl⟩ := Option.map_eq_some_iff.mp done
      obtain ⟨_, effect⟩ := addSchedules_adds added
      exact inv.addsSchedules effect
  | stopSchedules now filters =>
      cases done
      refine inv.congr rfl ?_ (Nat.le_refl _)
      simp only [stopSchedules, Store.modifySchedules, Table.modify_rows, List.forall_mem_map]
      intro row member
      refine ⟨row, member, (stopRow_id _ _ row).symm, ?_⟩
      unfold stopRow
      split <;> rfl
  | executionsStarted pick executions =>
      cases done
      have effect := executionsStarted_starts store pick executions
      refine inv.congr effect.jobs ?_ (Nat.le_of_eq effect.nextUuid.symm)
      rw [effect.schedules]
      exact unchanged
  | executionsSucceeded pick executions =>
      cases done
      obtain ⟨_, _, effect⟩ := executionsSucceeded_finishes store pick executions
      exact inv.finishes effect
  | executionsFailed pick executions =>
      cases done
      obtain ⟨_, _, effect⟩ := executionsFailed_finishes store pick executions
      exact inv.finishes effect
  | executionsRetried now pick executions =>
      obtain ⟨_, effect⟩ := executionsRetried_retries done
      refine inv.congr effect.jobs ?_ (by rw [effect.nextUuid]; exact Nat.le_add_right ..)
      rw [effect.schedules]
      exact unchanged
  | cancelJobs now systemNow pick filters =>
      cases done
      obtain ⟨_, _, _, effect⟩ := cancelJobs_finishes store now systemNow pick filters
      exact inv.finishes effect
  | deleteHistory deleteBatchSize before =>
      cases done
      refine deleteHistory_preserves (fun _ _ inv inactive => inv.deletesJobs inactive) ?_
        (fun _ _ inv => inv.congr rfl unchanged (Nat.le_refl _)) deleteBatchSize before inv
      exact fun _ _ inv _ => inv.congr rfl
        (fun row member => ⟨row, (List.mem_filter.mp member).1, rfl, rfl⟩) (Nat.le_refl _)

end ScheduleLink

/-- Only adding jobs inserts rows of jobs. -/
theorem jobs_known {store after : Store} {operation : Operation}
    (done : operation.apply store = some after)
    (noJobs : ∀ now pick jobs ifNotExists, operation ≠ .addJobs now pick jobs ifNotExists) :
    ∀ job ∈ after.jobs.rows, ∃ known ∈ store.jobs.rows, known.id = job.id := by
  have marked : ∀ {status change mark free},
      Finishes status change mark free store after →
      ∀ row ∈ after.jobs.rows, ∃ known ∈ store.jobs.rows, known.id = row.id := by
    intro status change mark free effect
    rw [effect.jobs, List.forall_mem_map]
    exact fun row present => ⟨row, present, (effect.mark_keeps row).1.symm⟩
  cases operation with
  | addJobs now pick jobs ifNotExists => exact absurd rfl (noJobs now pick jobs ifNotExists)
  | addSchedules now schedules ifNotExists =>
      obtain ⟨⟨_, result⟩, added, rfl⟩ := Option.map_eq_some_iff.mp done
      obtain ⟨_, effect⟩ := addSchedules_adds added
      exact fun row present => ⟨row, effect.jobs ▸ present, rfl⟩
  | stopSchedules now filters =>
      cases done
      exact fun row present => ⟨row, present, rfl⟩
  | executionsStarted pick executions =>
      cases done
      have effect := executionsStarted_starts store pick executions
      exact fun row present => ⟨row, effect.jobs ▸ present, rfl⟩
  | executionsSucceeded pick executions =>
      cases done
      obtain ⟨_, _, effect⟩ := executionsSucceeded_finishes store pick executions
      exact marked effect
  | executionsFailed pick executions =>
      cases done
      obtain ⟨_, _, effect⟩ := executionsFailed_finishes store pick executions
      exact marked effect
  | executionsRetried now pick executions =>
      obtain ⟨_, effect⟩ := executionsRetried_retries done
      exact fun row present => ⟨row, effect.jobs ▸ present, rfl⟩
  | cancelJobs now systemNow pick filters =>
      cases done
      obtain ⟨_, _, _, effect⟩ := cancelJobs_finishes store now systemNow pick filters
      exact marked effect
  | deleteHistory deleteBatchSize before =>
      cases done
      exact deleteHistory_preserves
        (P := fun state => ∀ row ∈ state.jobs.rows, ∃ known ∈ store.jobs.rows, known.id = row.id)
        (fun _ _ known _ row present => known row (List.mem_filter.mp present).1)
        (fun _ _ known _ => known) (fun _ _ known => known) deleteBatchSize before
        fun row present => ⟨row, present, rfl⟩

/-- Only adding schedules inserts rows of schedules. -/
theorem schedules_known {store after : Store} {operation : Operation}
    (done : operation.apply store = some after)
    (noSchedules : ∀ now schedules ifNotExists,
      operation ≠ .addSchedules now schedules ifNotExists) :
    ∀ row ∈ after.schedules.rows, ∃ known ∈ store.schedules.rows, known.id = row.id := by
  have freed : ∀ {status change mark free},
      Finishes status change mark free store after →
      ∀ row ∈ after.schedules.rows, ∃ known ∈ store.schedules.rows, known.id = row.id := by
    intro status change mark free effect
    rw [effect.schedules, List.forall_mem_map]
    exact fun row present => ⟨row, present, (effect.free_keeps row).1.symm⟩
  cases operation with
  | addJobs now pick jobs ifNotExists =>
      obtain ⟨⟨_, result⟩, added, rfl⟩ := Option.map_eq_some_iff.mp done
      obtain ⟨_, _, claim, effect⟩ := addJobs_adds added
      rw [effect.schedules, List.forall_mem_map]
      intro row present
      rcases effect.claims row present with kept | ⟨_, _, _, _, _, claimed⟩
      · exact ⟨row, present, by rw [kept]⟩
      · exact ⟨row, present, by rw [claimed]⟩
  | addSchedules now schedules ifNotExists =>
      exact absurd rfl (noSchedules now schedules ifNotExists)
  | stopSchedules now filters =>
      cases done
      simp only [stopSchedules, Store.modifySchedules, Table.modify_rows, List.forall_mem_map]
      exact fun row present => ⟨row, present, (stopRow_id _ _ row).symm⟩
  | executionsStarted pick executions =>
      cases done
      have effect := executionsStarted_starts store pick executions
      exact fun row present => ⟨row, effect.schedules ▸ present, rfl⟩
  | executionsSucceeded pick executions =>
      cases done
      obtain ⟨_, _, effect⟩ := executionsSucceeded_finishes store pick executions
      exact freed effect
  | executionsFailed pick executions =>
      cases done
      obtain ⟨_, _, effect⟩ := executionsFailed_finishes store pick executions
      exact freed effect
  | executionsRetried now pick executions =>
      obtain ⟨_, effect⟩ := executionsRetried_retries done
      exact fun row present => ⟨row, effect.schedules ▸ present, rfl⟩
  | cancelJobs now systemNow pick filters =>
      cases done
      obtain ⟨_, _, _, effect⟩ := cancelJobs_finishes store now systemNow pick filters
      exact freed effect
  | deleteHistory deleteBatchSize before =>
      cases done
      exact deleteHistory_preserves
        (P := fun state =>
          ∀ row ∈ state.schedules.rows, ∃ known ∈ store.schedules.rows, known.id = row.id)
        (fun _ _ known _ => known)
        (fun _ _ known _ row present => known row (List.mem_filter.mp present).1)
        (fun _ _ known => known) deleteBatchSize before fun row present => ⟨row, present, rfl⟩

/-- Jobs of schedules are added only to free schedules that are not stopped. -/
theorem added_to_free_schedule {store after : Store} {operation : Operation}
    (done : operation.apply store = some after) {job : JobRow} (member : job ∈ after.jobs.rows)
    (new : ∀ known ∈ store.jobs.rows, known.id ≠ job.id) {id : ScheduleId}
    (scheduled : job.scheduleId = some id) :
    ∃ row ∈ store.schedules.rows, row.id = id ∧ row.stoppedAt = none ∧ row.activeJobId = none := by
  by_cases noJobs : ∀ now pick jobs ifNotExists, operation ≠ .addJobs now pick jobs ifNotExists
  · obtain ⟨known, present, same⟩ := jobs_known done noJobs job member
    exact absurd same (new known present)
  · simp only [not_forall, not_not] at noJobs
    obtain ⟨now, pick, jobs, ifNotExists, rfl⟩ := noJobs
    obtain ⟨⟨_, result⟩, added, rfl⟩ := Option.map_eq_some_iff.mp done
    obtain ⟨_, _, _, effect⟩ := addJobs_adds added
    rw [effect.jobs, List.mem_append] at member
    obtain known | added := member
    · exact absurd rfl (new job known)
    · obtain ⟨row, present, same, running, free, _⟩ := effect.claimed job added id scheduled
      exact ⟨row, present, same, running, free⟩

/-- The active job of a schedule exists, is a job of the schedule and is
active; every active job of a schedule that exists is the active job of it, so
that no schedule has two.  No operation adds a job to a schedule that is
stopped or not free. -/
theorem schedule_link {store : Store}
    (run : Reaches Operation.apply (fun _ _ => True) Store.empty store) :
    (∀ row ∈ store.schedules.rows, ∀ id, row.activeJobId = some id →
      ∃ job ∈ store.jobs.rows, job.id = id ∧ job.scheduleId = some row.id ∧
        job.inactiveSince = none) ∧
    (∀ job ∈ store.jobs.rows, job.inactiveSince = none →
      ∀ row ∈ store.schedules.rows, job.scheduleId = some row.id → row.activeJobId = some job.id) ∧
    (∀ first ∈ store.jobs.rows, ∀ second ∈ store.jobs.rows, first.inactiveSince = none →
      second.inactiveSince = none → first.scheduleId.isSome = true →
      first.scheduleId = second.scheduleId → first = second) ∧
    ∀ operation after, Operation.apply store operation = some after → ∀ job ∈ after.jobs.rows,
      (∀ known ∈ store.jobs.rows, known.id ≠ job.id) → ∀ id, job.scheduleId = some id →
      ∃ row ∈ store.schedules.rows, row.id = id ∧ row.stoppedAt = none ∧ row.activeJobId = none := by
  have inv : ScheduleLink store :=
    run.invariant (fun _ _ _ inv _ done => inv.step done) ScheduleLink.empty
  exact ⟨inv.linked, inv.exact, inv.single, fun operation after done job member new id scheduled =>
    added_to_free_schedule done member new scheduled⟩

/-- A schedule every second, whose jobs are due at the epoch. -/
def everySecond : ScheduleDefinition where
  scheduling := .fixedInterval 1000000000 false .skip
  jobTemplate := (plainJob 0).job
  labels := []
  timeRange := ⟨none, none⟩

/-- Two jobs claim the schedule `0`, which is then stopped. -/
def claimedTwice : List Operation :=
  [.addSchedules 0 [everySecond] none,
    .addJobs 0 (fun _ => 1) [{ plainJob 0 with scheduleId := some 0 },
      { plainJob 0 with scheduleId := some 0 }] none,
    .stopSchedules 1 {}]

theorem schedule_link_claimedTwice :
    ∃ store, Reaches Operation.apply (fun _ _ => True) Store.empty store ∧
      store.schedules.rows.map ScheduleRow.activeJobId = [some 2] ∧
      ∀ row ∈ store.schedules.rows, ∀ id, row.activeJobId = some id →
        ∃ job ∈ store.jobs.rows, job.id = id ∧ job.scheduleId = some row.id ∧
          job.inactiveSince = none := by
  obtain ⟨store, run, claimed⟩ := exists_reaches_of_execute Operation.apply (fun _ _ => True)
    Store.empty claimedTwice
    (fun store => store.schedules.rows.map ScheduleRow.activeJobId == [some 2]) (by decide)
  exact ⟨store, run, by simpa using claimed, (schedule_link run).1⟩

end Ora.Postgres
