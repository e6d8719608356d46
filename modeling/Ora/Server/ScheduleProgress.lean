import Ora.Server.Schedules

/-!
# Progress of schedules

The next time of a schedule is computed from the job with the greatest
identifier that is stored.  As long as this is the job that was created last,
the times of a schedule increase and keep to its interval.
-/

namespace Ora.Server

open Ora.Backend
open Ora.Library
open Ora.Postgres (Store Pick Operation ScheduleLink StoreKept ScheduleRow JobRow)
open Ora.Postgres.PostgresBackend (pendingSchedule pendingSchedules schedulePending lastJob)

def isImmediate : SchedulingPolicy → Bool
  | .fixedInterval _ immediate _ => immediate
  | .cron _ immediate _ => immediate

namespace CreatedJob

def time (made : CreatedJob) : Time := made.job.targetExecutionTime

def scheduleId (made : CreatedJob) : ScheduleId := made.schedule.scheduleId

/-- The job has the time of an immediate first job. -/
def immediate (made : CreatedJob) : Prop :=
  made.schedule.lastTargetExecutionTime = none ∧ isImmediate made.schedule.scheduling = true

/-- The time of the job is the next time of its schedule. -/
def Computed (cronexpr : Cronexpr) (made : CreatedJob) : Prop :=
  ∃ now, nextExecutionTime cronexpr now made.schedule = .ok (some made.time)

/-- A job that was created when the other was the last one. -/
structure Follows (made next : CreatedJob) : Prop where
  id : made.job.id < next.job.id
  scheduling : next.schedule.scheduling = made.schedule.scheduling
  last : next.schedule.lastTargetExecutionTime = some made.time

/-- A job that is later by a number of times of a schedule. -/
structure Later (steps : Nat) (made next : CreatedJob) : Prop where
  scheduling : next.schedule.scheduling = made.schedule.scheduling
  last : next.schedule.lastTargetExecutionTime ≠ none
  time : made.time < next.time
  multiple : ∀ interval immediate missed,
    made.schedule.scheduling = .fixedInterval interval immediate missed →
    ∃ intervals : Nat, 0 < intervals ∧ next.time = made.time + intervals * interval ∧
      (missed = .create → intervals = steps)

variable {cronexpr : Cronexpr} {made middle next : CreatedJob}

theorem Follows.later (follows : Follows made next) (computed : made.Computed cronexpr)
    (nextComputed : next.Computed cronexpr) : Later 1 made next := by
  obtain ⟨before, first⟩ := computed
  obtain ⟨now, found⟩ := nextComputed
  have supported := nextExecutionTime_supported first
  unfold nextExecutionTime at found
  rw [follows.last] at found
  dsimp only at found
  split at found
  · rename_i interval immediate missed policy
    rw [mapError_eq_ok] at found
    obtain ⟨positive, ⟨intervals, advanced, same, regular⟩, _⟩ := nextFixedInterval_after found
    refine ⟨follows.scheduling, by simp [follows.last], ?_, ?_⟩
    · have ahead : (0 : Int) < intervals * interval :=
        Int.mul_pos (Int.natCast_pos.mpr advanced) (Int.natCast_pos.mpr (Nat.pos_of_ne_zero positive))
      rw [same]
      exact Int.lt_add_of_pos_right _ ahead
    · intro other _ otherMissed given
      rw [← follows.scheduling, policy] at given
      cases given
      exact ⟨intervals, advanced, same, regular⟩
  · rename_i expression immediate missed policy
    refine ⟨follows.scheduling, by simp [follows.last], ?_, ?_⟩
    · rcases (nextCron_after found).1 with ahead | ⟨unsupported, _⟩
      · exact ahead
      · exact absurd supported unsupported
    · intro interval _ _ given
      rw [← follows.scheduling, policy] at given
      cases given

theorem Later.trans {steps : Nat} (first : Later steps made middle) (second : Later 1 middle next) :
    Later (steps + 1) made next where
  scheduling := second.scheduling.trans first.scheduling
  last := second.last
  time := Int.lt_trans first.time second.time
  multiple interval immediate missed policy := by
    obtain ⟨before, _, same, regular⟩ := first.multiple interval immediate missed policy
    obtain ⟨after, advanced, sameNext, regularNext⟩ := second.multiple interval immediate missed
      (first.scheduling.trans policy)
    refine ⟨before + after, Nat.add_pos_right _ advanced, ?_, fun create => ?_⟩
    · rw [sameNext, same]
      push_cast
      ring
    · rw [regular create, regularNext create]

/-- Jobs that follow each other are later by as many times as there are between. -/
theorem later_of_chain {jobs : List CreatedJob} (chain : jobs.IsChain Follows)
    (computed : ∀ made ∈ jobs, made.Computed cronexpr) {m : Nat} (steps : Nat)
    (found : jobs[m]? = some made) (foundNext : jobs[m + steps + 1]? = some next) :
    Later (steps + 1) made next := by
  induction steps generalizing next with
  | zero =>
      obtain ⟨inside, rfl⟩ := List.getElem?_eq_some_iff.mp foundNext
      obtain ⟨_, rfl⟩ := List.getElem?_eq_some_iff.mp found
      have follows := List.isChain_iff_getElem.mp chain m (by omega)
      exact follows.later (computed _ (List.getElem_mem _)) (computed _ (List.getElem_mem _))
  | succ steps ih =>
      obtain ⟨inside, rfl⟩ := List.getElem?_eq_some_iff.mp foundNext
      have before := ih (List.getElem?_eq_getElem (by omega))
      have follows := List.isChain_iff_getElem.mp chain (m + steps + 1) (by omega)
      exact before.trans
        (follows.later (computed _ (List.getElem_mem _)) (computed _ (List.getElem_mem _)))

end CreatedJob

/-- The jobs created for one schedule, in order. -/
def createdFor (created : List CreatedJob) (id : ScheduleId) : List CreatedJob :=
  created.filter fun made => made.scheduleId == id

theorem mem_createdFor {created : List CreatedJob} {id : ScheduleId} {made : CreatedJob} :
    made ∈ createdFor created id ↔ made ∈ created ∧ made.scheduleId = id := by
  simp [createdFor]

/-- At most one of the jobs with distinct schedules is of one schedule. -/
theorem createdFor_single {new : List CreatedJob}
    (distinct : (new.map CreatedJob.scheduleId).Nodup) (id : ScheduleId) :
    createdFor new id = [] ∨ ∃ made ∈ new, made.scheduleId = id ∧ createdFor new id = [made] := by
  induction new with
  | nil => exact .inl rfl
  | cons first rest ih =>
      obtain ⟨absent, distinct⟩ := List.nodup_cons.mp distinct
      unfold createdFor
      by_cases same : first.scheduleId = id
      · have alone : createdFor rest id = [] := by
          rw [createdFor, List.filter_eq_nil_iff]
          intro other member found
          exact absent (same.trans (beq_iff_eq.mp found).symm ▸ List.mem_map_of_mem member)
        rw [List.filter_cons_of_pos (by simpa using same)]
        exact .inr ⟨first, List.mem_cons_self, same, congrArg (first :: ·) alone⟩
      · rw [List.filter_cons_of_neg (by simpa using same)]
        rcases ih distinct with none | ⟨made, member, own, alone⟩
        · exact .inl none
        · exact .inr ⟨made, List.mem_cons_of_mem _ member, own, alone⟩

namespace SchedulingState

/-- Of each pending schedule that is fetched, the job created last is still stored. -/
def newestStored (state : SchedulingState) (action : Action) : Prop :=
  state.everyFetched (fun _ row => ∀ made ∈ (createdFor state.created row.id).getLast?,
    ∃ job ∈ state.store.jobs.rows, job.id = made.job.id) action

instance (state : SchedulingState) (action : Action) : Decidable (state.newestStored action) :=
  inferInstanceAs (Decidable (state.everyFetched _ action))

end SchedulingState

/-- The times of a schedule increase, only the first job can have the immediate
time, and the others are at multiples of the interval. -/
structure TimesProgress (jobs : List CreatedJob) : Prop where
  increasing : ∀ (m n : Nat) made next, jobs[m]? = some made → jobs[n]? = some next → m < n →
    made.time < next.time
  immediate : ∀ (n : Nat) made, jobs[n]? = some made → made.immediate → n = 0
  multiples : ∀ (n : Nat) first next (interval : Backend.Duration) immediate missed,
    jobs[0]? = some first → jobs[n + 1]? = some next → first.schedule.scheduling = .fixedInterval interval immediate missed →
    ∃ intervals : Nat, 0 < intervals ∧ next.time = first.time + intervals * interval ∧
      (missed = .create → intervals = n + 1)

theorem timesProgress_of_chain {cronexpr : Cronexpr} {jobs : List CreatedJob}
    (chain : jobs.IsChain CreatedJob.Follows) (computed : ∀ made ∈ jobs, made.Computed cronexpr) :
    TimesProgress jobs where
  increasing m n made next found foundNext before := by
    obtain ⟨steps, rfl⟩ := Nat.exists_eq_add_of_lt before
    exact (CreatedJob.later_of_chain chain computed steps found foundNext).time
  immediate n made found immediate := by
    cases n with
    | zero => rfl
    | succ n =>
        obtain ⟨inside, _⟩ := List.getElem?_eq_some_iff.mp found
        have later := CreatedJob.later_of_chain (m := 0) chain computed n
          (List.getElem?_eq_getElem (by omega)) (by simpa using found)
        exact absurd immediate.1 later.last
  multiples n first next interval immediate missed found foundNext policy :=
    (CreatedJob.later_of_chain chain computed n found
      (by simpa using foundNext)).multiple interval immediate missed policy

/-- A fetched schedule continues after the job that was created last. -/
structure Fetched (state : SchedulingState) (schedule : PendingSchedule) : Prop where
  issued : schedule.scheduleId < state.store.nextUuid
  policy : ∀ row ∈ state.store.schedules.rows, row.id = schedule.scheduleId →
    row.schedulingPolicyJson = schedule.scheduling
  last : schedule.lastTargetExecutionTime =
    (createdFor state.created schedule.scheduleId).getLast?.map CreatedJob.time
  same : ∀ made ∈ createdFor state.created schedule.scheduleId,
    made.schedule.scheduling = schedule.scheduling

structure CreatedSound (cronexpr : Cronexpr) (store : Store) (made : CreatedJob) : Prop where
  issued : made.job.id < store.nextUuid
  issuedSchedule : made.scheduleId < store.nextUuid
  owner : made.job.scheduleId = some made.scheduleId
  computed : made.Computed cronexpr
  kept : ∀ job ∈ store.jobs.rows, job.id = made.job.id → job.columns = made.job.columns
  policy : ∀ row ∈ store.schedules.rows, row.id = made.scheduleId →
    row.schedulingPolicyJson = made.schedule.scheduling

structure ProgressInvariant (cronexpr : Cronexpr) (state : SchedulingState) : Prop where
  link : ScheduleLink state.store
  created : ∀ made ∈ state.created, CreatedSound cronexpr state.store made
  logged : ∀ job ∈ state.store.jobs.rows, ∀ id, job.scheduleId = some id →
    ∃ made ∈ state.created, made.job.id = job.id
  chain : ∀ id, (createdFor state.created id).IsChain CreatedJob.Follows
  fetched : ∀ now batch, state.pass = .adding now batch →
    (batch.map PendingSchedule.scheduleId).Nodup ∧ ∀ schedule ∈ batch, Fetched state schedule

section Kept

variable {cronexpr : Cronexpr} {store after : Store}

theorem policy_kept (kept : StoreKept store after) {id : ScheduleId} (issued : id < store.nextUuid)
    {scheduling : SchedulingPolicy}
    (policy : ∀ row ∈ store.schedules.rows, row.id = id → row.schedulingPolicyJson = scheduling) :
    ∀ row ∈ after.schedules.rows, row.id = id → row.schedulingPolicyJson = scheduling := by
  rintro row member rfl
  obtain ⟨before, present, same⟩ := kept.schedules.rows row member issued
  have policySame := policy before present (ScheduleRow.columns_id _ _ same)
  simp only [ScheduleRow.columns, ScheduleRow.mk.injEq] at same
  exact same.2.2.2.2.1 ▸ policySame

theorem CreatedSound.later (kept : StoreKept store after) {made : CreatedJob}
    (sound : CreatedSound cronexpr store made) : CreatedSound cronexpr after made where
  issued := Nat.lt_of_lt_of_le sound.issued kept.next
  issuedSchedule := Nat.lt_of_lt_of_le sound.issuedSchedule kept.next
  owner := sound.owner
  computed := sound.computed
  kept job member same := by
    obtain ⟨before, present, unchanged⟩ := kept.jobs.rows job member (same ▸ sound.issued)
    rw [← unchanged]
    exact sound.kept before present ((JobRow.columns_id _ _ unchanged).trans same)
  policy := policy_kept kept sound.issuedSchedule sound.policy

end Kept

namespace ProgressInvariant

variable {cronexpr : Cronexpr} {state after : SchedulingState}

theorem initial : ProgressInvariant cronexpr .initial where
  link := .empty
  created := by simp [SchedulingState.initial]
  logged := by simp [SchedulingState.initial, Store.empty]
  chain _ := .nil
  fetched _ _ adding := by cases adding

/-- The jobs of a schedule that were created have increasing identifiers. -/
theorem id_le_last (inv : ProgressInvariant cronexpr state) {id : ScheduleId} {made last : CreatedJob}
    (member : made ∈ createdFor state.created id)
    (newest : (createdFor state.created id).getLast? = some last) : made.job.id ≤ last.job.id := by
  have increasing : (createdFor state.created id).Pairwise fun made next => made.job.id < next.job.id :=
    List.isChain_iff_pairwise.mp ((inv.chain id).imp fun _ _ follows => follows.id)
  obtain ⟨before, split⟩ := List.getLast?_eq_some_iff.mp newest
  rw [split, List.pairwise_append] at increasing
  rw [split, List.mem_append, List.mem_singleton] at member
  rcases member with earlier | rfl
  · exact Nat.le_of_lt (increasing.2.2 made earlier last (List.mem_singleton.mpr rfl))
  · exact Nat.le_refl _

/-- The job with the greatest identifier is the one that was created last, if
that is stored. -/
theorem lastJob_time (inv : ProgressInvariant cronexpr state) {id : ScheduleId}
    (newest : ∀ made ∈ (createdFor state.created id).getLast?,
      ∃ job ∈ state.store.jobs.rows, job.id = made.job.id) :
    (lastJob state.store id).map JobRow.targetExecutionTime =
      (createdFor state.created id).getLast?.map CreatedJob.time := by
  have madeFor : ∀ job ∈ state.store.jobs.rows, job.scheduleId = some id →
      ∃ made ∈ createdFor state.created id, made.job.id = job.id := by
    intro job member scheduled
    obtain ⟨made, known, same⟩ := inv.logged job member id scheduled
    have sound := inv.created made known
    have columns := sound.kept job member same.symm
    simp only [JobRow.columns, JobRow.mk.injEq] at columns
    have owner := columns.2.2.1.symm.trans scheduled
    rw [sound.owner, Option.some.injEq] at owner
    exact ⟨made, mem_createdFor.mpr ⟨known, owner⟩, same⟩
  cases found : (createdFor state.created id).getLast? with
  | none =>
      have noJobs := List.getLast?_eq_none_iff.mp found
      cases stored : lastJob state.store id with
      | none => rfl
      | some job =>
          obtain ⟨member, scheduled, _⟩ := Postgres.PostgresBackend.lastJob_eq_some stored
          obtain ⟨made, known, _⟩ := madeFor job member scheduled
          rw [noJobs] at known
          cases known
  | some last =>
      obtain ⟨known, own⟩ := mem_createdFor.mp (List.mem_of_getLast? found)
      have sound := inv.created last known
      obtain ⟨job, member, same⟩ := newest last found
      have columns := sound.kept job member same
      simp only [JobRow.columns, JobRow.mk.injEq] at columns
      have scheduled : job.scheduleId = some id := by
        rw [columns.2.2.1, sound.owner, own]
      cases stored : lastJob state.store id with
      | none =>
          exact absurd scheduled (Postgres.PostgresBackend.lastJob_eq_none stored job member)
      | some other =>
          obtain ⟨present, otherScheduled, greatest⟩ :=
            Postgres.PostgresBackend.lastJob_eq_some stored
          obtain ⟨made, madeMember, madeSame⟩ := madeFor other present otherScheduled
          have bound := inv.id_le_last madeMember found
          rw [madeSame, ← same] at bound
          have isJob := state.store.jobs.eq_of_key present member
            (Nat.le_antisymm bound (greatest job member scheduled))
          exact congrArg some (isJob ▸ columns.2.2.2.2.1)

/-- A fetched schedule continues after the last job. -/
theorem fetchedSound (inv : ProgressInvariant cronexpr state) {row : ScheduleRow}
    (member : row ∈ state.store.schedules.rows)
    (newest : ∀ made ∈ (createdFor state.created row.id).getLast?,
      ∃ job ∈ state.store.jobs.rows, job.id = made.job.id) :
    Fetched state (pendingSchedule (fun time => time) state.store row) where
  issued := inv.link.issuedSchedules row member
  policy other known same := by
    rw [state.store.schedules.eq_of_key known member same]
    rfl
  last := inv.lastJob_time newest
  same made found := by
    obtain ⟨known, own⟩ := mem_createdFor.mp found
    exact ((inv.created made known).policy row member own.symm).symm

/-- A step that adds no job to a schedule. -/
theorem keep (inv : ProgressInvariant cronexpr state) {store : Store} {pass : Pass}
    {ended : List ScheduleId} (link : ScheduleLink store) (kept : StoreKept state.store store)
    (known : ∀ job ∈ store.jobs.rows, ∀ id, job.scheduleId = some id →
      job.id < state.store.nextUuid)
    (fetched : ∀ now batch, pass = .adding now batch →
      (batch.map PendingSchedule.scheduleId).Nodup ∧ ∀ schedule ∈ batch, Fetched state schedule) :
    ProgressInvariant cronexpr ⟨store, pass, state.created, ended⟩ where
  link := link
  created made member := (inv.created made member).later kept
  logged job member id scheduled := by
    obtain ⟨before, present, same⟩ := kept.jobs.rows job member (known job member id scheduled)
    have sameId := JobRow.columns_id _ _ same
    simp only [JobRow.columns, JobRow.mk.injEq] at same
    rw [← sameId]
    exact inv.logged before present id (same.2.2.1.trans scheduled)
  chain := inv.chain
  fetched now batch adding := by
    obtain ⟨distinct, sound⟩ := fetched now batch adding
    refine ⟨distinct, fun schedule member => ?_⟩
    have schedule := sound schedule member
    exact ⟨Nat.lt_of_lt_of_le schedule.issued kept.next, policy_kept kept schedule.issued
      schedule.policy, schedule.last, schedule.same⟩

end ProgressInvariant

section NewJobs

variable {cronexpr : Cronexpr} {batch : List PendingSchedule} {store later : Store}
  {systemNow now : Time} {pick : Pick} {result : AddedJobs}

theorem createdOf_owners (rows : List JobRow) :
    ((rows.filterMap (SchedulingState.createdOf batch)).map fun made => some made.scheduleId).Sublist
      (rows.map JobRow.scheduleId) := by
  induction rows with
  | nil => exact .slnil
  | cons row rest ih =>
      rw [List.filterMap_cons]
      cases found : SchedulingState.createdOf batch row with
      | none => exact ih.cons _
      | some made =>
          obtain ⟨schedule, known, rfl⟩ := Option.map_eq_some_iff.mp found
          have owner := List.find?_some known
          rw [beq_iff_eq] at owner
          rw [List.map_cons, List.map_cons, owner]
          exact ih.cons_cons _

/-- No row is left out when each is for a schedule of the batch. -/
theorem createdOf_rows {rows : List JobRow}
    (found : ∀ row ∈ rows, ∃ made, SchedulingState.createdOf batch row = some made) :
    (rows.filterMap (SchedulingState.createdOf batch)).map CreatedJob.job = rows := by
  induction rows with
  | nil => rfl
  | cons row rest ih =>
      obtain ⟨made, known⟩ := found row List.mem_cons_self
      rw [List.filterMap_cons_some known, List.map_cons,
        ih fun other member => found other (List.mem_cons_of_mem _ member)]
      obtain ⟨schedule, _, rfl⟩ := Option.map_eq_some_iff.mp known
      rfl

/-- What is created for a batch: each new row, for one schedule of the batch. -/
structure CreatesFor (cronexpr : Cronexpr) (batch : List PendingSchedule) (store later : Store)
    (new : List CreatedJob) : Prop where
  schedules : ∀ made ∈ new, made.schedule ∈ batch
  owner : ∀ made ∈ new, made.job.scheduleId = some made.scheduleId
  computed : ∀ made ∈ new, made.Computed cronexpr
  distinct : (new.map CreatedJob.scheduleId).Nodup
  rows : later.jobs.rows = store.jobs.rows ++ new.map CreatedJob.job

theorem createdOf_planned (distinct : (batch.map PendingSchedule.scheduleId).Nodup)
    {schedule : PendingSchedule} (member : schedule ∈ batch) {nextTime : Time} {id : JobId} :
    SchedulingState.createdOf batch
      (Postgres.PostgresBackend.newJobRow now (plannedJob schedule nextTime, id)) =
      some ⟨Postgres.PostgresBackend.newJobRow now (plannedJob schedule nextTime, id), schedule⟩ := by
  unfold SchedulingState.createdOf
  cases found : batch.find? fun other =>
      (Postgres.PostgresBackend.newJobRow now (plannedJob schedule nextTime, id)).scheduleId ==
        some other.scheduleId with
  | none =>
      have absent := List.find?_eq_none.mp found schedule member
      exact absurd (beq_self_eq_true _) absent
  | some other =>
      have same := List.find?_some found
      rw [beq_iff_eq] at same
      have isSchedule := List.inj_on_of_nodup_map distinct member (List.mem_of_find?_eq_some found)
        (Option.some.inj same)
      rw [isSchedule]
      rfl

theorem newlyCreated_creates (distinct : (batch.map PendingSchedule.scheduleId).Nodup)
    (done : Postgres.PostgresBackend.addJobs store now pick (plan cronexpr systemNow batch).1 none =
      some (later, result)) :
    CreatesFor cronexpr batch store later (SchedulingState.newlyCreated batch store later) := by
  obtain ⟨entries, rows, source⟩ := addJobs_newRows done
  have created : ∀ row ∈ entries.map (Postgres.PostgresBackend.newJobRow now), ∃ schedule ∈ batch,
      nextExecutionTime cronexpr systemNow schedule = .ok (some row.targetExecutionTime) ∧
        row.scheduleId = some schedule.scheduleId ∧
        SchedulingState.createdOf batch row = some ⟨row, schedule⟩ := by
    rw [List.forall_mem_map]
    rintro ⟨new, id⟩ member
    obtain ⟨schedule, present, nextTime, found, _, rfl⟩ :=
      plan_newJobs (source.subset (List.mem_map_of_mem member))
    exact ⟨schedule, present, found, rfl, createdOf_planned distinct present⟩
  have new : SchedulingState.newlyCreated batch store later =
      (entries.map (Postgres.PostgresBackend.newJobRow now)).filterMap
        (SchedulingState.createdOf batch) := by
    rw [SchedulingState.newlyCreated, rows, List.drop_left]
  have facts : ∀ made ∈ SchedulingState.newlyCreated batch store later, made.schedule ∈ batch ∧
      made.job.scheduleId = some made.scheduleId ∧ made.Computed cronexpr := by
    intro made member
    rw [new] at member
    obtain ⟨row, present, known⟩ := List.mem_filterMap.mp member
    obtain ⟨schedule, inBatch, found, owner, isCreated⟩ := created row present
    rw [isCreated, Option.some.injEq] at known
    subst known
    exact ⟨inBatch, owner, systemNow, found⟩
  refine ⟨fun made member => (facts made member).1, fun made member => (facts made member).2.1,
    fun made member => (facts made member).2.2, ?_, ?_⟩
  · have owners : ((SchedulingState.newlyCreated batch store later).map fun made =>
        some made.scheduleId).Sublist
          ((entries.map (Postgres.PostgresBackend.newJobRow now)).map JobRow.scheduleId) :=
      new ▸ createdOf_owners _
    have fromPlan : ((entries.map (Postgres.PostgresBackend.newJobRow now)).map
        JobRow.scheduleId).Sublist ((batch.map PendingSchedule.scheduleId).map some) := by
      have ids := (source.map NewJob.scheduleId).trans plan_scheduleIds
      rw [List.map_map] at ids ⊢
      rw [List.map_map]
      exact ids
    have nodup := (distinct.map (Option.some_injective _)).sublist (owners.trans fromPlan)
    exact List.Nodup.of_map some (by rw [List.map_map]; exact nodup)
  · rw [new, createdOf_rows fun row member => ?_, rows]
    obtain ⟨schedule, _, _, _, isCreated⟩ := created row member
    exact ⟨_, isCreated⟩

end NewJobs

namespace ProgressInvariant

variable {cronexpr : Cronexpr} {state after : SchedulingState}

/-- A created job follows the one that was created last for its schedule. -/
theorem chain_append (inv : ProgressInvariant cronexpr state) {new : List CreatedJob}
    (distinct : (new.map CreatedJob.scheduleId).Nodup)
    (fetched : ∀ made ∈ new, Fetched state made.schedule)
    (fresh : ∀ made ∈ new, state.store.nextUuid ≤ made.job.id) (id : ScheduleId) :
    (createdFor (state.created ++ new) id).IsChain CreatedJob.Follows := by
  have split : createdFor (state.created ++ new) id =
      createdFor state.created id ++ createdFor new id := List.filter_append ..
  rw [split]
  rcases createdFor_single distinct id with none | ⟨made, member, rfl, alone⟩
  · rw [none, List.append_nil]
    exact inv.chain id
  · rw [alone]
    refine (inv.chain _).append (List.isChain_singleton _) ?_
    intro last newest next head
    cases head
    have known := List.mem_of_getLast? newest
    have sound := fetched made member
    refine ⟨?_, (sound.same last known).symm, ?_⟩
    · exact Nat.lt_of_lt_of_le (inv.created last (mem_createdFor.mp known).1).issued
        (fresh made member)
    · rw [sound.last]
      exact congrArg (Option.map CreatedJob.time) newest

theorem added (inv : ProgressInvariant cronexpr state) {systemNow now : Time}
    {batch : List PendingSchedule} (adding : state.pass = .adding systemNow batch) {pick : Pick}
    {later : Store} {result : AddedJobs}
    (done : Postgres.PostgresBackend.addJobs state.store now pick (plan cronexpr systemNow batch).1
      none = some (later, result)) :
    ProgressInvariant cronexpr ⟨later, .stopping systemNow batch,
      state.created ++ SchedulingState.newlyCreated batch state.store later, state.ended⟩ := by
  obtain ⟨distinct, fetched⟩ := inv.fetched systemNow batch adding
  have creates := newlyCreated_creates distinct done
  have kept : StoreKept state.store later := .addsJobs done
  have link : ScheduleLink later := inv.link.step
    (show (Operation.addJobs now pick (plan cronexpr systemNow batch).1 none).apply state.store =
      some later from Option.map_eq_some_iff.mpr ⟨_, done, rfl⟩)
  obtain ⟨newJobs, _, _, effect⟩ := Postgres.addJobs_adds done
  have isNew : newJobs = (SchedulingState.newlyCreated batch state.store later).map CreatedJob.job :=
    List.append_cancel_left (effect.jobs.symm.trans creates.rows)
  have freshJobs := effect.freshJobs
  rw [isNew, List.forall_mem_map] at freshJobs
  refine ⟨link, ?_, ?_, ?_, fun _ _ other => by cases other⟩
  · simp only [List.forall_mem_append]
    refine ⟨fun made member => (inv.created made member).later kept, fun made member => ?_⟩
    have sound := fetched made.schedule (creates.schedules made member)
    have present : made.job ∈ later.jobs.rows := by
      rw [creates.rows]
      exact List.mem_append_right _ (List.mem_map_of_mem member)
    refine ⟨(freshJobs made member).2, Nat.lt_of_lt_of_le sound.issued kept.next,
      creates.owner made member, creates.computed made member, fun job known same => ?_,
      policy_kept kept sound.issued sound.policy⟩
    rw [later.jobs.eq_of_key known present same]
  · intro job member id scheduled
    rw [creates.rows, List.mem_append, List.mem_map] at member
    rcases member with old | ⟨made, known, rfl⟩
    · obtain ⟨made, known, same⟩ := inv.logged job old id scheduled
      exact ⟨made, List.mem_append_left _ known, same⟩
    · exact ⟨made, List.mem_append_right _ known, rfl⟩
  · exact inv.chain_append creates.distinct
      (fun made member => fetched made.schedule (creates.schedules made member))
      fun made member => (freshJobs made member).1

/-- A step of the loop that leaves the store and the created jobs alone. -/
theorem pass (inv : ProgressInvariant cronexpr state) {pass : Pass}
    (fetched : ∀ now batch, pass = .adding now batch →
      (batch.map PendingSchedule.scheduleId).Nodup ∧ ∀ schedule ∈ batch, Fetched state schedule) :
    ProgressInvariant cronexpr { state with pass := pass } :=
  inv.keep inv.link (.refl _) (fun job member _ _ => inv.link.issuedJobs job member) fetched

theorem step (inv : ProgressInvariant cronexpr state) {action : SchedulingState.Action}
    (newest : state.newestStored action)
    (done : state.step cronexpr (fun time => time) action = some after) :
    ProgressInvariant cronexpr after := by
  rcases SchedulingState.step_cases done with ⟨operation, store, _, outside, applied, rfl⟩ |
    ⟨pass, rfl, fetched⟩ | ⟨_, _, _, _, _, _, adding, inserted, rfl⟩ |
    ⟨now, systemNow, batch, rfl⟩
  · exact inv.keep (inv.link.step applied) (.of_apply applied)
      (fun _ member _ scheduled => unscheduled_known inv.link outside applied member scheduled)
      inv.fetched
  · refine inv.pass fun systemNow batch adding => ?_
    obtain ⟨last, fetching, rfl, rfl⟩ := fetched systemNow batch adding
    simp only [SchedulingState.newestStored, SchedulingState.everyFetched, fetching] at newest
    refine ⟨Postgres.PostgresBackend.pendingSchedules_nodup, fun schedule fetched => ?_⟩
    obtain ⟨row, pending, rfl⟩ := Postgres.PostgresBackend.mem_pendingSchedules fetched
    exact inv.fetchedSound (Postgres.PostgresBackend.mem_pendingRows pending) (newest row pending)
  · exact inv.added adding inserted
  · have applied : (Operation.stopSchedules now
        { scheduleIds := some (plan cronexpr systemNow batch).2 }).apply state.store = some _ := rfl
    exact inv.keep (inv.link.step applied) (.of_apply applied)
      (fun _ member _ scheduled => unscheduled_known inv.link rfl applied member scheduled)
      fun _ _ other => by cases other

end ProgressInvariant

/-- In every run in which the job created last for a schedule is still stored
whenever the schedule is fetched again, the times of the jobs of each schedule
increase, only the first one has the immediate time, and for an interval they
are at its multiples. -/
theorem schedule_times_progress {cronexpr : Cronexpr} {state : SchedulingState}
    (run : Reaches (SchedulingState.step cronexpr fun time => time) SchedulingState.newestStored
      .initial state) (id : ScheduleId) : TimesProgress (createdFor state.created id) := by
  have inv : ProgressInvariant cronexpr state :=
    run.invariant (fun _ _ _ inv newest done => inv.step newest done) .initial
  exact timesProgress_of_chain (inv.chain id) fun made member =>
    (inv.created made (mem_createdFor.mp member).1).computed

/-- A schedule every second, with an immediate first job. -/
def everySecondNow : ScheduleDefinition :=
  { Postgres.everySecond with scheduling := .fixedInterval 1000000000 true .skip }

/-- The immediate job is cancelled, and the next one is five seconds later. -/
def skippedFour : List SchedulingState.Action :=
  .perform (.addSchedules 0 [everySecondNow] none) :: passAt 0 ++
    .perform (.cancelJobs 1 1 (fun _ => 0) {}) :: passAt 5000000000

theorem schedule_times_progress_skippedFour :
    ∃ state, Reaches (SchedulingState.step noCron fun time => time) SchedulingState.newestStored
        .initial state ∧
      (createdFor state.created 0).map CreatedJob.time = [0, 5000000000] ∧
      TimesProgress (createdFor state.created 0) := by
  obtain ⟨state, run, checked⟩ := exists_reaches_of_execute
    (SchedulingState.step noCron fun time => time) SchedulingState.newestStored .initial skippedFour
    (fun state => (createdFor state.created 0).map CreatedJob.time == [0, 5000000000]) (by decide)
  exact ⟨state, run, beq_iff_eq.mp checked, schedule_times_progress run 0⟩

/-- The cancelled job is deleted before the next pass. -/
def deletedHistory : List SchedulingState.Action :=
  .perform (.addSchedules 0 [everySecondNow] none) :: passAt 0 ++
    [.perform (.cancelJobs 1000 1000 (fun _ => 0) {}), .perform (.deleteHistory 10 2000)] ++
    passAt 0

theorem deletedHistory_repeats :
    ¬∀ state, Reaches (SchedulingState.step noCron fun time => time) (addsValidated noCron)
        .initial state →
      ∀ id, TimesProgress (createdFor state.created id) := by
  intro claim
  obtain ⟨state, run, checked⟩ := exists_reaches_of_execute
    (SchedulingState.step noCron fun time => time) (addsValidated noCron) .initial deletedHistory
    (fun state => (createdFor state.created 0).map CreatedJob.time == [0, 0]) (by decide +kernel)
  rw [beq_iff_eq] at checked
  obtain ⟨first, rest, split, firstTime, remaining⟩ := List.map_eq_cons_iff.mp checked
  obtain ⟨second, _, rfl, secondTime, _⟩ := List.map_eq_cons_iff.mp remaining
  have increasing := (claim state run 0).increasing 0 1 first second (by rw [split]; rfl)
    (by rw [split]; rfl) (by decide)
  rw [firstTime, secondTime] at increasing
  exact absurd increasing (by decide)

end Ora.Server
