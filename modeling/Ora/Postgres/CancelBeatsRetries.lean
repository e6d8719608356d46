import Ora.Postgres.RaceInvariant
import Ora.Postgres.JobInvariant

/-!
# Cancelling beats concurrent retries

Once the second update of `cancel_jobs` has visited its targets, no active
execution of a selected job is left that it did not cancel, unless a retry was
committed in between.
-/

namespace Ora.Postgres

open Ora.Backend
open Ora.Library
open Ora.Library.VersionedTable (Keeps)

variable {race : CancelRace} {state after : RaceState}

theorem hasActive_iff {executions : ExecutionVersions}
    (known : ∀ id, id ∉ executions.keys → executions.rows id = .absent) {job : JobId} :
    CancelRace.hasActive executions job = true ↔ ActiveIn executions job := by
  simp only [CancelRace.hasActive, List.any_eq_true, Option.any_eq_true, Bool.and_eq_true,
    beq_iff_eq]
  constructor
  · rintro ⟨id, _, row, committed, same, active⟩
    exact ⟨id, row, committed, active, same⟩
  · rintro ⟨id, row, committed, active, same⟩
    refine ⟨id, ?_, row, committed, same, active⟩
    by_contra unknown
    rw [known id unknown] at committed
    cases committed

/-- An update finds every active execution of the selected jobs that it did not cancel yet. -/
theorem covered_targets (versions : VersionsSound race state.executions state.nextUuid) :
    Covered race state.executions (state.executions.targets .cancel race.update) := by
  intro id row committed active selected
  by_cases own : ∃ new, (state.executions.rows id).pending = some (.cancel, new)
  · exact .inr own
  · obtain ⟨new, changed⟩ := CancelRace.update_isSome active selected
    refine .inl (VersionedTable.mem_targets_iff.mpr
      ⟨versions.key_of_committed (by rw [committed]; exact Option.some_ne_none row), row, ?_,
        by rw [changed]; rfl⟩)
    rw [Versions.visible_of_other (not_exists.mp own), committed]

namespace RaceInvariant

theorem cancelStart (columns : columnsOnly race.filters = true) (inv : RaceInvariant race state)
    (done : race.step state .cancelStart = some after) : RaceInvariant race after := by
  simp only [CancelRace.step] at done
  split at done
  · rename_i phase
    cases done
    have cancelling := inv.phase
    rw [PhaseSound, phase] at cancelling
    refine ⟨inv.executions, inv.owned, inv.writers, cancelling, fun job member => ?_⟩
    obtain ⟨matching, hasActive⟩ := List.mem_filter.mp member
    have active := (hasActive_iff inv.executions.known).mp hasActive
    exact ⟨CancelRace.mem_ids columns matching (inv.executions.unfinished job active), .inr active⟩
  · cases done

theorem cancelUpdate (inv : RaceInvariant race state)
    (done : race.step state .cancelUpdate = some after) : RaceInvariant race after := by
  simp only [CancelRace.step] at done
  split at done
  · rename_i phase
    cases done
    have sound := inv.phase
    rw [PhaseSound, phase] at sound
    exact ⟨inv.executions, inv.owned, inv.writers, sound⟩
  · rename_i phase
    cases done
    have sound := inv.phase
    rw [PhaseSound, phase] at sound
    exact ⟨inv.executions, inv.owned, inv.writers, sound.1, sound.2, covered_targets inv.executions⟩
  · cases done

end RaceInvariant

theorem Cancelling.not_active {executions : ExecutionVersions} {cancelled : List CancelledJob}
    (cancelling : Cancelling race executions cancelled) {id : ExecutionId} {row : ExecutionRow}
    (own : (executions.rows id).pending = some (.cancel, row)) : row.active = false := by
  rw [ExecutionRow.not_active_iff, (cancelling.changed id row own).2.1]
  rfl

/-- A target that the update still matches was not changed by anyone. -/
theorem Cancelling.pending_of_changed {executions : ExecutionVersions}
    {cancelled : List CancelledJob} (cancelling : Cancelling race executions cancelled)
    {id : ExecutionId} {old row : ExecutionRow}
    (free : (executions.rows id).lockedFor .cancel = false)
    (seen : (executions.rows id).visible .cancel = some old) (changed : race.update old = some row) :
    (executions.rows id).pending = none := by
  rcases Versions.pending_of_unlocked free with nothing | ⟨own, pending⟩
  · exact nothing
  · rw [Versions.visible_of_own pending] at seen
    cases seen
    have active := (CancelRace.update_spec changed).1
    rw [cancelling.not_active pending] at active
    cases active

/-- An execution of a selected job is cancelled and returned. -/
theorem Cancelling.write {executions : ExecutionVersions} {cancelled : List CancelledJob}
    (cancelling : Cancelling race executions cancelled) {old row : ExecutionRow}
    (nothing : (executions.rows row.id).pending = none)
    (committed : (executions.rows row.id).committed = some old)
    (changed : race.update old = some row) :
    Cancelling race (executions.write .cancel row.id row) (cancelled ++ [race.cancelledJob row]) := by
  obtain ⟨active, selected, sameId, sameJob, status⟩ := CancelRace.update_spec changed
  refine ⟨fun id entry own => ?_, fun entry member => ?_⟩
  · by_cases same : id = row.id
    · subst same
      rw [VersionedTable.write_pending_self] at own
      cases own
      exact ⟨⟨VersionedTable.write_pending_self, old, VersionedTable.write_committed.trans committed,
        active, sameJob.symm⟩, status, sameJob ▸ selected,
        race.cancelledJob row, List.mem_append_right _ (List.mem_singleton_self _), rfl⟩
    · have kept : (executions.write .cancel row.id row).rows id = executions.rows id :=
        VersionedTable.write_rows_of_ne same
      rw [kept] at own
      obtain ⟨replaces, status, known, listed, returned, same⟩ := cancelling.changed id entry own
      exact ⟨replaces.of_rows kept, status, known, listed, List.mem_append_left _ returned, same⟩
  · rcases List.mem_append.mp member with before | new
    · obtain ⟨other, own, same⟩ := cancelling.returned entry before
      refine ⟨other, ?_, same⟩
      rw [VersionedTable.write_rows_of_ne, own]
      rintro again
      rw [again, nothing] at own
      cases own
    · cases List.mem_singleton.mp new
      exact ⟨row, VersionedTable.write_pending_self, rfl⟩

/-- A target that does not match any more is skipped. -/
theorem Covered.skip {executions : ExecutionVersions} {targets : List ExecutionId}
    (covered : Covered race executions targets) {id : ExecutionId}
    (free : (executions.rows id).lockedFor .cancel = false)
    (unmatched : ∀ old, (executions.rows id).visible .cancel = some old → race.update old = none) :
    Covered race executions (targets.filter fun target => target != id) := by
  intro other row committed active selected
  rcases covered other row committed active selected with member | cancelled
  · by_cases same : other = id
    · subst same
      rcases Versions.pending_of_unlocked free with nothing | own
      · rw [Versions.visible_of_other (by simp [nothing])] at unmatched
        obtain ⟨new, changed⟩ := CancelRace.update_isSome active selected
        rw [unmatched row committed] at changed
        cases changed
      · exact .inr own
    · exact .inl (List.mem_filter.mpr ⟨member, by simpa using same⟩)
  · exact .inr cancelled

theorem Covered.write {executions : ExecutionVersions} {targets : List ExecutionId}
    (covered : Covered race executions targets) (row : ExecutionRow) :
    Covered race (executions.write .cancel row.id row)
      (targets.filter fun target => target != row.id) := by
  intro other old committed active selected
  rw [VersionedTable.write_committed] at committed
  by_cases same : other = row.id
  · subst same
    exact .inr ⟨row, VersionedTable.write_pending_self⟩
  · rw [VersionedTable.write_rows_of_ne same]
    exact (covered other old committed active selected).imp_left fun member =>
      List.mem_filter.mpr ⟨member, by simpa using same⟩

/-- A transaction that is not `cancel_jobs` keeps its versions. -/
theorem RaceInvariant.cancels (inv : RaceInvariant race state) {executions : ExecutionVersions}
    {phase : CancelPhase} {cancelled : List CancelledJob}
    (versions : VersionsSound race executions state.nextUuid)
    (keeps : ∀ tx, Tx.cancel ≠ tx → Keeps tx state.executions executions)
    (sound : PhaseSound race { state with
      executions := executions
      phase := phase
      cancelled := cancelled }) :
    RaceInvariant race { state with
      executions := executions
      phase := phase
      cancelled := cancelled } where
  executions := versions
  owned id execution row pending :=
    inv.owned id execution row (((keeps _ (by rintro ⟨⟩)).pending execution row).mp pending)
  writers id writer found := (inv.writers id writer found).keeps (keeps _ (by rintro ⟨⟩))
  phase := sound

/-- The phase after a visit. -/
theorem PhaseSound.visited {executions : ExecutionVersions} {cancelled : List CancelledJob}
    {repeated : Bool} {targets remaining : List ExecutionId} (sound : PhaseSound race state)
    (phase : state.phase = .updating repeated targets)
    (same : ∀ id, (executions.rows id).committed = (state.executions.rows id).committed)
    (cancelling : Cancelling race state.executions state.cancelled →
      Cancelling race executions cancelled)
    (covered : Covered race state.executions targets → Covered race executions remaining) :
    PhaseSound race { state with
      executions := executions
      phase := .updating repeated remaining
      cancelled := cancelled } := by
  have wanted : Wanted race state → ∀ job ∈ state.wanted,
      job ∈ race.ids ∧ (job ∈ state.finished ∨ ActiveIn executions job) :=
    fun wanted job member => (wanted job member).imp_right
      (Or.imp_right fun active => active.of_committed fun id => (same id).symm)
  rw [PhaseSound, phase] at sound
  cases repeated with
  | false => exact ⟨cancelling sound.1, wanted sound.2⟩
  | true => exact ⟨cancelling sound.1, wanted sound.2.1, covered sound.2.2⟩

namespace RaceInvariant

theorem cancelling_of_updating (inv : RaceInvariant race state) {repeated : Bool}
    {targets : List ExecutionId} (phase : state.phase = .updating repeated targets) :
    Cancelling race state.executions state.cancelled := by
  have sound := inv.phase
  rw [PhaseSound, phase] at sound
  cases repeated with
  | false => exact sound.1
  | true => exact sound.1

theorem cancelVisit (inv : RaceInvariant race state) {execution : ExecutionId}
    (done : race.step state (.cancelVisit execution) = some after) : RaceInvariant race after := by
  simp only [CancelRace.step] at done
  split at done
  · rename_i repeated targets phase
    split at done
    · obtain ⟨⟨executions, result⟩, visited, rfl⟩ := Option.map_eq_some_iff.mp done
      have cancelling := inv.cancelling_of_updating phase
      obtain ⟨free, ⟨rfl, rfl, unmatched⟩ | ⟨old, row, seen, changed, rfl, rfl⟩⟩ :=
        VersionedTable.visit_cases visited
      · refine inv.cancels inv.executions (fun tx _ => .refl tx _)
          (inv.phase.visited phase (fun _ => rfl) ?_ fun covered => covered.skip free unmatched)
        simp
      · have nothing := cancelling.pending_of_changed free seen changed
        rw [Versions.visible_of_other (by simp [nothing])] at seen
        obtain ⟨_, _, sameId, _⟩ := CancelRace.update_spec changed
        have own := (inv.executions.keyed _ _ seen).symm.trans sameId.symm
        subst own
        exact inv.cancels (inv.executions.write _ (by rw [seen]; exact Option.some_ne_none old))
          (fun tx different => .write different (by simp [nothing]))
          (inv.phase.visited phase (fun _ => VersionedTable.write_committed)
            (fun cancelling => cancelling.write nothing seen changed) fun covered => covered.write row)
    · cases done
  · cases done

theorem cancelCommit (inv : RaceInvariant race state)
    (done : race.step state .cancelCommit = some after) : RaceInvariant race after := by
  simp only [CancelRace.step] at done
  split at done
  · rename_i phase
    cases done
    have sound := inv.phase
    rw [PhaseSound, phase] at sound
    obtain ⟨cancelling, wanted, covered⟩ := sound
    have committed : ∀ id row, (state.executions.rows id).pending = some (.cancel, row) →
        ((state.executions.commit .cancel).rows id).committed = some row := by
      intro id row own
      simp [VersionedTable.commit, Versions.commit, Versions.close_of_own own]
    refine inv.cancels (inv.executions.commit fun id row own _ => (cancelling.changed id row own).1.activeIn)
      (fun tx different => .commit different _) ⟨fun job selected active => ?_, fun job member => ?_,
        fun entry member => ?_⟩
    · obtain ⟨id, row, present, active, rfl⟩ := active
      by_cases own : ∃ new, (state.executions.rows id).pending = some (.cancel, new)
      · obtain ⟨new, own⟩ := own
        rw [committed id new own] at present
        cases present
        rw [cancelling.not_active own] at active
        cases active
      · change ((state.executions.rows id).commit .cancel).committed = some row at present
        rw [Versions.commit, Versions.close_of_other (not_exists.mp own)] at present
        rcases covered id row present active selected with impossible | cancelled
        · cases impossible
        · exact own cancelled
    · obtain ⟨selected, finished | ⟨id, row, present, active, rfl⟩⟩ := wanted job member
      · exact ⟨selected, .inl finished⟩
      · rcases covered id row present active selected with impossible | ⟨new, own⟩
        · cases impossible
        · obtain ⟨⟨_, old, replaced, _, sameJob⟩, _, _, entry, listed, same⟩ :=
            cancelling.changed id new own
          rw [present] at replaced
          cases replaced
          exact ⟨selected, .inr ⟨entry, listed, same.trans sameJob.symm⟩⟩
    · obtain ⟨row, own, same⟩ := cancelling.returned entry member
      exact ⟨row, committed _ row own, (cancelling.changed _ row own).2.1, same⟩
  · cases done

theorem step (columns : columnsOnly race.filters = true) (inv : RaceInvariant race state)
    {action : RaceAction} (behind : state.notOvertaken action)
    (done : race.step state action = some after) : RaceInvariant race after := by
  cases action with
  | start id call => exact inv.start done
  | visit id execution => exact inv.visit done
  | insert id now => exact inv.insert done
  | commit id => exact inv.commit behind done
  | rollback id => exact inv.rollback done
  | cancelStart => exact inv.cancelStart columns done
  | cancelUpdate => exact inv.cancelUpdate done
  | cancelVisit execution => exact inv.cancelVisit done
  | cancelCommit => exact inv.cancelCommit done

end RaceInvariant

/-- At the start all versions are those of a store whose unfinished jobs are not marked. -/
theorem RaceInvariant.initial (jobs : JobInvariant race.store) (statuses : StatusesStored race.store) :
    RaceInvariant race race.initial where
  executions := by
    refine ⟨fun id unknown => ?_, fun id member => ?_, fun id row found => ?_, ?_, ?_⟩
    · have absent : race.store.executions.find? id = none := by
        rw [Table.find?_eq_none_iff]
        exact fun row member same => unknown (List.mem_map.mpr ⟨row, member, same⟩)
      change (⟨race.store.executions.find? id, none⟩ : Versions Tx ExecutionRow) = _
      rw [absent]
      rfl
    · obtain ⟨row, present, rfl⟩ := List.mem_map.mp member
      exact jobs.issuedExecutions row present
    · exact ((Table.find?_eq_some_iff _ id row).mp found).2
    · rintro id tx row ⟨⟩
    · rintro job ⟨id, row, found, active, rfl⟩ jobRow member same
      have present := ((Table.find?_eq_some_iff _ id row).mp found).1
      exact statuses.unmarked jobRow member
        ((jobs.running jobRow member).mpr ⟨row, present, same.symm, active⟩)
  owned := by rintro id execution row ⟨⟩
  writers := by rintro id writer ⟨⟩
  phase := by
    refine ⟨?_, fun entry member => absurd member List.not_mem_nil⟩
    rintro id row ⟨⟩

/-- Of each job the first entry is returned. -/
theorem filter_firstPerJob (rows : List CancelledJob) {seen : List JobId} {job : JobId}
    (fresh : job ∉ seen) :
    ((firstPerJob seen rows).filter fun entry => entry.jobId == job) =
      (rows.filter fun entry => entry.jobId == job).take 1 := by
  induction rows generalizing seen with
  | nil => rfl
  | cons row rest ih =>
      unfold firstPerJob
      by_cases same : row.jobId = job
      · have unseen : seen.contains row.jobId = false := by simpa [same] using fresh
        have others : (firstPerJob (row.jobId :: seen) rest).filter
            (fun entry => entry.jobId == job) = [] := by
          rw [List.filter_eq_nil_iff]
          intro entry member again
          have known := (firstPerJob_jobs rest (row.jobId :: seen) entry.jobId).mp
            (List.mem_map_of_mem member)
          exact known.1 (by simp [same, (beq_iff_eq.mp again)])
        have matching : (fun entry : CancelledJob => entry.jobId == job) row = true := by
          simpa using same
        rw [if_neg (by rw [unseen]; exact Bool.false_ne_true),
          List.filter_cons_of_pos (l := firstPerJob (row.jobId :: seen) rest) matching, others,
          List.filter_cons_of_pos (l := rest) matching]
        rfl
      · rw [List.filter_cons_of_neg (by simpa using same)]
        split
        · exact ih fresh
        · rw [List.filter_cons_of_neg (by simpa using same)]
          exact ih (by simpa [Ne.symm same] using fresh)

/-- The job is returned once, with the execution that was cancelled, and it has
no active execution. -/
structure JobCancelled (state : RaceState) (job : JobId) : Prop where
  returned : ∃ entry, ((CancelRace.returned state).filter fun entry => entry.jobId == job) = [entry] ∧
    ∃ row, (state.executions.rows entry.lastExecutionId).committed = some row ∧
      row.jobId = job ∧ row.status = .cancelled
  idle : ¬ActiveIn state.executions job

theorem Settled.jobCancelled (settled : Settled race state) {job : JobId}
    (member : job ∈ state.wanted) (unfinished : job ∉ state.finished) : JobCancelled state job := by
  obtain ⟨selected, finished | ⟨known, listed, own⟩⟩ := settled.wanted job member
  · exact absurd finished unfinished
  · refine ⟨?_, settled.idle job selected⟩
    unfold CancelRace.returned
    rw [filter_firstPerJob state.cancelled List.not_mem_nil]
    cases entries : state.cancelled.filter fun entry => entry.jobId == job with
    | nil =>
        rw [List.filter_eq_nil_iff] at entries
        exact absurd (beq_iff_eq.mpr own) (entries known listed)
    | cons entry rest =>
        obtain ⟨present, same⟩ := List.mem_filter.mp (entries ▸ List.mem_cons_self : entry ∈ _)
        obtain ⟨row, committed, status, sameJob⟩ := settled.returned entry present
        exact ⟨entry, rfl, row, committed, sameJob.trans (beq_iff_eq.mp same), status⟩

/-- However updates and commits of other transactions interleave with it, a
committed `cancel_jobs` has cancelled and returned every job that matched and
had an active execution when it started, if no retry overtakes its second
update. -/
theorem cancel_beats_retries
    (stored : Reaches Operation.apply (fun store operation => operation.retriesSound store)
      Store.empty race.store)
    (columns : columnsOnly race.filters = true)
    (run : Reaches race.step RaceState.notOvertaken race.initial state)
    (done : state.phase = .committed) :
    ∀ job ∈ state.wanted, job ∉ state.finished → JobCancelled state job := by
  have statuses := statusesStored_of_reaches
    (stored.mono fun _ _ (sound : Operation.retriesSound _ _) => sound.1)
  have inv : RaceInvariant race state := run.invariant
    (fun _ _ _ inv behind taken => inv.step columns behind taken)
    (.initial (jobInvariant_of_reaches JobInvariant.empty stored) statuses)
  have settled := inv.phase
  rw [PhaseSound, done] at settled
  exact fun job member unfinished => settled.jobCancelled member unfinished

/-- A job `0` whose execution `1` was started. -/
def runningJob : List Operation :=
  [.addJobs 0 (fun _ => 0) [plainJob 2] none, .executionsStarted (fun _ => 0) [⟨1, 7, 1⟩]]

def cancelAll (store : Store) : CancelRace where
  store := store
  now := 9
  filters := {}

def retryOf (execution : ExecutionId) : WriterCall :=
  .executionsRetried (fun _ => 0) [⟨⟨execution, 0, 2, "failed"⟩, 3⟩]

/-- The first update waits for the retry of `1`, and skips it. -/
def retriedDuringFirst : List RaceAction :=
  [.start 0 (retryOf 1), .visit 0 1, .insert 0 3, .cancelStart, .cancelUpdate, .commit 0,
    .cancelVisit 1]

theorem cancel_beats_retries_retriedDuringFirst :
    ∃ store state, Reaches Operation.apply (fun store operation => operation.retriesSound store)
        Store.empty store ∧
      Reaches (cancelAll store).step RaceState.notOvertaken (cancelAll store).initial state ∧
      CancelRace.returned state = [⟨0, 2, "type"⟩] ∧ JobCancelled state 0 := by
  obtain ⟨store, stored, checked⟩ := exists_reaches_of_execute Operation.apply
    (fun store operation => operation.retriesSound store) Store.empty runningJob
    (fun store => (execute (cancelAll store).step RaceState.notOvertaken (cancelAll store).initial
      (retriedDuringFirst ++ [.cancelUpdate, .cancelVisit 2, .cancelCommit])).any fun (state : RaceState) =>
        decide (state.phase = .committed) && decide (0 ∈ state.wanted) &&
          decide (0 ∉ state.finished) && CancelRace.returned state == [⟨0, 2, "type"⟩]) (by decide)
  obtain ⟨state, executed, checked⟩ := (Option.any_eq_true ..).mp checked
  simp only [Bool.and_eq_true, decide_eq_true_eq, beq_iff_eq] at checked
  obtain ⟨⟨⟨committed, wanted⟩, unfinished⟩, returned⟩ := checked
  have run := reaches_of_execute executed
  exact ⟨store, state, stored, run, returned,
    cancel_beats_retries stored rfl run committed 0 wanted unfinished⟩

/-- The retried execution `2` is started, found by the second update, and retried again
before it is visited. -/
def retriedAgain : List RaceAction :=
  retriedDuringFirst ++
    [.start 1 (.executionsStarted (fun _ => 0) [⟨2, 7, 4⟩]), .visit 1 2, .insert 1 4, .commit 1,
      .cancelUpdate, .start 2 (retryOf 2), .visit 2 2, .insert 2 5, .commit 2, .cancelVisit 2,
      .cancelCommit]

theorem retriedAgain_not_cancelled :
    ¬∀ store, Reaches Operation.apply (fun store operation => operation.retriesSound store)
        Store.empty store →
      ∀ state, Reaches (cancelAll store).step (fun _ _ => True) (cancelAll store).initial state →
      state.phase = .committed →
      ∀ job ∈ state.wanted, job ∉ state.finished → JobCancelled state job := by
  intro claim
  obtain ⟨store, stored, checked⟩ := exists_reaches_of_execute Operation.apply
    (fun store operation => operation.retriesSound store) Store.empty runningJob
    (fun store => (execute (cancelAll store).step (fun _ _ => True) (cancelAll store).initial
      retriedAgain).any fun (state : RaceState) =>
        decide (state.phase = .committed) && decide (0 ∈ state.wanted) &&
          decide (0 ∉ state.finished) && (CancelRace.returned state).isEmpty) (by decide)
  obtain ⟨state, executed, checked⟩ := (Option.any_eq_true ..).mp checked
  simp only [Bool.and_eq_true, decide_eq_true_eq, List.isEmpty_iff] at checked
  obtain ⟨⟨⟨committed, wanted⟩, unfinished⟩, nothing⟩ := checked
  obtain ⟨entry, returned, _⟩ :=
    (claim store stored state (reaches_of_execute executed) committed 0 wanted unfinished).returned
  rw [nothing] at returned
  cases returned

end Ora.Postgres
