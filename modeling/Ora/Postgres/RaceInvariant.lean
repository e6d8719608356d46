import Ora.Postgres.CancelRace

/-!
# The invariant of the race

Every version of an open transaction replaces an active one of the same job, or
is a new execution of a job whose execution the transaction failed.  A job that
is to be cancelled therefore has a committed active execution until it is
cancelled or another transaction finishes it.
-/

namespace Ora.Postgres

open Ora.Backend
open Ora.Library
open Ora.Library.VersionedTable (Keeps)

/-- The version of an open transaction replaces an active one of the same job. -/
def Replaces (executions : ExecutionVersions) (tx : Tx) (id : ExecutionId) (row : ExecutionRow) :
    Prop :=
  (executions.rows id).pending = some (tx, row) ∧
    ∃ old, (executions.rows id).committed = some old ∧ old.active = true ∧ old.jobId = row.jobId

theorem Replaces.keeps {before after : ExecutionVersions} {tx : Tx} (keeps : Keeps tx before after)
    {id : ExecutionId} {row : ExecutionRow} (replaces : Replaces before tx id row) :
    Replaces after tx id row := by
  obtain ⟨pending, old, committed, facts⟩ := replaces
  exact ⟨(keeps.pending id row).mpr pending, old,
    (keeps.committed id row pending).trans committed, facts⟩

structure WriterSound (executions : ExecutionVersions) (id : Nat) (writer : Writer) : Prop where
  targets : ∀ execution ∈ writer.targets, (executions.rows execution).committed ≠ none ∧
    ∀ row, (executions.rows execution).pending ≠ some (.writer id, row)
  changed : ∀ execution row, (executions.rows execution).pending = some (.writer id, row) →
    Replaces executions (.writer id) execution row ∧ row ∈ writer.returned ∨
      (executions.rows execution).committed = none ∧ row ∈ writer.inserted.getD []
  returned : ∀ row ∈ writer.returned, ∃ execution, Replaces executions (.writer id) execution row
  inserted : ∀ row ∈ writer.inserted.getD [], row.active = true ∧
    (∃ execution, (executions.rows execution).pending = some (.writer id, row)) ∧
    ∃ other ∈ writer.returned, other.jobId = row.jobId

theorem WriterSound.keeps {before after : ExecutionVersions} {id : Nat} {writer : Writer}
    (keeps : Keeps (.writer id) before after) (sound : WriterSound before id writer) :
    WriterSound after id writer where
  targets execution member := by
    obtain ⟨stored, untouched⟩ := sound.targets execution member
    exact ⟨keeps.stored execution stored, fun row own =>
      untouched row ((keeps.pending execution row).mp own)⟩
  changed execution row own := by
    have before := (keeps.pending execution row).mp own
    rw [keeps.committed execution row before]
    exact (sound.changed execution row before).imp
      (fun replaced => ⟨replaced.1.keeps keeps, replaced.2⟩) fun inserted => inserted
  returned row member := by
    obtain ⟨execution, replaces⟩ := sound.returned row member
    exact ⟨execution, replaces.keeps keeps⟩
  inserted row member := by
    obtain ⟨active, ⟨execution, own⟩, failed⟩ := sound.inserted row member
    exact ⟨active, ⟨execution, (keeps.pending execution row).mpr own⟩, failed⟩

/-- The versions that `cancel_jobs` wrote are those of the rows it returned. -/
structure Cancelling (race : CancelRace) (executions : ExecutionVersions)
    (cancelled : List CancelledJob) : Prop where
  changed : ∀ id row, (executions.rows id).pending = some (.cancel, row) →
    Replaces executions .cancel id row ∧ row.status = .cancelled ∧ row.jobId ∈ race.ids ∧
      ∃ entry ∈ cancelled, entry.jobId = row.jobId
  returned : ∀ entry ∈ cancelled, ∃ row,
    (executions.rows entry.lastExecutionId).pending = some (.cancel, row) ∧
      row.jobId = entry.jobId

theorem Cancelling.keeps {race : CancelRace} {before after : ExecutionVersions}
    {cancelled : List CancelledJob} (keeps : Keeps .cancel before after)
    (cancelling : Cancelling race before cancelled) : Cancelling race after cancelled where
  changed id row own := by
    obtain ⟨replaces, facts⟩ := cancelling.changed id row ((keeps.pending id row).mp own)
    exact ⟨replaces.keeps keeps, facts⟩
  returned entry member := by
    obtain ⟨row, own, same⟩ := cancelling.returned entry member
    exact ⟨row, (keeps.pending _ row).mpr own, same⟩

/-- A committed active execution of the job. -/
def ActiveIn (executions : ExecutionVersions) (job : JobId) : Prop :=
  ∃ id row, (executions.rows id).committed = some row ∧ row.active = true ∧ row.jobId = job

/-- No job is lost: it can still be cancelled, or others finished it. -/
def Wanted (race : CancelRace) (state : RaceState) : Prop :=
  ∀ job ∈ state.wanted, job ∈ race.ids ∧ (job ∈ state.finished ∨ ActiveIn state.executions job)

/-- The update finds or has changed every active execution of the selected jobs. -/
def Covered (race : CancelRace) (executions : ExecutionVersions) (targets : List ExecutionId) :
    Prop :=
  ∀ id row, (executions.rows id).committed = some row → row.active = true →
    row.jobId ∈ race.ids →
    id ∈ targets ∨ ∃ new, (executions.rows id).pending = some (.cancel, new)

/-- What `cancel_jobs` has achieved when it is committed. -/
structure Settled (race : CancelRace) (state : RaceState) : Prop where
  idle : ∀ job, job ∈ race.ids → ¬ActiveIn state.executions job
  wanted : ∀ job ∈ state.wanted, job ∈ race.ids ∧
    (job ∈ state.finished ∨ ∃ entry ∈ state.cancelled, entry.jobId = job)
  returned : ∀ entry ∈ state.cancelled, ∃ row,
    (state.executions.rows entry.lastExecutionId).committed = some row ∧
      row.status = .cancelled ∧ row.jobId = entry.jobId

/-- What is known of `cancel_jobs` in its phase. -/
def PhaseSound (race : CancelRace) (state : RaceState) : Prop :=
  match state.phase with
  | .waiting => Cancelling race state.executions state.cancelled
  | .begun => Cancelling race state.executions state.cancelled ∧ Wanted race state
  | .updating false _ => Cancelling race state.executions state.cancelled ∧ Wanted race state
  | .updating true targets => Cancelling race state.executions state.cancelled ∧ Wanted race state ∧
      Covered race state.executions targets
  | .committed => Settled race state

/-- The keys of the table, and the jobs of its active rows. -/
structure VersionsSound (race : CancelRace) (executions : ExecutionVersions) (nextUuid : Uuid) :
    Prop where
  known : ∀ id, id ∉ executions.keys → executions.rows id = .absent
  issued : ∀ id ∈ executions.keys, id < nextUuid
  keyed : ∀ id row, (executions.rows id).committed = some row → row.id = id
  pendingKeyed : ∀ id tx row, (executions.rows id).pending = some (tx, row) → row.id = id
  unfinished : ∀ job, ActiveIn executions job →
    ∀ row ∈ race.store.jobs.rows, row.id = job → row.inactiveStatus = none

structure RaceInvariant (race : CancelRace) (state : RaceState) : Prop where
  executions : VersionsSound race state.executions state.nextUuid
  owned : ∀ id execution row, (state.executions.rows execution).pending = some (.writer id, row) →
    ∃ writer, state.writers id = some writer
  writers : ∀ id writer, state.writers id = some writer → WriterSound state.executions id writer
  phase : PhaseSound race state

variable {race : CancelRace} {state after : RaceState}

theorem Replaces.activeIn {executions : ExecutionVersions} {tx : Tx} {id : ExecutionId}
    {row : ExecutionRow} (replaces : Replaces executions tx id row) :
    ActiveIn executions row.jobId := by
  obtain ⟨_, old, committed, active, same⟩ := replaces
  exact ⟨id, old, committed, active, same⟩

/-- A writer only touches jobs with an active execution. -/
theorem WriterSound.activeIn {executions : ExecutionVersions} {id : Nat} {writer : Writer}
    (sound : WriterSound executions id writer) {execution : ExecutionId} {row : ExecutionRow}
    (own : (executions.rows execution).pending = some (.writer id, row)) :
    ActiveIn executions row.jobId := by
  rcases sound.changed execution row own with ⟨replaces, _⟩ | ⟨_, inserted⟩
  · exact replaces.activeIn
  · obtain ⟨_, _, other, returned, same⟩ := sound.inserted row inserted
    obtain ⟨_, replaces⟩ := sound.returned other returned
    exact same ▸ replaces.activeIn

theorem ActiveIn.of_committed {before after : ExecutionVersions} {job : JobId}
    (same : ∀ id, (after.rows id).committed = (before.rows id).committed)
    (active : ActiveIn after job) : ActiveIn before job := by
  obtain ⟨id, row, committed, facts⟩ := active
  exact ⟨id, row, (same id).symm.trans committed, facts⟩

/-- A commit adds no job to those with an active execution. -/
theorem ActiveIn.of_commit {executions : ExecutionVersions} {tx : Tx}
    (jobs : ∀ id row, (executions.rows id).pending = some (tx, row) → row.active = true →
      ActiveIn executions row.jobId) {job : JobId} (active : ActiveIn (executions.commit tx) job) :
    ActiveIn executions job := by
  obtain ⟨id, row, committed, active, rfl⟩ := active
  change ((executions.rows id).commit tx).committed = some row at committed
  obtain ⟨new, own, closed⟩ | ⟨_, same⟩ := (executions.rows id).commit_cases tx
  · rw [closed] at committed
    cases committed
    exact jobs id _ own active
  · rw [same] at committed
    exact ⟨id, row, committed, active, rfl⟩

namespace VersionsSound

variable {executions : ExecutionVersions} {nextUuid : Uuid}

theorem key_of_committed (sound : VersionsSound race executions nextUuid) {id : ExecutionId}
    (stored : (executions.rows id).committed ≠ none) : id ∈ executions.keys := by
  by_contra unknown
  rw [sound.known id unknown] at stored
  exact stored rfl

/-- A row is changed by a transaction. -/
theorem write (sound : VersionsSound race executions nextUuid) (tx : Tx) {row : ExecutionRow}
    (stored : (executions.rows row.id).committed ≠ none) :
    VersionsSound race (executions.write tx row.id row) nextUuid where
  known id unknown := by
    have different : id ≠ row.id := by
      rintro rfl
      exact unknown (sound.key_of_committed stored)
    rw [VersionedTable.write_rows_of_ne different]
    exact sound.known id unknown
  issued := sound.issued
  keyed id other committed := by
    rw [VersionedTable.write_committed] at committed
    exact sound.keyed id other committed
  pendingKeyed id owner other own := by
    by_cases same : id = row.id
    · subst same
      rw [VersionedTable.write_pending_self] at own
      cases own
      rfl
    · rw [VersionedTable.write_rows_of_ne same] at own
      exact sound.pendingKeyed id owner other own
  unfinished job active :=
    sound.unfinished job (active.of_committed fun _ => VersionedTable.write_committed)

/-- Rows are inserted under identifiers that were not issued before. -/
theorem insert (sound : VersionsSound race executions nextUuid) (tx : Tx)
    {rows : List ExecutionRow} {count : Nat} (distinct : (rows.map ExecutionRow.id).Nodup)
    (fresh : ∀ row ∈ rows, nextUuid ≤ row.id ∧ row.id < nextUuid + count) :
    VersionsSound race (executions.insert tx ExecutionRow.id rows) (nextUuid + count) where
  known id unknown := by
    rw [VersionedTable.insert_keys, List.mem_append, not_or] at unknown
    rw [VersionedTable.insert_rows_of_notMem unknown.2]
    exact sound.known id unknown.1
  issued id member := by
    rw [VersionedTable.insert_keys, List.mem_append] at member
    rcases member with old | new
    · exact Nat.lt_add_right count (sound.issued id old)
    · obtain ⟨row, present, rfl⟩ := List.mem_map.mp new
      exact (fresh row present).2
  keyed id other committed := by
    rw [VersionedTable.insert_committed] at committed
    exact sound.keyed id other committed
  pendingKeyed id owner other own := by
    obtain ⟨row, _, rfl, inserted⟩ | ⟨_, same⟩ :=
      VersionedTable.insert_pending_cases executions tx distinct id
    · rw [inserted] at own
      cases own
      rfl
    · rw [same] at own
      exact sound.pendingKeyed id owner other own
  unfinished job active :=
    sound.unfinished job (active.of_committed fun _ => VersionedTable.insert_committed ..)

/-- An inserted row had no version before. -/
theorem absent (sound : VersionsSound race executions nextUuid) {id : ExecutionId}
    (fresh : nextUuid ≤ id) : executions.rows id = .absent :=
  sound.known id fun member => absurd (sound.issued id member) (Nat.not_lt.mpr fresh)

theorem commit (sound : VersionsSound race executions nextUuid) {tx : Tx}
    (jobs : ∀ id row, (executions.rows id).pending = some (tx, row) → row.active = true →
      ActiveIn executions row.jobId) :
    VersionsSound race (executions.commit tx) nextUuid where
  known id unknown := by
    change (executions.rows id).commit tx = _
    rw [sound.known id unknown]
    rfl
  issued := sound.issued
  keyed id other committed := by
    change ((executions.rows id).commit tx).committed = some other at committed
    obtain ⟨row, own, closed⟩ | ⟨_, same⟩ := (executions.rows id).commit_cases tx
    · rw [closed] at committed
      cases committed
      exact sound.pendingKeyed id tx other own
    · rw [same] at committed
      exact sound.keyed id other committed
  pendingKeyed id owner other own :=
    sound.pendingKeyed id owner other (Versions.close_pending_iff.mp own).1
  unfinished job active := sound.unfinished job (active.of_commit jobs)

theorem rollback (sound : VersionsSound race executions nextUuid) (tx : Tx) :
    VersionsSound race (executions.rollback tx) nextUuid where
  known id unknown := by
    change (executions.rows id).rollback tx = _
    rw [sound.known id unknown]
    rfl
  issued := sound.issued
  keyed id other committed := by
    change ((executions.rows id).rollback tx).committed = some other at committed
    rw [Versions.rollback_committed] at committed
    exact sound.keyed id other committed
  pendingKeyed id owner other own :=
    sound.pendingKeyed id owner other (Versions.close_pending_iff.mp own).1
  unfinished job active :=
    sound.unfinished job (active.of_committed fun _ => Versions.rollback_committed ..)

end VersionsSound

/-- Nothing is committed and `cancel_jobs` is not touched. -/
theorem PhaseSound.keeps {executions : ExecutionVersions} {nextUuid : Uuid}
    {writers : Nat → Option Writer} (sound : PhaseSound race state)
    (keeps : Keeps .cancel state.executions executions)
    (same : ∀ id, (executions.rows id).committed = (state.executions.rows id).committed) :
    PhaseSound race { state with
      executions := executions
      nextUuid := nextUuid
      writers := writers } := by
  have active : ∀ job, ActiveIn state.executions job → ActiveIn executions job :=
    fun _ active => active.of_committed fun id => (same id).symm
  have wanted : Wanted race state → ∀ job ∈ state.wanted,
      job ∈ race.ids ∧ (job ∈ state.finished ∨ ActiveIn executions job) :=
    fun wanted job member => (wanted job member).imp_right (Or.imp_right (active job))
  unfold PhaseSound at sound ⊢
  dsimp only
  cases phase : state.phase with
  | waiting =>
      rw [phase] at sound
      exact sound.keeps keeps
  | begun =>
      rw [phase] at sound
      exact ⟨sound.1.keeps keeps, wanted sound.2⟩
  | updating repeated targets =>
      rw [phase] at sound
      cases repeated with
      | false => exact ⟨sound.1.keeps keeps, wanted sound.2⟩
      | true =>
          refine ⟨sound.1.keeps keeps, wanted sound.2.1, fun id row committed active selected => ?_⟩
          rw [same] at committed
          refine (sound.2.2 id row committed active selected).imp_right ?_
          rintro ⟨new, own⟩
          exact ⟨new, (keeps.pending id new).mpr own⟩
  | committed =>
      rw [phase] at sound
      refine ⟨fun job selected active => ?_, sound.wanted, fun entry member => ?_⟩
      · exact sound.idle job selected (active.of_committed same)
      · obtain ⟨row, committed, facts⟩ := sound.returned entry member
        exact ⟨row, (same _).trans committed, facts⟩

theorem writers_update {writers : Nat → Option Writer} {id other : Nat} {value : Option Writer}
    {writer : Writer} (found : Function.update writers id value other = some writer) :
    other = id ∧ value = some writer ∨ other ≠ id ∧ writers other = some writer := by
  by_cases same : other = id
  · subst same
    rw [Function.update_self] at found
    exact .inl ⟨rfl, found⟩
  · rw [Function.update_of_ne same] at found
    exact .inr ⟨same, found⟩

theorem writer_ne {id other : Nat} (different : other ≠ id) : Tx.writer id ≠ Tx.writer other := by
  rintro same
  cases same
  exact different rfl

namespace RaceInvariant

/-- A writer takes a step of its own and commits nothing. -/
theorem advance (inv : RaceInvariant race state) {id : Nat} {writer : Writer}
    {executions : ExecutionVersions} {nextUuid : Uuid}
    (versions : VersionsSound race executions nextUuid)
    (own : WriterSound executions id writer)
    (keeps : ∀ tx, Tx.writer id ≠ tx → Keeps tx state.executions executions)
    (same : ∀ key, (executions.rows key).committed = (state.executions.rows key).committed) :
    RaceInvariant race { state with
      executions := executions
      nextUuid := nextUuid
      writers := Function.update state.writers id (some writer) } where
  executions := versions
  owned other execution row pending := by
    by_cases same : other = id
    · subst same
      exact ⟨writer, Function.update_self ..⟩
    · obtain ⟨known, found⟩ := inv.owned other execution row
        (((keeps _ (writer_ne same)).pending execution row).mp pending)
      exact ⟨known, (Function.update_of_ne same ..).trans found⟩
  writers other known found := by
    obtain ⟨rfl, value⟩ | ⟨different, old⟩ := writers_update found
    · cases value
      exact own
    · exact (inv.writers other known old).keeps (keeps _ (writer_ne different))
  phase := inv.phase.keeps (keeps .cancel (by rintro ⟨⟩)) same

theorem start (inv : RaceInvariant race state) {id : Nat} {call : WriterCall}
    (done : race.step state (.start id call) = some after) : RaceInvariant race after := by
  simp only [CancelRace.step] at done
  split at done
  · cases done
  · rename_i free
    cases done
    have untouched : ∀ execution row,
        (state.executions.rows execution).pending ≠ some (.writer id, row) := by
      intro execution row own
      obtain ⟨writer, found⟩ := inv.owned id execution row own
      rw [free] at found
      cases found
    refine inv.advance inv.executions ⟨fun execution member => ?_, ?_, ?_, ?_⟩
      (fun tx _ => .refl tx _) fun _ => rfl
    · obtain ⟨_, old, seen, _⟩ := VersionedTable.mem_targets_iff.mp member
      rw [Versions.visible_of_other (untouched execution)] at seen
      exact ⟨by rw [seen]; exact Option.some_ne_none old, untouched execution⟩
    · exact fun execution row own => absurd own (untouched execution row)
    · exact fun row member => absurd member List.not_mem_nil
    · exact fun row member => absurd member List.not_mem_nil

end RaceInvariant

theorem Replaces.of_rows {before after : ExecutionVersions} {tx : Tx} {id : ExecutionId}
    {row : ExecutionRow} (same : after.rows id = before.rows id)
    (replaces : Replaces before tx id row) : Replaces after tx id row := by
  unfold Replaces
  rw [same]
  exact replaces

namespace WriterSound

variable {executions : ExecutionVersions} {id : Nat} {writer : Writer}

/-- A target that an update may change has no other version, or one of the same transaction. -/
theorem pending_of_unlocked (sound : WriterSound executions id writer) {execution : ExecutionId}
    (member : execution ∈ writer.targets)
    (free : (executions.rows execution).lockedFor (.writer id) = false) :
    (executions.rows execution).pending = none := by
  rcases Versions.pending_of_unlocked free with nothing | ⟨row, own⟩
  · exact nothing
  · exact absurd own ((sound.targets execution member).2 row)

/-- The update changes a target. -/
theorem write (sound : WriterSound executions id writer) {old row : ExecutionRow}
    (nothing : (executions.rows row.id).pending = none)
    (committed : (executions.rows row.id).committed = some old) (active : old.active = true)
    (sameJob : row.jobId = old.jobId) :
    WriterSound (executions.write (.writer id) row.id row) id { writer with
      targets := writer.targets.filter fun target => target != row.id
      returned := writer.returned ++ [row] } := by
  have own : Replaces (executions.write (.writer id) row.id row) (.writer id) row.id row :=
    ⟨VersionedTable.write_pending_self, old, VersionedTable.write_committed.trans committed, active,
      sameJob.symm⟩
  -- The other versions of the transaction are those of other rows.
  have other : ∀ execution entry, (executions.rows execution).pending = some (.writer id, entry) →
      (executions.write (.writer id) row.id row).rows execution = executions.rows execution := by
    intro execution entry pending
    refine VersionedTable.write_rows_of_ne ?_
    rintro rfl
    rw [nothing] at pending
    cases pending
  refine ⟨fun execution remains => ?_, fun execution entry pending => ?_, fun entry member => ?_,
    fun entry member => ?_⟩
  · obtain ⟨member, different⟩ := List.mem_filter.mp remains
    rw [VersionedTable.write_rows_of_ne (by simpa using different)]
    exact sound.targets execution member
  · by_cases same : execution = row.id
    · subst same
      rw [VersionedTable.write_pending_self] at pending
      cases pending
      exact .inl ⟨own, List.mem_append_right _ (List.mem_singleton_self _)⟩
    · have kept : (executions.write (.writer id) row.id row).rows execution =
          executions.rows execution := VersionedTable.write_rows_of_ne same
      rw [kept] at pending ⊢
      exact (sound.changed execution entry pending).imp_left fun replaced =>
        ⟨replaced.1.of_rows kept, List.mem_append_left _ replaced.2⟩
  · rcases List.mem_append.mp member with before | new
    · obtain ⟨execution, replaces⟩ := sound.returned entry before
      exact ⟨execution, replaces.of_rows (other execution entry replaces.1)⟩
    · cases List.mem_singleton.mp new
      exact ⟨row.id, own⟩
  · obtain ⟨isActive, ⟨execution, pending⟩, failed, known, same⟩ := sound.inserted entry member
    refine ⟨isActive, ⟨execution, ?_⟩, failed, List.mem_append_left _ known, same⟩
    rw [other execution entry pending]
    exact pending

/-- The rows of new executions are inserted. -/
theorem insert {call : WriterCall} {returned : List ExecutionRow}
    (sound : WriterSound executions id ⟨call, [], returned, none⟩) {rows : List ExecutionRow}
    (distinct : (rows.map ExecutionRow.id).Nodup)
    (fresh : ∀ row ∈ rows, executions.rows row.id = .absent)
    (jobs : ∀ row ∈ rows, row.active = true ∧ ∃ other ∈ returned, other.jobId = row.jobId) :
    WriterSound (executions.insert (.writer id) ExecutionRow.id rows) id
      ⟨call, [], returned, some rows⟩ := by
  have other : ∀ execution entry, (executions.rows execution).pending = some (.writer id, entry) →
      (executions.insert (.writer id) ExecutionRow.id rows).rows execution =
        executions.rows execution := by
    intro execution entry pending
    refine VersionedTable.insert_rows_of_notMem fun new => ?_
    obtain ⟨row, member, rfl⟩ := List.mem_map.mp new
    rw [fresh row member] at pending
    cases pending
  refine ⟨fun execution member => absurd member List.not_mem_nil, fun execution entry pending => ?_,
    fun entry member => ?_, fun entry member => ?_⟩
  · obtain ⟨row, member, rfl, inserted⟩ | ⟨_, same⟩ :=
      VersionedTable.insert_pending_cases executions (.writer id) distinct execution
    · rw [inserted] at pending
      cases pending
      refine .inr ⟨?_, member⟩
      rw [VersionedTable.insert_committed, fresh entry member]
      rfl
    · rw [same] at pending ⊢
      rcases sound.changed execution entry pending with ⟨replaces, known⟩ | ⟨_, impossible⟩
      · exact .inl ⟨replaces.of_rows same, known⟩
      · cases impossible
  · obtain ⟨execution, replaces⟩ := sound.returned entry member
    exact ⟨execution, replaces.of_rows (other execution entry replaces.1)⟩
  · obtain ⟨active, failed⟩ := jobs entry member
    exact ⟨active, ⟨entry.id, VersionedTable.insert_pending_of_mem distinct member⟩, failed⟩

end WriterSound

namespace RaceInvariant

theorem visit (inv : RaceInvariant race state) {id : Nat} {execution : ExecutionId}
    (done : race.step state (.visit id execution) = some after) : RaceInvariant race after := by
  simp only [CancelRace.step] at done
  split at done
  · cases done
  · rename_i writer found
    split at done
    · rename_i member
      obtain ⟨⟨executions, result⟩, visited, rfl⟩ := Option.map_eq_some_iff.mp done
      have sound := inv.writers id writer found
      obtain ⟨free, ⟨rfl, rfl, _⟩ | ⟨old, row, seen, changed, rfl, rfl⟩⟩ :=
        VersionedTable.visit_cases visited
      · refine inv.advance inv.executions ⟨fun other remains => ?_, ?_, ?_, ?_⟩
          (fun tx _ => .refl tx _) fun _ => rfl
        · exact sound.targets other (List.mem_filter.mp remains).1
        · simpa using sound.changed
        · simpa using sound.returned
        · simpa using sound.inserted
      · have nothing := sound.pending_of_unlocked member free
        have unlocked : ∀ tx row, (state.executions.rows execution).pending ≠ some (tx, row) := by
          simp [nothing]
        rw [Versions.visible_of_other (unlocked _)] at seen
        obtain ⟨active, sameId, sameJob⟩ := WriterCall.update_spec changed
        have own := (inv.executions.keyed _ _ seen).symm.trans sameId.symm
        subst own
        exact inv.advance (inv.executions.write _ (by rw [seen]; exact Option.some_ne_none old))
          (sound.write nothing seen active sameJob) (fun tx different => .write different (unlocked tx))
          fun _ => VersionedTable.write_committed
    · cases done

theorem insert (inv : RaceInvariant race state) {id : Nat} {now : Time}
    (done : race.step state (.insert id now) = some after) : RaceInvariant race after := by
  simp only [CancelRace.step] at done
  split at done
  · rename_i call returned found
    cases done
    have issued : (List.range' state.nextUuid (call.newExecutions returned).length).Nodup :=
      List.nodup_range'
    have distinct := newExecutionRows_distinct race.store now issued (call.newExecutions returned)
    have numbered : ∀ row ∈ newExecutionRows race.store now
        (List.range' state.nextUuid (call.newExecutions returned).length)
        (call.newExecutions returned),
        state.nextUuid ≤ row.id ∧
          row.id < state.nextUuid + (call.newExecutions returned).length := fun row member =>
      List.mem_range'_1.mp (mem_newExecutionRows member).2.1
    have fresh := fun row member => inv.executions.absent (numbered row member).1
    refine inv.advance (inv.executions.insert _ distinct numbered)
      ((inv.writers id _ found).insert distinct fresh fun row member => ?_)
      (fun tx different => .insert different distinct fun row member entry => ?_)
      fun _ => VersionedTable.insert_committed ..
    · obtain ⟨active, _, new, listed, same⟩ := mem_newExecutionRows member
      obtain ⟨other, known, sameJob⟩ := WriterCall.mem_newExecutions listed
      exact ⟨active, other, known, sameJob.trans same⟩
    · rw [fresh row member]
      rintro ⟨⟩
  · cases done

/-- A transaction ends, and the others keep what they have. -/
theorem close (inv : RaceInvariant race state) {id : Nat} {executions : ExecutionVersions}
    {finished : List JobId} (versions : VersionsSound race executions state.nextUuid)
    (released : ∀ execution row, (executions.rows execution).pending ≠ some (.writer id, row))
    (keeps : ∀ tx, Tx.writer id ≠ tx → Keeps tx state.executions executions)
    (phase : PhaseSound race { state with
      executions := executions
      writers := Function.update state.writers id none
      finished := finished }) :
    RaceInvariant race { state with
      executions := executions
      writers := Function.update state.writers id none
      finished := finished } where
  executions := versions
  owned other execution row pending := by
    by_cases same : other = id
    · subst same
      exact absurd pending (released execution row)
    · obtain ⟨known, found⟩ := inv.owned other execution row
        (((keeps _ (writer_ne same)).pending execution row).mp pending)
      exact ⟨known, (Function.update_of_ne same ..).trans found⟩
  writers other known found := by
    obtain ⟨_, value⟩ | ⟨different, old⟩ := writers_update found
    · cases value
    · exact (inv.writers other known old).keeps (keeps _ (writer_ne different))
  phase := phase

theorem rollback (inv : RaceInvariant race state) {id : Nat}
    (done : race.step state (.rollback id) = some after) : RaceInvariant race after := by
  simp only [CancelRace.step] at done
  split at done
  · cases done
  · cases done
    refine inv.close (inv.executions.rollback _) (fun execution row pending => ?_)
      (fun tx different => .rollback different _) ?_
    · exact (Versions.close_pending_iff.mp pending).2 rfl
    · exact inv.phase.keeps (.rollback (by rintro ⟨⟩) _) fun _ => Versions.rollback_committed ..

end RaceInvariant

/-- A writer commits a new execution of a job before the second update has
visited the execution that the writer failed. -/
def RaceState.overtakes (state : RaceState) (id : Nat) : Bool :=
  match state.phase, state.writers id with
  | .updating true targets, some writer => targets.any fun execution =>
      match (state.executions.rows execution).pending with
      | some (owner, row) => owner == .writer id &&
          (writer.inserted.getD []).any fun new => new.jobId == row.jobId
      | none => false
  | _, _ => false

/-- No retry is committed while the second update still has to visit the failed
execution. -/
def RaceState.notOvertaken (state : RaceState) : RaceAction → Prop
  | .commit id => state.overtakes id = false
  | _ => True

instance (state : RaceState) (action : RaceAction) : Decidable (state.notOvertaken action) := by
  cases action <;> unfold RaceState.notOvertaken <;> infer_instance

section Commit

variable {id : Nat} {call : WriterCall} {returned inserted : List ExecutionRow}

/-- A job with an active execution keeps one, or is finished by the writer. -/
theorem WriterSound.active_after
    (sound : WriterSound state.executions id ⟨call, [], returned, some inserted⟩) {job : JobId}
    (active : ActiveIn state.executions job) :
    job ∈ Writer.finished ⟨call, [], returned, some inserted⟩ ∨
      ActiveIn (state.executions.commit (.writer id)) job := by
  obtain ⟨execution, old, committed, active, rfl⟩ := active
  obtain ⟨row, own, closed⟩ | ⟨_, same⟩ :=
    (state.executions.rows execution).commit_cases (.writer id)
  · rcases sound.changed execution row own with ⟨⟨_, other, present, _, sameJob⟩, known⟩ | ⟨absent, _⟩
    · rw [committed] at present
      cases present
      rw [sameJob]
      cases isActive : row.active with
      | true => exact .inr ⟨execution, row, by simp [VersionedTable.commit, closed], isActive, rfl⟩
      | false =>
          by_cases added : ∃ new ∈ inserted, new.jobId = row.jobId
          · obtain ⟨new, member, sameNew⟩ := added
            obtain ⟨newActive, ⟨key, pending⟩, _⟩ := sound.inserted new member
            refine .inr ⟨key, new, ?_, newActive, sameNew⟩
            simp [VersionedTable.commit, Versions.commit, Versions.close_of_own pending]
          · refine .inl (List.mem_filter.mpr ⟨List.mem_map.mpr ⟨row, ?_, rfl⟩, ?_⟩)
            · exact List.mem_filter.mpr ⟨known, by simp [isActive]⟩
            · simpa using added
    · rw [committed] at absent
      cases absent
  · exact .inr ⟨execution, old, by simp [VersionedTable.commit, same, committed], active, rfl⟩

/-- An active execution that a commit adds is one of a job that the second
update found, and its job has one that is still to be visited. -/
theorem Covered.commit {targets : List ExecutionId}
    (covered : Covered race state.executions targets)
    (sound : WriterSound state.executions id ⟨call, [], returned, some inserted⟩)
    (behind : ∀ execution ∈ targets, ∀ row,
      (state.executions.rows execution).pending = some (.writer id, row) →
      ∀ new ∈ inserted, new.jobId ≠ row.jobId) :
    Covered race (state.executions.commit (.writer id)) targets := by
  -- What the writer replaced is not cancelled, so that it is still to be visited.
  have visited : ∀ execution row, Replaces state.executions (.writer id) execution row →
      row.jobId ∈ race.ids → execution ∈ targets := by
    rintro execution row ⟨pending, old, committed, active, same⟩ selected
    rcases covered execution old committed active (same ▸ selected) with member | ⟨new, own⟩
    · exact member
    · rw [pending] at own
      cases own
  intro execution row committed active selected
  change ((state.executions.rows execution).commit (.writer id)).committed = some row at committed
  obtain ⟨new, own, closed⟩ | ⟨other, same⟩ :=
    (state.executions.rows execution).commit_cases (.writer id)
  · rw [closed] at committed
    cases committed
    rcases sound.changed execution _ own with ⟨replaces, _⟩ | ⟨_, added⟩
    · exact .inl (visited execution _ replaces selected)
    · obtain ⟨_, _, failed, known, sameJob⟩ := sound.inserted _ added
      obtain ⟨key, replaces⟩ := sound.returned failed known
      have member := visited key failed replaces (sameJob ▸ selected)
      exact absurd sameJob.symm (behind key member failed replaces.1 _ added)
  · rw [same] at committed
    refine (covered execution row committed active selected).imp_right ?_
    rintro ⟨new, own⟩
    refine ⟨new, ?_⟩
    change ((state.executions.rows execution).commit (.writer id)).pending = _
    rw [same]
    exact own

theorem PhaseSound.commit (sound : PhaseSound race state) {writers : Nat → Option Writer}
    (writer : WriterSound state.executions id ⟨call, [], returned, some inserted⟩)
    (behind : ∀ targets, state.phase = .updating true targets → ∀ execution ∈ targets, ∀ row,
      (state.executions.rows execution).pending = some (.writer id, row) →
      ∀ new ∈ inserted, new.jobId ≠ row.jobId) :
    PhaseSound race { state with
      executions := state.executions.commit (.writer id)
      writers := writers
      finished := state.finished ++ Writer.finished ⟨call, [], returned, some inserted⟩ } := by
  have keeps : Keeps .cancel state.executions (state.executions.commit (.writer id)) :=
    .commit (by rintro ⟨⟩) _
  have wanted : Wanted race state → Wanted race { state with
      executions := state.executions.commit (.writer id)
      writers := writers
      finished := state.finished ++ Writer.finished ⟨call, [], returned, some inserted⟩ } := by
    intro wanted job member
    obtain ⟨selected, finished | active⟩ := wanted job member
    · exact ⟨selected, .inl (List.mem_append_left _ finished)⟩
    · exact ⟨selected, (writer.active_after active).imp_left (List.mem_append_right _)⟩
  unfold PhaseSound at sound ⊢
  dsimp only
  cases phase : state.phase with
  | waiting =>
      rw [phase] at sound
      exact sound.keeps keeps
  | begun =>
      rw [phase] at sound
      exact ⟨sound.1.keeps keeps, wanted sound.2⟩
  | updating repeated targets =>
      rw [phase] at sound
      cases repeated with
      | false => exact ⟨sound.1.keeps keeps, wanted sound.2⟩
      | true =>
          exact ⟨sound.1.keeps keeps, wanted sound.2.1,
            sound.2.2.commit writer (behind targets phase)⟩
  | committed =>
      rw [phase] at sound
      refine ⟨fun job selected active => ?_, fun job member => ?_, fun entry member => ?_⟩
      · exact sound.idle job selected (active.of_commit fun _ _ own _ => writer.activeIn own)
      · exact (sound.wanted job member).imp_right (Or.imp_left (List.mem_append_left _))
      · obtain ⟨row, committed, cancelled, sameJob⟩ := sound.returned entry member
        refine ⟨row, ?_, cancelled, sameJob⟩
        change ((state.executions.rows entry.lastExecutionId).commit (.writer id)).committed = _
        rw [Versions.commit, Versions.close_of_other, committed]
        intro new own
        -- A cancelled row is not replaced.
        rcases writer.changed _ new own with ⟨⟨_, old, present, active, _⟩, _⟩ | ⟨absent, _⟩
        · rw [committed] at present
          cases present
          rw [ExecutionRow.active_iff_status, cancelled] at active
          rcases active with impossible | impossible <;> cases impossible
        · rw [committed] at absent
          cases absent

end Commit

theorem RaceInvariant.commit (inv : RaceInvariant race state) {id : Nat}
    (behind : state.overtakes id = false)
    (done : race.step state (.commit id) = some after) : RaceInvariant race after := by
  simp only [CancelRace.step] at done
  split at done
  · rename_i call returned inserted found
    cases done
    have sound := inv.writers id _ found
    refine inv.close (inv.executions.commit fun _ _ own _ => sound.activeIn own)
      (fun execution row pending => (Versions.close_pending_iff.mp pending).2 rfl)
      (fun tx different => .commit different _) (inv.phase.commit sound ?_)
    intro targets phase execution member row own new added same
    simp only [RaceState.overtakes, phase, found, List.any_eq_false] at behind
    have missed := behind execution member
    rw [own] at missed
    simp only [beq_self_eq_true, Option.getD_some, Bool.true_and, List.any_eq_true, beq_iff_eq,
      not_exists, not_and] at missed
    exact missed new added same
  · cases done

end Ora.Postgres
