import Ora.Library.KeysetScan
import Ora.Postgres.ActiveExecution
import Ora.Postgres.Evolution
import Ora.Postgres.Fetch
import Ora.Postgres.Persistence
import Mathlib.Data.Finite.Prod
import Mathlib.Data.Int.Interval
import Mathlib.Data.Prod.Lex

/-!
# The stream of ready executions

`ready_executions` reads every batch in a transaction of its own, the store
changes between them.  The negated priority and the identifier of the last
execution are the cursor: `(-priority, id)` advances with every batch, and
there are only finitely many of them.
-/

namespace Ora.Postgres

open Ora.Backend
open Ora.Library

namespace PostgresBackend

/-- The database when a batch is read: identifiers have 128 bits and priorities
are of the type `INTEGER`. -/
structure Snapshot where
  store : Store
  now : Time
  issued : Issued store
  uuids : store.nextUuid ≤ Nat.pow 2 128
  priorities : ∀ row ∈ store.executions.rows,
    -Nat.pow 2 31 ≤ row.priority ∧ row.priority < Nat.pow 2 31

/-- Transactions commit between two batches, and the clock moves forward. -/
structure Snapshot.Later (before after : Snapshot) : Prop where
  transactions : Reaches Operation.apply (fun _ _ => True) before.store after.store
  clock : before.now ≤ after.now

/-- The row value that is compared with the last one. -/
def readyKey (execution : ReadyExecution) : Int ×ₗ ExecutionId :=
  toLex (-execution.priority, execution.executionId)

theorem readyKey_lt {first second : ReadyExecution} :
    readyKey first < readyKey second ↔ Precedes first second := by
  unfold readyKey Precedes
  rw [Prod.Lex.toLex_lt_toLex]
  simp only [Int.neg_lt_neg_iff, Int.neg_inj]

/-- An execution that does not fit into a batch comes after all of the batch. -/
theorem readyExecutions_left_out {store : Store} {now : Time} {ignored : List ExecutionId}
    {last : Option (Int × ExecutionId)} {execution : ReadyExecution}
    (ready : execution ∈ allReady store now ignored last)
    (absent : execution ∉ readyExecutions store now ignored last) :
    ∃ final ∈ (readyExecutions store now ignored last).getLast?, Precedes final execution := by
  have sorted := @allReady_precede store now ignored last
  rw [readyExecutions_eq_take] at absent ⊢
  rw [← List.take_append_drop batchLimit (allReady store now ignored last)] at ready sorted
  have dropped := (List.mem_append.mp ready).resolve_left absent
  have nonempty : (allReady store now ignored last).take batchLimit ≠ [] := by
    intro empty
    rcases List.take_eq_nil_iff.mp empty with zero | none
    · cases zero
    · rw [none, List.drop_nil] at dropped
      cases dropped
  refine ⟨_, List.getLast?_eq_getLast_of_ne_nil nonempty, ?_⟩
  exact (List.pairwise_append.mp sorted).2.2 _ (List.getLast_mem nonempty) _ dropped

/-- The stream over the snapshots of its batches. -/
def readyStream (ignored : List ExecutionId) (snapshots : Nat → Snapshot) :
    KeysetScan ReadyExecution (Int ×ₗ ExecutionId) where
  key := readyKey
  present k := Ready (snapshots k).store (snapshots k).now ignored
  read k last := readyExecutions (snapshots k).store (snapshots k).now ignored
    (last.map fun execution => (execution.priority, execution.executionId))
  sorted k last := readyExecutions_precede.imp readyKey_lt.mpr
  mem_present k last execution fetched := by
    rw [readyExecutions_eq_take] at fetched
    exact (mem_allReady.mp (List.mem_of_mem_take fetched)).1
  after k last execution fetched := by
    refine readyKey_lt.mpr ?_
    exact (readyExecutions_after fetched rfl).imp id fun ⟨same, later⟩ => ⟨same.symm, later⟩
  left_out k last execution ready ahead absent := by
    refine Exists.imp (fun final found => ⟨found.1, readyKey_lt.mpr found.2⟩)
      (readyExecutions_left_out (mem_allReady.mpr ⟨ready, ?_⟩) absent)
    rintro _ previous
    obtain ⟨before, here, rfl⟩ := Option.mem_map.mp previous
    exact (readyKey_lt.mp (ahead before here)).imp id fun ⟨same, later⟩ => ⟨same.symm, later⟩

section Batches

variable {ignored : List ExecutionId} {snapshots : Nat → Snapshot}

/-- The executions of a batch are kept in the batches after it. -/
theorem later_kept (later : ∀ k, (snapshots k).Later (snapshots (k + 1))) {first k : Nat}
    (order : first ≤ k) : ExecutionsKept (snapshots first).store (snapshots k).store := by
  induction order with
  | refl => exact .refl _
  | step _ ih => exact ih.trans (.of_reaches (later _).transactions)

/-- The priority of an execution is the same in all batches. -/
theorem later_priority (later : ∀ k, (snapshots k).Later (snapshots (k + 1))) {first k : Nat}
    (order : first ≤ k) {row next : ExecutionRow}
    (here : row ∈ (snapshots first).store.executions.rows)
    (there : next ∈ (snapshots k).store.executions.rows) (same : next.id = row.id) :
    next.priority = row.priority := by
  obtain ⟨before, known, columns⟩ := (later_kept later order).rows next there
    (same ▸ (snapshots first).issued.executions row here)
  have found : before = row := Table.eq_of_key _ known here
    ((ExecutionRow.columns_id columns).trans same)
  rw [← found]
  exact (congrArg ExecutionRow.priority columns).symm

/-- A cursor is one of finitely many. -/
theorem readyKey_finite (ignored : List ExecutionId) (snapshots : Nat → Snapshot) :
    {key | ∃ k execution, Ready (snapshots k).store (snapshots k).now ignored execution ∧
      readyKey execution = key}.Finite := by
  have range : ((Set.Icc (-(Nat.pow 2 31 : Int)) (Nat.pow 2 31)) ×ˢ
      {id | id < Nat.pow 2 128}).Finite := (Set.finite_Icc _ _).prod (Set.finite_lt_nat _)
  refine (range.image toLex).subset ?_
  rintro _ ⟨k, execution, ⟨row, member, job, _, _, _, _, _, rfl⟩, rfl⟩
  refine ⟨(-row.priority, row.id), ⟨⟨?_, ?_⟩, ?_⟩, rfl⟩
  · exact Int.neg_le_neg (Int.le_of_lt ((snapshots k).priorities row member).2)
  · exact Int.neg_le_of_neg_le ((snapshots k).priorities row member).1
  · exact Nat.lt_of_lt_of_le ((snapshots k).issued.executions row member) (snapshots k).uuids

/-- An execution is not returned twice, its key is the same in all batches. -/
theorem scanned_once (later : ∀ k, (snapshots k).Later (snapshots (k + 1))) {n : Nat}
    (sorted : ((readyStream ignored snapshots).scanned n).Pairwise Precedes) :
    (((readyStream ignored snapshots).scanned n).map ReadyExecution.executionId).Nodup := by
  refine List.pairwise_map.mpr (sorted.imp_of_mem ?_)
  intro first second hfirst hsecond precedes same
  obtain ⟨j, _, fetched⟩ := KeysetScan.mem_scanned.mp hfirst
  obtain ⟨k, _, fetched'⟩ := KeysetScan.mem_scanned.mp hsecond
  obtain ⟨row, member, _, _, _, _, _, _, rfl⟩ :=
    (readyStream ignored snapshots).mem_present j _ first fetched
  obtain ⟨next, member', _, _, _, _, _, _, rfl⟩ :=
    (readyStream ignored snapshots).mem_present k _ second fetched'
  change row.id = next.id at same
  have equal : row.priority = next.priority := by
    rcases Nat.le_total j k with order | order
    · exact (later_priority later order member member' same.symm).symm
    · exact later_priority later order member' member same
  rcases precedes with lower | ⟨_, smaller⟩
  · exact absurd equal (Int.ne_of_gt lower)
  · exact absurd same (Nat.ne_of_lt smaller)

/-- Ready executions are streamed completely and in order, whatever commits
between the batches: `n` batches are returned, the next one is empty. -/
theorem readyExecutions_streamed (ignored : List ExecutionId) (snapshots : Nat → Snapshot)
    (later : ∀ k, (snapshots k).Later (snapshots (k + 1))) :
    ∃ n, (readyStream ignored snapshots).EndsAt n ∧
      ((readyStream ignored snapshots).scanned n).Pairwise Precedes ∧
      (((readyStream ignored snapshots).scanned n).map ReadyExecution.executionId).Nodup ∧
      (∀ k < n, ∀ execution ∈ (readyStream ignored snapshots).batch k,
        Ready (snapshots k).store (snapshots k).now ignored execution) ∧
      ∀ id, (∀ k ≤ n, ∃ row ∈ (snapshots k).store.executions.rows, row.id = id ∧
          row.status = .pending ∧ row.targetExecutionTime ≤ (snapshots k).now ∧ id ∉ ignored) →
        ∃ execution ∈ (readyStream ignored snapshots).scanned n, execution.executionId = id := by
  obtain ⟨n, ended⟩ : ∃ n, (readyStream ignored snapshots).EndsAt n :=
    KeysetScan.exists_endsAt (readyKey_finite ignored snapshots)
  have sorted : ((readyStream ignored snapshots).scanned n).Pairwise Precedes :=
    (KeysetScan.scanned_sorted ended.nonempty).imp readyKey_lt.mp
  refine ⟨n, ended, sorted, scanned_once later sorted, fun k _ execution fetched =>
    (readyStream ignored snapshots).mem_present k _ execution fetched, fun id ready => ?_⟩
  obtain ⟨start, known, rfl, _⟩ := ready 0 (Nat.zero_le n)
  -- the key of the execution is the one it has in the first batch
  have present : ∀ k ≤ n, ∃ execution,
      Ready (snapshots k).store (snapshots k).now ignored execution ∧
        readyKey execution = toLex (-start.priority, start.id) := by
    intro k before
    obtain ⟨row, member, same, pending, due, free⟩ := ready k before
    obtain ⟨job, stored, own⟩ := (snapshots k).store.execution_job row member
    refine ⟨readyExecution (snapshots k).store (row, job),
      ⟨row, member, job, stored, own, pending, due, same ▸ free, rfl⟩, ?_⟩
    have priority := later_priority later (Nat.zero_le k) known member same
    exact congrArg toLex (Prod.ext (congrArg Neg.neg priority) same)
  obtain ⟨execution, returned, key⟩ := ended.complete present
  exact ⟨execution, returned, congrArg (fun key => (ofLex key).2) key⟩

end Batches

/-- Two executions are ready. -/
def twoReady : Snapshot where
  store := (Operation.apply Store.empty
    (.addJobs 0 (fun _ => 0) [plainJob 0, plainJob 0] none)).getD Store.empty
  now := 1
  issued := ⟨by decide, by decide⟩
  uuids := by decide
  priorities := by decide

/-- The executions are cancelled later. -/
def bothCancelled : Snapshot where
  store := (Operation.apply twoReady.store (.cancelJobs 2 2 (fun _ => 0) {})).getD Store.empty
  now := 2
  issued := ⟨by decide, by decide⟩
  uuids := by decide
  priorities := by decide

theorem readyExecutions_streamed_cancelled : ∃ n,
    (readyStream [] fun k => if k = 0 then twoReady else bothCancelled).EndsAt n := by
  have later : ∀ k, Snapshot.Later (if k = 0 then twoReady else bothCancelled)
      (if k + 1 = 0 then twoReady else bothCancelled) := by
    intro k
    cases k with
    | zero => exact ⟨.single (.cancelJobs 2 2 (fun _ => 0) {}) trivial rfl, by decide⟩
    | succ k => exact ⟨.refl, Int.le_refl _⟩
  obtain ⟨n, ended, _⟩ := readyExecutions_streamed [] _ later
  exact ⟨n, ended⟩

end PostgresBackend

end Ora.Postgres
