import Mathlib.Data.List.Nodup
import Mathlib.Data.Set.Finite.Basic
import Mathlib.Order.Lattice
import Mathlib.Order.Monotone.Basic

/-!
# Scanning a changing table by its keys

A scan reads batches of rows in the order of their keys, each batch after the
last row of the batch before, until a batch is empty.  Every batch is read from
a table of its own: rows appear and disappear on both sides of the cursor while
the scan is at it.
-/

namespace Ora.Library

variable {ρ κ : Type}

/-- `read k last` is what the `k`-th query returns after the row `last`. -/
structure KeysetScan (ρ κ : Type) [LinearOrder κ] where
  key : ρ → κ
  present : Nat → ρ → Prop
  read : Nat → Option ρ → List ρ
  sorted : ∀ k last, (read k last).Pairwise fun first second => key first < key second
  mem_present : ∀ k last, ∀ row ∈ read k last, present k row
  after : ∀ k last, ∀ row ∈ read k (some last), key last < key row
  /-- A row that is left out of a batch comes after the last row of the batch. -/
  left_out : ∀ k last row, present k row → (∀ previous ∈ last, key previous < key row) →
    row ∉ read k last → ∃ final ∈ (read k last).getLast?, key final < key row

namespace KeysetScan

variable [LinearOrder κ] (scan : KeysetScan ρ κ)

/-- The last row of the batch before. -/
def cursor : Nat → Option ρ
  | 0 => none
  | k + 1 => (scan.read k (cursor k)).getLast?

def batch (k : Nat) : List ρ := scan.read k (scan.cursor k)

/-- The first empty batch, with which the scan ends. -/
structure EndsAt (n : Nat) : Prop where
  empty : scan.batch n = []
  nonempty : ∀ k < n, scan.batch k ≠ []

/-- The rows of the first `n` batches. -/
def scanned (n : Nat) : List ρ := (List.range n).flatMap scan.batch

variable {scan}

theorem cursor_succ (k : Nat) : scan.cursor (k + 1) = (scan.batch k).getLast? := rfl

theorem EndsAt.unique {n m : Nat} (first : scan.EndsAt n) (second : scan.EndsAt m) : n = m := by
  rcases Nat.lt_trichotomy n m with earlier | same | later
  · exact absurd first.empty (second.nonempty n earlier)
  · exact same
  · exact absurd second.empty (first.nonempty m later)

theorem mem_scanned {n : Nat} {row : ρ} :
    row ∈ scan.scanned n ↔ ∃ k < n, row ∈ scan.batch k := by
  simp [scanned]

theorem scanned_succ (n : Nat) : scan.scanned (n + 1) = scan.scanned n ++ scan.batch n := by
  simp [scanned, List.range_succ]

theorem cursor_lt {k : Nat} {previous : ρ} (last : previous ∈ scan.cursor k) :
    ∀ row ∈ scan.batch k, scan.key previous < scan.key row := by
  intro row member
  rw [batch, Option.mem_def.mp last] at member
  exact scan.after k previous row member

/-- No row of a batch comes after its last one. -/
theorem le_getLast {k : Nat} {row final : ρ} (member : row ∈ scan.batch k)
    (last : final ∈ (scan.batch k).getLast?) : scan.key row ≤ scan.key final := by
  obtain ⟨front, split⟩ := List.getLast?_eq_some_iff.mp last
  have sorted := scan.sorted k (scan.cursor k)
  change (scan.batch k).Pairwise _ at sorted
  rw [split, List.pairwise_append] at sorted
  rw [split, List.mem_append, List.mem_singleton] at member
  rcases member with earlier | rfl
  · exact le_of_lt (sorted.2.2 row earlier final (List.mem_singleton_self final))
  · exact le_refl _

/-- The cursor of a scan that goes on advances. -/
theorem cursor_advances {k : Nat} {previous : ρ} (last : previous ∈ scan.cursor k)
    (nonempty : scan.batch k ≠ []) :
    ∃ final ∈ scan.cursor (k + 1), scan.key previous < scan.key final := by
  refine ⟨(scan.batch k).getLast nonempty, List.getLast?_eq_getLast_of_ne_nil nonempty, ?_⟩
  exact cursor_lt last _ (List.getLast_mem nonempty)

/-- All that was scanned is at or before the cursor. -/
theorem scanned_le {n : Nat} (nonempty : ∀ k < n, scan.batch k ≠ []) {row : ρ}
    (member : row ∈ scan.scanned n) :
    ∃ final ∈ scan.cursor n, scan.key row ≤ scan.key final := by
  induction n with
  | zero => cases member
  | succ n ih =>
      have continues := nonempty n (Nat.lt_succ_self n)
      rw [scanned_succ, List.mem_append] at member
      rcases member with earlier | now
      · obtain ⟨previous, last, below⟩ := ih (fun k before =>
          nonempty k (Nat.lt_succ_of_lt before)) earlier
        obtain ⟨final, next, above⟩ := cursor_advances last continues
        exact ⟨final, next, le_trans below (le_of_lt above)⟩
      · have last := List.getLast?_eq_getLast_of_ne_nil continues
        exact ⟨_, last, le_getLast now last⟩

/-- The rows are scanned in the order of their keys, across all batches. -/
theorem scanned_sorted {n : Nat} (nonempty : ∀ k < n, scan.batch k ≠ []) :
    (scan.scanned n).Pairwise fun first second => scan.key first < scan.key second := by
  induction n with
  | zero => exact .nil
  | succ n ih =>
      have before : ∀ k < n, scan.batch k ≠ [] := fun k lower =>
        nonempty k (Nat.lt_succ_of_lt lower)
      rw [scanned_succ, List.pairwise_append]
      refine ⟨ih before, scan.sorted n _, fun row earlier next member => ?_⟩
      obtain ⟨previous, last, below⟩ := scanned_le before earlier
      exact lt_of_le_of_lt below (cursor_lt last next member)

/-- A key that is present in every batch is scanned, or the cursor has not passed it. -/
theorem scanned_or_ahead {n : Nat} {key : κ}
    (present : ∀ k < n, ∃ row, scan.present k row ∧ scan.key row = key) :
    (∃ row ∈ scan.scanned n, scan.key row = key) ∨
      ∀ previous ∈ scan.cursor n, scan.key previous < key := by
  induction n with
  | zero => exact .inr fun previous last => by cases last
  | succ n ih =>
      obtain ⟨row, here, rfl⟩ := present n (Nat.lt_succ_self n)
      rcases ih fun k before => present k (Nat.lt_succ_of_lt before) with
        ⟨found, earlier, same⟩ | ahead
      · refine .inl ⟨found, ?_, same⟩
        rw [scanned_succ]
        exact List.mem_append_left _ earlier
      · by_cases member : row ∈ scan.batch n
        · refine .inl ⟨row, ?_, rfl⟩
          rw [scanned_succ]
          exact List.mem_append_right _ member
        · obtain ⟨final, last, below⟩ := scan.left_out n _ row here ahead member
          refine .inr fun previous next => ?_
          rw [cursor_succ] at next
          rw [Option.mem_unique next last]
          exact below

/-- A key that is present up to the empty batch is scanned. -/
theorem EndsAt.complete {n : Nat} (ended : scan.EndsAt n) {key : κ}
    (present : ∀ k ≤ n, ∃ row, scan.present k row ∧ scan.key row = key) :
    ∃ row ∈ scan.scanned n, scan.key row = key := by
  refine (scanned_or_ahead fun k before => present k (Nat.le_of_lt before)).resolve_right ?_
  intro ahead
  obtain ⟨row, here, rfl⟩ := present n (Nat.le_refl n)
  have absent : row ∉ scan.batch n := by simp [ended.empty]
  obtain ⟨final, last, _⟩ := scan.left_out n _ row here ahead absent
  change final ∈ (scan.batch n).getLast? at last
  rw [ended.empty] at last
  cases last

/-- The cursor can not advance forever in finitely many keys. -/
theorem exists_endsAt (finite : {key | ∃ k row, scan.present k row ∧ scan.key row = key}.Finite) :
    ∃ n, scan.EndsAt n := by
  classical
  by_cases ends : ∃ n, scan.batch n = []
  · exact ⟨Nat.find ends, Nat.find_spec ends, fun k before => Nat.find_min ends before⟩
  · have continues : ∀ k, scan.batch k ≠ [] := fun k empty => ends ⟨k, empty⟩
    let last (k : Nat) : κ := scan.key ((scan.batch k).getLast (continues k))
    have advances : StrictMono last := strictMono_nat_of_lt_succ fun k =>
      cursor_lt (List.getLast?_eq_getLast_of_ne_nil (continues k)) _ (List.getLast_mem _)
    have present : ∀ k, last k ∈ {key | ∃ k row, scan.present k row ∧ scan.key row = key} :=
      fun k => ⟨k, _, scan.mem_present k _ _ (List.getLast_mem (continues k)), rfl⟩
    exact absurd finite (Set.infinite_of_injective_forall_mem advances.injective present)

end KeysetScan

end Ora.Library
