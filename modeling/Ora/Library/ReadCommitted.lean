import Mathlib.Data.List.Basic
import Mathlib.Logic.Function.Basic

/-!
# Row locks under READ COMMITTED

A row has the version that was committed last and, while a transaction that
changed it is open, the version of that transaction, which holds the lock of
the row.  An update takes its targets from the versions that are visible when
the statement starts and visits them one by one: it waits for the lock, and
then tests its condition on the newest version of that row only.
-/

namespace Ora.Library

variable {κ τ ρ : Type}

/-- The versions of a row, `pending` names the transaction that holds its lock. -/
structure Versions (τ ρ : Type) where
  committed : Option ρ
  pending : Option (τ × ρ)

namespace Versions

variable [DecidableEq τ]

def absent : Versions τ ρ := ⟨none, none⟩

/-- The version that a statement of the transaction sees. -/
def visible (tx : τ) (versions : Versions τ ρ) : Option ρ :=
  match versions.pending with
  | some (owner, row) => if owner = tx then some row else versions.committed
  | none => versions.committed

/-- Another transaction holds the lock. -/
def lockedFor (tx : τ) (versions : Versions τ ρ) : Bool :=
  match versions.pending with
  | some (owner, _) => !decide (owner = tx)
  | none => false

/-- The transaction ends and leaves `final` of its own version. -/
def close (tx : τ) (final : Option ρ → ρ → Option ρ) (versions : Versions τ ρ) : Versions τ ρ :=
  match versions.pending with
  | some (owner, row) => if owner = tx then ⟨final versions.committed row, none⟩ else versions
  | none => versions

def commit (tx : τ) : Versions τ ρ → Versions τ ρ :=
  close tx fun _ row => some row

def rollback (tx : τ) : Versions τ ρ → Versions τ ρ :=
  close tx fun committed _ => committed

variable {tx owner : τ} {row : ρ} {versions : Versions τ ρ} {final : Option ρ → ρ → Option ρ}

theorem close_pending_iff : (versions.close tx final).pending = some (owner, row) ↔
    versions.pending = some (owner, row) ∧ owner ≠ tx := by
  unfold close
  cases pending : versions.pending with
  | none => simp [pending]
  | some entry =>
      dsimp only
      split
      · rename_i own
        simp only [reduceCtorEq, Option.some.injEq, false_iff, not_and, not_not]
        rintro rfl
        exact own
      · rename_i other
        rw [pending]
        constructor
        · rintro same
          cases same
          exact ⟨rfl, other⟩
        · exact And.left

theorem close_of_other (other : ∀ row, versions.pending ≠ some (tx, row)) :
    versions.close tx final = versions := by
  unfold close
  cases pending : versions.pending with
  | none => rfl
  | some entry =>
      dsimp only
      split
      · rename_i own
        exact absurd (by rw [pending, ← own]) (other entry.2)
      · rfl

theorem close_of_own (own : versions.pending = some (tx, row)) :
    versions.close tx final = ⟨final versions.committed row, none⟩ := by
  simp [close, own]

/-- The committed version after a transaction is its own one, or the one before. -/
theorem commit_cases (tx : τ) (versions : Versions τ ρ) :
    (∃ row, versions.pending = some (tx, row) ∧ versions.commit tx = ⟨some row, none⟩) ∨
    ((∀ row, versions.pending ≠ some (tx, row)) ∧ versions.commit tx = versions) := by
  by_cases own : ∃ row, versions.pending = some (tx, row)
  · obtain ⟨row, own⟩ := own
    exact .inl ⟨row, own, close_of_own own⟩
  · have other := not_exists.mp own
    exact .inr ⟨other, close_of_other other⟩

theorem rollback_committed (tx : τ) (versions : Versions τ ρ) :
    (versions.rollback tx).committed = versions.committed := by
  by_cases own : ∃ row, versions.pending = some (tx, row)
  · obtain ⟨row, own⟩ := own
    rw [rollback, close_of_own own]
  · rw [rollback, close_of_other (not_exists.mp own)]

theorem visible_of_own (own : versions.pending = some (tx, row)) :
    versions.visible tx = some row := by
  simp [visible, own]

theorem visible_of_other (other : ∀ row, versions.pending ≠ some (tx, row)) :
    versions.visible tx = versions.committed := by
  unfold visible
  cases pending : versions.pending with
  | none => rfl
  | some entry =>
      dsimp only
      split
      · rename_i own
        exact absurd (by rw [pending, ← own]) (other entry.2)
      · rfl

/-- A row that is not locked has no version of an open transaction or an own one. -/
theorem pending_of_unlocked (free : versions.lockedFor tx = false) :
    versions.pending = none ∨ ∃ row, versions.pending = some (tx, row) := by
  unfold lockedFor at free
  cases pending : versions.pending with
  | none => exact .inl rfl
  | some entry =>
      rw [pending] at free
      simp only [Bool.not_eq_false', decide_eq_true_eq] at free
      exact .inr ⟨entry.2, by rw [← free]⟩

end Versions

/-- Rows with their versions, `keys` are those that were ever inserted. -/
structure VersionedTable (κ τ ρ : Type) where
  keys : List κ
  rows : κ → Versions τ ρ

namespace VersionedTable

/-- The rows that an update finds when the statement starts. -/
def targets [DecidableEq τ] (table : VersionedTable κ τ ρ) (tx : τ) (update : ρ → Option ρ) :
    List κ :=
  table.keys.filter fun key => ((table.rows key).visible tx).any fun row => (update row).isSome

def write [DecidableEq κ] (table : VersionedTable κ τ ρ) (tx : τ) (key : κ) (row : ρ) :
    VersionedTable κ τ ρ :=
  { table with
    rows := Function.update table.rows key ⟨(table.rows key).committed, some (tx, row)⟩ }

/-- An update visits one of its targets, `none` while the row is locked. -/
def visit [DecidableEq κ] [DecidableEq τ] (table : VersionedTable κ τ ρ) (tx : τ)
    (update : ρ → Option ρ) (key : κ) : Option (VersionedTable κ τ ρ × Option ρ) :=
  if (table.rows key).lockedFor tx then
    none
  else
    match ((table.rows key).visible tx).bind update with
    | some row => some (table.write tx key row, some row)
    | none => some (table, none)

/-- Insert rows under new keys. -/
def insert [DecidableEq κ] (table : VersionedTable κ τ ρ) (tx : τ) (key : ρ → κ) :
    List ρ → VersionedTable κ τ ρ
  | [] => table
  | row :: rest =>
      insert { keys := table.keys ++ [key row], rows := (table.write tx (key row) row).rows } tx key
        rest

def commit [DecidableEq τ] (table : VersionedTable κ τ ρ) (tx : τ) : VersionedTable κ τ ρ :=
  { table with rows := fun key => (table.rows key).commit tx }

def rollback [DecidableEq τ] (table : VersionedTable κ τ ρ) (tx : τ) : VersionedTable κ τ ρ :=
  { table with rows := fun key => (table.rows key).rollback tx }

variable {table after : VersionedTable κ τ ρ} {tx owner : τ} {update : ρ → Option ρ} {key other : κ}
  {row : ρ} {result : Option ρ}

/-- What a visit does: it skips a row that does not match any more, or changes it. -/
theorem visit_cases [DecidableEq κ] [DecidableEq τ]
    (done : table.visit tx update key = some (after, result)) :
    (table.rows key).lockedFor tx = false ∧
    ((result = none ∧ after = table ∧
        ∀ old, (table.rows key).visible tx = some old → update old = none) ∨
      ∃ old row, (table.rows key).visible tx = some old ∧ update old = some row ∧
        result = some row ∧ after = table.write tx key row) := by
  unfold visit at done
  split at done
  · cases done
  · rename_i free
    refine ⟨by simpa using free, ?_⟩
    cases found : ((table.rows key).visible tx).bind update with
    | none =>
        rw [found] at done
        cases done
        refine .inl ⟨rfl, rfl, fun old seen => ?_⟩
        rwa [seen, Option.bind_some] at found
    | some row =>
        rw [found] at done
        cases done
        obtain ⟨old, seen, changed⟩ := Option.bind_eq_some_iff.mp found
        exact .inr ⟨old, row, seen, changed, rfl, rfl⟩

theorem mem_targets_iff [DecidableEq τ] : key ∈ table.targets tx update ↔
    key ∈ table.keys ∧ ∃ old, (table.rows key).visible tx = some old ∧ (update old).isSome := by
  simp [targets, Option.any_eq_true]

/-- Nothing that a transaction changed is touched, and no row is removed. -/
structure Keeps (tx : τ) (before after : VersionedTable κ τ ρ) : Prop where
  pending : ∀ key row, (after.rows key).pending = some (tx, row) ↔
    (before.rows key).pending = some (tx, row)
  committed : ∀ key row, (before.rows key).pending = some (tx, row) →
    (after.rows key).committed = (before.rows key).committed
  stored : ∀ key, (before.rows key).committed ≠ none → (after.rows key).committed ≠ none

namespace Keeps

theorem refl (tx : τ) (table : VersionedTable κ τ ρ) : Keeps tx table table :=
  ⟨fun _ _ => .rfl, fun _ _ _ => rfl, fun _ stored => stored⟩

theorem commit [DecidableEq τ] (different : owner ≠ tx) (table : VersionedTable κ τ ρ) :
    Keeps tx table (table.commit owner) where
  pending key row := by
    change ((table.rows key).commit owner).pending = _ ↔ _
    rw [Versions.commit, Versions.close_pending_iff, and_iff_left different.symm]
  committed key row own := by
    change ((table.rows key).commit owner).committed = _
    rw [Versions.commit, Versions.close_of_other]
    intro entry other
    rw [own] at other
    cases other
    exact different rfl
  stored key stored := by
    change ((table.rows key).commit owner).committed ≠ none
    obtain ⟨row, _, closed⟩ | ⟨_, same⟩ := (table.rows key).commit_cases owner
    · rw [closed]
      exact Option.some_ne_none row
    · rwa [same]

theorem rollback [DecidableEq τ] (different : owner ≠ tx) (table : VersionedTable κ τ ρ) :
    Keeps tx table (table.rollback owner) where
  pending key row := by
    change ((table.rows key).rollback owner).pending = _ ↔ _
    rw [Versions.rollback, Versions.close_pending_iff, and_iff_left different.symm]
  committed key row own := (table.rows key).rollback_committed owner
  stored key stored := by
    change ((table.rows key).rollback owner).committed ≠ none
    rwa [Versions.rollback_committed]

end Keeps

variable [DecidableEq κ]

@[simp] theorem write_keys : (table.write tx key row).keys = table.keys := rfl

@[simp] theorem write_committed :
    ((table.write tx key row).rows other).committed = (table.rows other).committed := by
  unfold write
  by_cases same : other = key
  · subst same
    simp
  · simp [Function.update_of_ne same]

@[simp] theorem write_pending_self :
    ((table.write tx key row).rows key).pending = some (tx, row) := by
  simp [write]

theorem write_rows_of_ne (different : other ≠ key) :
    (table.write tx key row).rows other = table.rows other :=
  Function.update_of_ne different ..

/-- Another transaction changes a row that the first one did not change. -/
theorem Keeps.write (different : owner ≠ tx)
    (free : ∀ row, (table.rows key).pending ≠ some (tx, row)) :
    Keeps tx table (table.write owner key row) where
  pending other entry := by
    by_cases same : other = key
    · subst same
      rw [write_pending_self]
      constructor
      · intro own
        cases own
        exact absurd rfl different
      · intro own
        exact absurd own (free entry)
    · rw [write_rows_of_ne same]
  committed other entry own := write_committed
  stored other stored := by rwa [write_committed]

@[simp] theorem insert_keys (table : VersionedTable κ τ ρ) (tx : τ) (key : ρ → κ) (rows : List ρ) :
    (table.insert tx key rows).keys = table.keys ++ rows.map key := by
  induction rows generalizing table with
  | nil => simp [insert]
  | cons row rest ih => simp [insert, ih]

@[simp] theorem insert_committed (table : VersionedTable κ τ ρ) (tx : τ) (key : ρ → κ)
    (rows : List ρ) (other : κ) :
    ((table.insert tx key rows).rows other).committed = (table.rows other).committed := by
  induction rows generalizing table with
  | nil => rfl
  | cons row rest ih =>
      rw [insert, ih]
      exact write_committed

theorem insert_rows_of_notMem {key : ρ → κ} {rows : List ρ} (old : other ∉ rows.map key) :
    (table.insert tx key rows).rows other = table.rows other := by
  induction rows generalizing table with
  | nil => rfl
  | cons row rest ih =>
      rw [List.map_cons, List.mem_cons, not_or] at old
      rw [insert, ih old.2]
      exact write_rows_of_ne old.1

theorem insert_pending_of_mem {key : ρ → κ} {rows : List ρ} (distinct : (rows.map key).Nodup)
    (member : row ∈ rows) :
    ((table.insert tx key rows).rows (key row)).pending = some (tx, row) := by
  induction rows generalizing table with
  | nil => cases member
  | cons first rest ih =>
      rw [List.map_cons, List.nodup_cons] at distinct
      rw [insert]
      obtain rfl | later := List.mem_cons.mp member
      · rw [insert_rows_of_notMem distinct.1]
        exact write_pending_self
      · exact ih distinct.2 later

/-- A version of the transaction is inserted, or it was there before. -/
theorem insert_pending_cases (table : VersionedTable κ τ ρ) (tx : τ) {key : ρ → κ} {rows : List ρ}
    (distinct : (rows.map key).Nodup) (other : κ) :
    (∃ row ∈ rows, key row = other ∧
      ((table.insert tx key rows).rows other).pending = some (tx, row)) ∨
    (other ∉ rows.map key ∧ (table.insert tx key rows).rows other = table.rows other) := by
  by_cases new : other ∈ rows.map key
  · obtain ⟨row, member, rfl⟩ := List.mem_map.mp new
    exact .inl ⟨row, member, rfl, insert_pending_of_mem distinct member⟩
  · exact .inr ⟨new, insert_rows_of_notMem new⟩

theorem Keeps.insert {key : ρ → κ} {rows : List ρ} (different : owner ≠ tx)
    (distinct : (rows.map key).Nodup)
    (fresh : ∀ row ∈ rows, ∀ entry, (table.rows (key row)).pending ≠ some (tx, entry)) :
    Keeps tx table (table.insert owner key rows) where
  pending other entry := by
    obtain ⟨row, member, rfl, inserted⟩ | ⟨_, same⟩ :=
      insert_pending_cases table owner distinct other
    · rw [inserted]
      constructor
      · intro own
        cases own
        exact absurd rfl different
      · intro own
        exact absurd own (fresh row member entry)
    · rw [same]
  committed other entry _ := insert_committed ..
  stored other stored := by rwa [insert_committed]

end VersionedTable

end Ora.Library
