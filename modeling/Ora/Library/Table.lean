import Mathlib.Data.List.Nodup
import Mathlib.Data.List.Sort

/-!
# Keyed tables

A table is a list of rows with a primary key.  The statements of a relational
store are maps, filters and appends on the rows; each of them keeps the key
unique, so that a table with a repeated key cannot be built.
-/

namespace Ora.Library

variable {κ ρ σ : Type}

/-- Rows whose keys are pairwise distinct. -/
structure Table (key : ρ → κ) where
  rows : List ρ
  unique : (rows.map key).Nodup

namespace Table

variable {key : ρ → κ}

def empty : Table key := ⟨[], List.nodup_nil⟩

@[simp] theorem empty_rows : (empty : Table key).rows = [] := rfl

@[ext] theorem ext {first second : Table key} (same : first.rows = second.rows) :
    first = second := by
  cases first
  cases second
  cases same
  rfl

/-- A row is determined by its key. -/
theorem eq_of_key (table : Table key) {first second : ρ} (hfirst : first ∈ table.rows)
    (hsecond : second ∈ table.rows) (same : key first = key second) : first = second :=
  List.inj_on_of_nodup_map table.unique hfirst hsecond same

/-- The row with the given key. -/
def find? [DecidableEq κ] (table : Table key) (k : κ) : Option ρ :=
  table.rows.find? fun row => decide (key row = k)

theorem find?_eq_some_iff [DecidableEq κ] (table : Table key) (k : κ) (row : ρ) :
    table.find? k = some row ↔ row ∈ table.rows ∧ key row = k := by
  constructor
  · intro found
    exact ⟨List.mem_of_find?_eq_some found, by simpa using List.find?_some found⟩
  · rintro ⟨member, rfl⟩
    cases found : table.find? (key row) with
    | none =>
        have absent := List.find?_eq_none.mp found row member
        simp at absent
    | some other =>
        have hother : key other = key row := by simpa using List.find?_some found
        rw [table.eq_of_key (List.mem_of_find?_eq_some found) member hother]

theorem find?_eq_none_iff [DecidableEq κ] (table : Table key) (k : κ) :
    table.find? k = none ↔ ∀ row ∈ table.rows, key row ≠ k := by
  simp [find?]

/-- Rows are found again by their keys. -/
theorem filterMap_find? [DecidableEq κ] (table : Table key) {rows : List ρ}
    (known : ∀ row ∈ rows, row ∈ table.rows) : (rows.map key).filterMap table.find? = rows := by
  induction rows with
  | nil => rfl
  | cons row rows ih =>
      have found := (table.find?_eq_some_iff (key row) row).mpr
        ⟨known row (List.mem_cons_self ..), rfl⟩
      rw [List.map_cons, List.filterMap_cons, found,
        ih fun other member => known other (List.mem_cons_of_mem _ member)]

/-- The rows with the key of a row are that row. -/
theorem filter_key [DecidableEq κ] (table : Table key) {row : ρ} (member : row ∈ table.rows) :
    (table.rows.filter fun other => key other == key row) = [row] := by
  have only : ∀ other ∈ table.rows.filter fun other => key other == key row, other = row := by
    intro other found
    obtain ⟨present, same⟩ := List.mem_filter.mp found
    exact table.eq_of_key present member (beq_iff_eq.mp same)
  have found : row ∈ table.rows.filter fun other => key other == key row :=
    List.mem_filter.mpr ⟨member, beq_self_eq_true _⟩
  have distinct := table.unique.of_map.filter fun other => key other == key row
  cases same : table.rows.filter fun other => key other == key row with
  | nil =>
      rw [same] at found
      cases found
  | cons head rest =>
      rw [same] at only distinct
      obtain rfl := only head (List.mem_cons_self ..)
      refine congrArg (head :: ·) (List.eq_nil_iff_forall_not_mem.mpr fun other later => ?_)
      obtain rfl := only other (List.mem_cons_of_mem _ later)
      exact (List.nodup_cons.mp distinct).1 later

/-- Joining rows with their table on the key finds them again. -/
theorem flatMap_filter_key [DecidableEq κ] (table : Table key) {rows : List ρ}
    (known : ∀ row ∈ rows, row ∈ table.rows) :
    rows.flatMap (fun row => table.rows.filter fun other => key other == key row) = rows := by
  induction rows with
  | nil => rfl
  | cons row rows ih =>
      rw [List.flatMap_cons, table.filter_key (known row (List.mem_cons_self ..)),
        ih fun other member => known other (List.mem_cons_of_mem _ member)]
      rfl

/-- Change every row without changing its key. -/
def modify (table : Table key) (change : ρ → ρ)
    (keeps : ∀ row, key (change row) = key row) : Table key where
  rows := table.rows.map change
  unique := by simpa [List.map_map, Function.comp_def, keeps] using table.unique

@[simp] theorem modify_rows (table : Table key) (change : ρ → ρ)
    (keeps : ∀ row, key (change row) = key row) :
    (table.modify change keeps).rows = table.rows.map change := rfl

theorem modify_find? [DecidableEq κ] (table : Table key) (change : ρ → ρ)
    (keeps : ∀ row, key (change row) = key row) (k : κ) :
    (table.modify change keeps).find? k = (table.find? k).map change := by
  simp only [find?, modify_rows, List.find?_map, Function.comp_def, keeps]

/-- The source row applied to a target row by an update with several matching
source rows: `pick` makes the arbitrary choice. -/
def chosen (source : List σ) (on : ρ → σ → Bool) (pick : Nat) (row : ρ) : Option σ :=
  let candidates := source.filter (on row)
  candidates[pick % candidates.length]?

theorem chosen_some {source : List σ} {on : ρ → σ → Bool} {pick : Nat} {row : ρ} {entry : σ}
    (found : chosen source on pick row = some entry) : entry ∈ source ∧ on row entry = true := by
  have member := List.mem_of_getElem? found
  simpa using List.mem_filter.mp member

theorem chosen_none_iff {source : List σ} {on : ρ → σ → Bool} {pick : Nat} {row : ρ} :
    chosen source on pick row = none ↔ ∀ entry ∈ source, on row entry = false := by
  unfold chosen
  rw [List.getElem?_eq_none_iff]
  constructor
  · intro bound entry member
    by_contra matching
    have positive : 0 < (source.filter (on row)).length :=
      List.length_pos_of_mem (List.mem_filter.mpr ⟨member, by simpa using matching⟩)
    have := Nat.mod_lt pick positive
    omega
  · intro unmatched
    have nothing : source.filter (on row) = [] := by
      simpa [List.filter_eq_nil_iff] using unmatched
    simp [nothing]

/-- The row after an update, unchanged when no source row matches. -/
def replaced (source : List σ) (on : ρ → σ → Bool) (set : ρ → σ → ρ) (pick : ρ → Nat)
    (row : ρ) : ρ :=
  match chosen source on (pick row) row with
  | none => row
  | some entry => set row entry

/-- The updated row and the source row applied to it, if any. -/
def returned (source : List σ) (on : ρ → σ → Bool) (set : ρ → σ → ρ) (pick : ρ → Nat)
    (row : ρ) : Option (ρ × σ) :=
  (chosen source on (pick row) row).map fun entry => (set row entry, entry)

theorem replaced_cases (source : List σ) (on : ρ → σ → Bool) (set : ρ → σ → ρ)
    (pick : ρ → Nat) (row : ρ) :
    ((∀ entry ∈ source, on row entry = false) ∧ replaced source on set pick row = row ∧
      returned source on set pick row = none) ∨
    ∃ entry ∈ source, on row entry = true ∧ replaced source on set pick row = set row entry ∧
      returned source on set pick row = some (set row entry, entry) := by
  unfold replaced returned
  cases found : chosen source on (pick row) row with
  | none => exact .inl ⟨chosen_none_iff.mp found, rfl, rfl⟩
  | some entry =>
      obtain ⟨member, matching⟩ := chosen_some found
      exact .inr ⟨entry, member, matching, rfl, rfl⟩

theorem replaced_key (key : ρ → κ) (source : List σ) (on : ρ → σ → Bool) (set : ρ → σ → ρ) (pick : ρ → Nat)
    (keeps : ∀ row entry, key (set row entry) = key row) (row : ρ) :
    key (replaced source on set pick row) = key row := by
  unfold replaced
  cases chosen source on (pick row) row with
  | none => rfl
  | some entry => exact keeps row entry

/-- The returned rows are among those of the table, in the same order. -/
theorem returned_sublist (key : ρ → κ) (source : List σ) (on : ρ → σ → Bool) (set : ρ → σ → ρ)
    (pick : ρ → Nat) (keeps : ∀ row entry, key (set row entry) = key row) (rows : List ρ) :
    ((rows.filterMap (returned source on set pick)).map fun result => key result.1).Sublist
      (rows.map key) := by
  induction rows with
  | nil => exact .slnil
  | cons row rest ih =>
      obtain ⟨_, _, unmatched⟩ | ⟨entry, _, _, _, result⟩ :=
        replaced_cases source on set pick row
      · rw [List.filterMap_cons_none unmatched]
        exact ih.cons _
      · rw [List.filterMap_cons_some result, List.map_cons, List.map_cons, keeps]
        exact ih.cons_cons _

/-- Append rows, refused when a key would be repeated. -/
def insert? [DecidableEq κ] (table : Table key) (new : List ρ) : Option (Table key) :=
  if distinct : ((table.rows ++ new).map key).Nodup then
    some ⟨table.rows ++ new, distinct⟩
  else
    none

theorem insert?_eq_some_iff [DecidableEq κ] {table after : Table key} {new : List ρ} :
    table.insert? new = some after ↔ after.rows = table.rows ++ new := by
  unfold insert?
  split
  · rename_i distinct
    constructor
    · intro same
      rw [← Option.some.inj same]
    · intro same
      rw [Option.some.injEq]
      exact Table.ext same.symm
  · rename_i repeated
    constructor
    · intro impossible
      cases impossible
    · intro same
      exact absurd (same ▸ after.unique) repeated

theorem insert?_find? [DecidableEq κ] {table after : Table key} {row : ρ}
    (inserted : table.insert? [row] = some after) (k : κ) :
    after.find? k = (table.find? k).or (if key row = k then some row else none) := by
  rw [find?, insert?_eq_some_iff.mp inserted, List.find?_append, List.find?_singleton]
  simp only [decide_eq_true_eq]
  rfl

theorem insert?_eq_none_iff [DecidableEq κ] {table : Table key} {row : ρ} :
    table.insert? [row] = none ↔ ∃ other, table.find? (key row) = some other := by
  have keys : (table.rows ++ [row]).map key = table.rows.map key ++ [key row] := by simp
  unfold insert?
  split
  · rename_i distinct
    rw [keys] at distinct
    refine iff_of_false (by simp) ?_
    rintro ⟨other, found⟩
    obtain ⟨member, same⟩ := (table.find?_eq_some_iff _ _).mp found
    obtain ⟨_, _, disjoint⟩ := List.nodup_append.mp distinct
    exact disjoint _ (List.mem_map_of_mem member) _ (List.mem_singleton.mpr rfl) same
  · rename_i repeated
    rw [keys] at repeated
    refine iff_of_true rfl (Option.ne_none_iff_exists'.mp fun found => repeated ?_)
    have absent := (table.find?_eq_none_iff _).mp found
    refine List.nodup_append.mpr ⟨table.unique, List.nodup_singleton _, ?_⟩
    intro other member last only
    obtain ⟨earlier, present, rfl⟩ := List.mem_map.mp member
    rw [List.mem_singleton.mp only]
    exact absent earlier present

def delete (table : Table key) (doomed : ρ → Bool) : Table key where
  rows := table.rows.filter fun row => !doomed row
  unique := table.unique.sublist (List.filter_sublist.map key)

@[simp] theorem delete_rows (table : Table key) (doomed : ρ → Bool) :
    (table.delete doomed).rows = table.rows.filter fun row => !doomed row := rfl

end Table

end Ora.Library
