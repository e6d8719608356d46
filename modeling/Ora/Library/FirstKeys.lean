import Mathlib.Data.List.Nodup

/-!
# First entries by key

A list of entries is reduced to the first entry of each key, in order.  Keys
that are taken already are left out, so that the reduced list completes another
one without repeating a key.
-/

namespace Ora.Library

variable {κ ρ : Type} [DecidableEq κ] (key : ρ → κ)

/-- The entries whose key has not been seen before them, nor is in `seen`. -/
def firstKeys (seen : List κ) : List ρ → List ρ
  | [] => []
  | entry :: rest =>
      if key entry ∈ seen then
        firstKeys seen rest
      else
        entry :: firstKeys (key entry :: seen) rest

/-- The first entry of a key. -/
def findKey (entries : List ρ) (k : κ) : Option ρ :=
  entries.find? fun entry => decide (key entry = k)

variable {key} {seen : List κ} {entries : List ρ}

theorem firstKeys_sublist : List.Sublist (firstKeys key seen entries) entries := by
  induction entries generalizing seen with
  | nil => exact .slnil
  | cons entry rest ih =>
      unfold firstKeys
      split
      · exact ih.cons entry
      · exact ih.cons_cons entry

/-- No seen key is among the first ones. -/
theorem firstKeys_unseen {entry : ρ} (member : entry ∈ firstKeys key seen entries) :
    key entry ∉ seen := by
  induction entries generalizing seen with
  | nil => cases member
  | cons head rest ih =>
      unfold firstKeys at member
      split at member
      · exact ih member
      · rename_i unseen
        obtain rfl | later := List.mem_cons.mp member
        · exact unseen
        · exact fun known => ih later (List.mem_cons_of_mem _ known)

theorem firstKeys_nodup : ((firstKeys key seen entries).map key).Nodup := by
  induction entries generalizing seen with
  | nil => exact List.nodup_nil
  | cons entry rest ih =>
      unfold firstKeys
      split
      · exact ih
      · rw [List.map_cons, List.nodup_cons]
        refine ⟨fun repeated => ?_, ih⟩
        obtain ⟨other, member, same⟩ := List.mem_map.mp repeated
        exact firstKeys_unseen member (same ▸ List.mem_cons_self ..)

/-- An unseen key is found where it was found before. -/
theorem findKey_firstKeys {k : κ} (unseen : k ∉ seen) :
    findKey key (firstKeys key seen entries) k = findKey key entries k := by
  induction entries generalizing seen with
  | nil => rfl
  | cons entry rest ih =>
      by_cases same : key entry = k
      · subst same
        simp [firstKeys, findKey, unseen]
      · unfold firstKeys
        split
        · rw [ih unseen]
          simp [findKey, same]
        · have later : k ∉ key entry :: seen := by
            rw [List.mem_cons, not_or]
            exact ⟨fun equal => same equal.symm, unseen⟩
          have tail := ih later
          simp only [findKey] at tail ⊢
          simp [same, tail]

/-- An entry with a key of its own is found by it. -/
theorem findKey_of_mem (distinct : (entries.map key).Nodup) {entry : ρ} (member : entry ∈ entries) :
    findKey key entries (key entry) = some entry := by
  cases found : findKey key entries (key entry) with
  | none => simpa using List.find?_eq_none.mp found entry member
  | some other =>
      have same : key other = key entry := by simpa using List.find?_some found
      rw [List.inj_on_of_nodup_map distinct (List.mem_of_find?_eq_some found) member same]

/-- Entries with distinct keys are all first, but for those seen. -/
theorem firstKeys_of_nodup (distinct : (entries.map key).Nodup) :
    firstKeys key seen entries = entries.filter fun entry => decide (key entry ∉ seen) := by
  induction entries generalizing seen with
  | nil => rfl
  | cons entry rest ih =>
      rw [List.map_cons, List.nodup_cons] at distinct
      unfold firstKeys
      split
      · rename_i known
        rw [ih distinct.2]
        simp [known]
      · rename_i unseen
        have others : ∀ other ∈ rest, decide (key other ∉ key entry :: seen) =
            decide (key other ∉ seen) := by
          intro other member
          have different : key other ≠ key entry := fun same =>
            distinct.1 (same ▸ List.mem_map_of_mem member)
          simp [different]
        rw [ih distinct.2, List.filter_congr others]
        simp [unseen]

/-- Reducing a list again changes nothing. -/
theorem firstKeys_firstKeys :
    firstKeys key seen (firstKeys key seen entries) = firstKeys key seen entries := by
  rw [firstKeys_of_nodup firstKeys_nodup, List.filter_eq_self]
  exact fun entry member => decide_eq_true (firstKeys_unseen member)

/-- A list is completed without repeating its keys. -/
theorem nodup_append_firstKeys {own : List ρ} (distinct : (own.map key).Nodup) :
    ((own ++ firstKeys key (own.map key) entries).map key).Nodup := by
  rw [List.map_append, List.nodup_append]
  refine ⟨distinct, firstKeys_nodup, ?_⟩
  intro known old new inherited same
  obtain ⟨entry, member, rfl⟩ := List.mem_map.mp inherited
  exact firstKeys_unseen member (same ▸ old)

/-- A completed list lacks no key. -/
theorem firstKeys_append_firstKeys {own : List ρ} :
    firstKeys key ((own ++ firstKeys key (own.map key) entries).map key) entries = [] := by
  rw [List.eq_nil_iff_forall_not_mem]
  intro entry member
  have unseen := firstKeys_unseen member
  rw [List.map_append, List.mem_append, not_or] at unseen
  have first : findKey key (firstKeys key (own.map key) entries) (key entry) =
      findKey key entries (key entry) := findKey_firstKeys unseen.1
  cases found : findKey key entries (key entry) with
  | none =>
      have absent := List.find?_eq_none.mp found entry (firstKeys_sublist.subset member)
      simp at absent
  | some other =>
      rw [found] at first
      have same : key other = key entry := by simpa using List.find?_some first
      exact unseen.2 (same ▸ List.mem_map_of_mem (List.mem_of_find?_eq_some first))

end Ora.Library
