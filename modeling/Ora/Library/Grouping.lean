import Mathlib.Data.List.Nodup

/-!
# Grouping values by their keys

Pairs of a key and an optional value are collected in an association list with
one entry for each key, in the order in which the keys are first seen.  An entry
holds the values of its key without repetition, a key without values has an
empty entry.
-/

namespace Ora.Library

variable {κ ν : Type}

/-- The groups of the pairs: their keys, and the values of each key. -/
structure Grouped (pairs : List (κ × Option ν)) (groups : List (κ × List ν)) : Prop where
  distinct : (groups.map Prod.fst).Nodup
  keys : ∀ key, key ∈ groups.map Prod.fst ↔ ∃ value, (key, value) ∈ pairs
  values : ∀ group ∈ groups, ∀ value, value ∈ group.2 ↔ (group.1, some value) ∈ pairs

theorem Grouped.nil : Grouped ([] : List (κ × Option ν)) ([] : List (κ × List ν)) :=
  ⟨List.nodup_nil, by simp, by simp⟩

/-- The entries with other keys are those of the pairs before. -/
theorem Grouped.values_snoc {pairs : List (κ × Option ν)} {groups : List (κ × List ν)}
    (grouped : Grouped pairs groups) {key : κ} {new : Option ν} {group : κ × List ν}
    (member : group ∈ groups) (other : group.1 ≠ key) (value : ν) :
    value ∈ group.2 ↔ (group.1, some value) ∈ pairs ++ [(key, new)] := by
  rw [grouped.values group member, List.mem_append, List.mem_singleton]
  refine ⟨.inl, ?_⟩
  rintro (before | same)
  · exact before
  · exact absurd (congrArg Prod.fst same) other

variable [DecidableEq κ] [DecidableEq ν]

def addValue (values : List ν) : Option ν → List ν
  | none => values
  | some value => if values.contains value then values else values ++ [value]

/-- The entry of the key is found, or a new one is pushed. -/
def addPair : List (κ × List ν) → κ × Option ν → List (κ × List ν)
  | [], (key, value) => [(key, addValue [] value)]
  | (other, values) :: rest, (key, value) =>
      if other = key then
        (other, addValue values value) :: rest
      else
        (other, values) :: addPair rest (key, value)

def groupPairs (pairs : List (κ × Option ν)) : List (κ × List ν) :=
  pairs.foldl addPair []

theorem mem_addValue {values : List ν} {new : Option ν} {value : ν} :
    value ∈ addValue values new ↔ value ∈ values ∨ new = some value := by
  cases new with
  | none => simp [addValue]
  | some other =>
      simp only [addValue, Option.some.injEq]
      split
      · rename_i known
        rw [List.contains_iff_mem] at known
        refine ⟨.inl, ?_⟩
        rintro (member | rfl)
        · exact member
        · exact known
      · simp [eq_comm]

/-- The pair is added to a new entry at the end, or to the entry of its key. -/
theorem addPair_cases (groups : List (κ × List ν)) (key : κ) (new : Option ν) :
    (key ∉ groups.map Prod.fst ∧
      addPair groups (key, new) = groups ++ [(key, addValue [] new)]) ∨
    ∃ front values back, groups = front ++ (key, values) :: back ∧
      addPair groups (key, new) = front ++ (key, addValue values new) :: back := by
  induction groups with
  | nil => exact .inl ⟨List.not_mem_nil, rfl⟩
  | cons group rest ih =>
      obtain ⟨other, values⟩ := group
      by_cases same : other = key
      · subst same
        exact .inr ⟨[], values, rest, rfl, by simp [addPair]⟩
      · rw [addPair, if_neg same]
        rcases ih with ⟨absent, added⟩ | ⟨front, found, back, split, added⟩
        · refine .inl ⟨?_, by rw [added]; rfl⟩
          rw [List.map_cons, List.mem_cons]
          exact not_or.mpr ⟨fun equal => same equal.symm, absent⟩
        · exact .inr ⟨(other, values) :: front, found, back, by rw [split]; rfl, by rw [added]; rfl⟩

/-- A pair is grouped with those before it. -/
theorem Grouped.snoc {pairs : List (κ × Option ν)} {groups : List (κ × List ν)}
    (grouped : Grouped pairs groups) (key : κ) (new : Option ν) :
    Grouped (pairs ++ [(key, new)]) (addPair groups (key, new)) := by
  have listed : ∀ other, (∃ value, (other, value) ∈ pairs ++ [(key, new)]) ↔
      other ∈ groups.map Prod.fst ∨ other = key := by
    intro other
    rw [grouped.keys]
    simp only [List.mem_append, List.mem_singleton, Prod.mk.injEq, exists_or, exists_and_left,
      exists_eq, and_true]
  rcases addPair_cases groups key new with ⟨absent, added⟩ | ⟨front, values, back, split, added⟩
  · rw [added]
    refine ⟨?_, ?_, ?_⟩
    · rw [List.map_append]
      exact grouped.distinct.append (List.nodup_singleton key)
        (List.disjoint_singleton.mpr absent)
    · intro other
      rw [listed, List.map_append, List.mem_append]
      exact or_congr_right List.mem_singleton
    · intro group member value
      rw [List.mem_append, List.mem_singleton] at member
      rcases member with old | rfl
      · have other : group.1 ≠ key := fun same =>
          absent (same ▸ List.mem_map_of_mem (f := Prod.fst) old)
        exact grouped.values_snoc old other value
      · have fresh : (key, some value) ∉ pairs := fun before =>
          absent ((grouped.keys key).mpr ⟨_, before⟩)
        simp [mem_addValue, fresh, eq_comm]
  · have distinct := grouped.distinct
    have known : key ∈ groups.map Prod.fst := by
      rw [split, List.map_append, List.map_cons]
      exact List.mem_append_right _ (List.mem_cons_self ..)
    have keys : (front ++ (key, addValue values new) :: back).map Prod.fst =
        groups.map Prod.fst := by
      rw [split, List.map_append, List.map_append]
      rfl
    rw [added]
    refine ⟨by rwa [keys], ?_, ?_⟩
    · intro other
      rw [keys, listed]
      exact ⟨.inl, fun either => either.elim id fun same => same ▸ known⟩
    · intro group member value
      rw [split, List.map_append, List.map_cons, List.nodup_middle, List.nodup_cons,
        List.mem_append, not_or] at distinct
      have own : (key, values) ∈ groups := by simp [split]
      rw [List.mem_append, List.mem_cons] at member
      rcases member with before | rfl | after
      · have old : group ∈ groups := by simp [split, before]
        have other : group.1 ≠ key := by
          rintro rfl
          have listed : group.1 ∈ front.map Prod.fst := List.mem_map_of_mem before
          exact distinct.1.1 listed
        exact grouped.values_snoc old other value
      · rw [mem_addValue, grouped.values _ own, List.mem_append, List.mem_singleton]
        simp [eq_comm]
      · have old : group ∈ groups := by simp [split, after]
        have other : group.1 ≠ key := by
          rintro rfl
          have listed : group.1 ∈ back.map Prod.fst := List.mem_map_of_mem after
          exact distinct.1.2 listed
        exact grouped.values_snoc old other value

theorem groupPairs_grouped (pairs : List (κ × Option ν)) : Grouped pairs (groupPairs pairs) := by
  suffices all : ∀ (rest done : List (κ × Option ν)) (groups : List (κ × List ν)),
      Grouped done groups → Grouped (done ++ rest) (rest.foldl addPair groups) from
    all pairs [] [] .nil
  intro rest
  induction rest with
  | nil =>
      intro done groups grouped
      rwa [List.append_nil]
  | cons pair rest ih =>
      intro done groups grouped
      have next := ih (done ++ [pair]) (addPair groups pair) (grouped.snoc pair.1 pair.2)
      rwa [List.append_assoc] at next

end Ora.Library
