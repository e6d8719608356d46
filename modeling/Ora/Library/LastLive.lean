import Mathlib.Data.List.Basic

/-!
# Items of which only the last is live

Items are appended one after another, and a live item ends before the next one
comes.  `current` is the place of the live one.
-/

namespace Ora.Library

variable {ρ β : Type} {items : List ρ} {number : Nat} {item : ρ} {change : ρ → ρ}

theorem mem_modify (member : item ∈ items.modify number change) :
    item ∈ items ∨ ∃ before, items[number]? = some before ∧ item = change before := by
  obtain ⟨place, found⟩ := List.mem_iff_getElem?.mp member
  rw [List.getElem?_modify] at found
  obtain ⟨before, known, rfl⟩ := Option.map_eq_some_iff.mp found
  split
  · rename_i same
    exact .inr ⟨before, same ▸ known, rfl⟩
  · exact .inl (List.mem_of_getElem? known)

theorem map_modify {value : ρ → β} (same : ∀ item, value (change item) = value item) :
    (items.modify number change).map value = items.map value := by
  apply List.ext_getElem?
  intro place
  rw [List.getElem?_map, List.getElem?_map, List.getElem?_modify]
  cases found : items[place]? with
  | none => rfl
  | some item =>
      by_cases here : number = place
      · simp [here, same]
      · simp [here]

theorem getLast?_modify (number : Nat) (change : ρ → ρ) (last : items.getLast? = some item) :
    (items.modify number change).getLast? = some item ∨
      items[number]? = some item ∧
        (items.modify number change).getLast? = some (change item) := by
  rw [List.getLast?_eq_getElem?] at last
  rw [List.getLast?_eq_getElem?, List.length_modify, List.getElem?_modify, last]
  dsimp only [Functor.map, Option.map]
  split
  · rename_i same
    exact .inr ⟨same ▸ last, rfl⟩
  · exact .inl rfl

theorem getLast?_modify_last (last : number + 1 = items.length)
    (found : items[number]? = some item) :
    (items.modify number change).getLast? = some (change item) := by
  rw [List.getLast?_eq_getElem?, List.length_modify, ← last, Nat.add_sub_cancel,
    List.getElem?_modify_eq, found]
  rfl

theorem getLast?_of_modify {changed : ρ}
    (last : (items.modify number change).getLast? = some changed) :
    items.getLast? = some changed ∨
      ∃ item, items[number]? = some item ∧ items.getLast? = some item ∧ changed = change item := by
  cases before : items.getLast? with
  | none =>
      rw [List.getLast?_eq_none_iff] at before
      simp [before] at last
  | some item =>
      obtain kept | ⟨here, made⟩ := getLast?_modify number change before
      · exact .inl (kept.symm.trans last)
      · exact .inr ⟨item, here, rfl, Option.some.inj (last.symm.trans made)⟩

theorem filterMap_modify {select : ρ → Option β}
    (same : ∀ before, items[number]? = some before → select (change before) = select before) :
    (items.modify number change).filterMap select = items.filterMap select := by
  by_cases inside : number < items.length
  · obtain ⟨first, before, rest, rfl, rfl, changed⟩ := List.exists_of_modify change inside
    have kept := same before (by simp)
    rw [changed, List.filterMap_append, List.filterMap_append, List.filterMap_cons,
      List.filterMap_cons, kept]
  · rw [List.modify_eq_self (Nat.le_of_not_lt inside)]

/-- What is selected of the last item comes last. -/
theorem filterMap_modify_last {select : ρ → Option β} (last : number + 1 = items.length)
    (found : items[number]? = some item) (unselected : select item = none) :
    (items.modify number change).filterMap select =
      items.filterMap select ++ (select (change item)).toList := by
  obtain ⟨first, before, rest, rfl, rfl, changed⟩ :=
    List.exists_of_modify change (show number < items.length by omega)
  have same : before = item := by simpa using found
  have empty : rest = [] := by simpa using last
  subst same empty
  rw [changed, List.filterMap_append, List.filterMap_append]
  cases selected : select (change before) with
  | none => simp [selected, unselected]
  | some value => simp [selected, unselected]

theorem countP_modify (change : ρ → ρ) (select : ρ → Bool) (found : items[number]? = some item) :
    (items.modify number change).countP select + (select item).toNat =
      items.countP select + (select (change item)).toNat := by
  obtain ⟨inside, _⟩ := List.getElem?_eq_some_iff.mp found
  obtain ⟨first, before, rest, rfl, rfl, changed⟩ := List.exists_of_modify change inside
  have same : before = item := by simpa using found
  subst same
  have unit : ∀ item, (if select item = true then 1 else 0) = (select item).toNat := fun item => by
    cases select item <;> rfl
  rw [changed, List.countP_append, List.countP_append, List.countP_cons, List.countP_cons, unit,
    unit]
  omega

structure LastLive (live : ρ → Prop) (current : Option Nat) (items : List ρ) : Prop where
  last : ∀ number, current = some number → number + 1 = items.length
  live_iff : ∀ number item, items[number]? = some item → (live item ↔ current = some number)

namespace LastLive

variable {live : ρ → Prop} {current : Option Nat}

theorem nothing : LastLive live none ([] : List ρ) where
  last _ current := by cases current
  live_iff _ _ found := by cases found

theorem push (ended : LastLive live none items) (fresh : live item) :
    LastLive live (some items.length) (items ++ [item]) := by
  refine ⟨fun number current => ?_, fun number other found => ?_⟩
  · cases current
    rw [List.length_append, List.length_singleton]
  · obtain earlier | later := Nat.lt_or_ge number items.length
    · rw [List.getElem?_append_left earlier] at found
      rw [ended.live_iff number other found]
      simp [Nat.ne_of_gt earlier]
    · obtain ⟨inside, known⟩ := List.getElem?_eq_some_iff.mp found
      have place : number = items.length := by
        rw [List.length_append, List.length_singleton] at inside
        omega
      subst place
      rw [List.getElem_concat_length rfl inside] at known
      subst known
      exact ⟨fun _ => rfl, fun _ => fresh⟩

/-- The live item ends. -/
theorem close (known : LastLive live (some number) items) (ends : ∀ item, ¬ live (change item)) :
    LastLive live none (items.modify number change) := by
  refine ⟨fun _ current => absurd current (by simp), fun place other found => ?_⟩
  rw [List.getElem?_modify] at found
  obtain ⟨before, present, rfl⟩ := Option.map_eq_some_iff.mp found
  have before_iff := known.live_iff place before present
  split
  · simp [ends before]
  · rename_i apart
    rw [before_iff]
    simp [apart]

theorem modify (known : LastLive live current items)
    (same : ∀ before, items[number]? = some before → (live (change before) ↔ live before)) :
    LastLive live current (items.modify number change) := by
  refine ⟨fun place here => (known.last place here).trans (List.length_modify _ items number).symm,
    fun place other found => ?_⟩
  rw [List.getElem?_modify] at found
  obtain ⟨before, present, rfl⟩ := Option.map_eq_some_iff.mp found
  rw [← known.live_iff place before present]
  split
  · rename_i here
    exact same before (here ▸ present)
  · exact Iff.rfl

theorem exists_last (known : LastLive live (some number) items) :
    ∃ item, items[number]? = some item ∧ items.getLast? = some item ∧ live item := by
  have last := known.last number rfl
  have inside : number < items.length := by omega
  have found := List.getElem?_eq_getElem inside
  refine ⟨items[number], found, ?_, (known.live_iff number _ found).mpr rfl⟩
  rw [List.getLast?_eq_getElem?, ← last]
  exact found

/-- An item is live if and only if it is the last one and there is a current one. -/
theorem current_iff (known : LastLive live current items) :
    current.isSome = true ↔ ∃ item, items.getLast? = some item ∧ live item := by
  constructor
  · intro present
    obtain ⟨number, rfl⟩ := Option.isSome_iff_exists.mp present
    obtain ⟨item, _, last, isLive⟩ := known.exists_last
    exact ⟨item, last, isLive⟩
  · rintro ⟨item, last, isLive⟩
    rw [List.getLast?_eq_getElem?] at last
    rw [(known.live_iff _ item last).mp isLive]
    rfl

end LastLive

end Ora.Library
