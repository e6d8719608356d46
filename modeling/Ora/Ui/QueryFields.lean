import Ora.Ui.QueryCodecs

/-!
# Queries are read back

The fields of an object are set again from the query that was encoded from them.
-/

namespace Ora.Ui

open Ora.Library

variable {M : Type}

/-- Fields of an object that are set independently of each other. -/
structure Independent (entries : List (FieldEntry M)) : Prop where
  own : ∀ entry ∈ entries, ∀ object, entry.set (entry.get object) object = object
  others : entries.Pairwise fun entry other => ∀ value object,
    other.get (entry.set value object) = other.get object

/-- The object with the fields of another one. -/
def setFields (entries : List (FieldEntry M)) (value object : M) : M :=
  entries.foldl (fun object entry => entry.set (entry.get value) object) object

/-- The fields of an object are decoded from the values they are encoded to, those
that are absent have their default. -/
theorem decodeFields_encodeFields {entries : List (FieldEntry M)}
    (independent : Independent entries) {init value : M}
    (restores : ∀ entry ∈ entries, entry.param.Restores (entry.get init) (entry.get value))
    {result : M} (unset : ∀ entry ∈ entries, entry.get result = entry.get init) :
    ∃ values, encodeFields entries value = some values ∧
      decodeFields entries values result = (setFields entries value result, []) := by
  induction entries generalizing result with
  | nil => exact ⟨[], rfl, rfl⟩
  | cons entry rest ih =>
      obtain ⟨separate, later⟩ := List.pairwise_cons.mp independent.others
      obtain ⟨texts, encoded, read⟩ := restores entry (List.mem_cons_self ..)
      have remaining : ∀ other ∈ rest,
          other.get (entry.set (entry.get value) result) = other.get init := fun other member =>
        (separate other member _ _).trans (unset other (List.mem_cons_of_mem _ member))
      obtain ⟨values, encodedRest, readRest⟩ := ih
        ⟨fun other member => independent.own other (List.mem_cons_of_mem _ member), later⟩
        (fun other member => restores other (List.mem_cons_of_mem _ member)) remaining
      refine ⟨texts :: values, ?_, ?_⟩
      · unfold encodeFields at encodedRest ⊢
        rw [List.mapM_cons, encoded, encodedRest]
        rfl
      · have absent : texts.isEmpty = true → entry.set (entry.get value) result = result := by
          intro empty
          rw [if_pos empty] at read
          rw [read, ← unset entry (List.mem_cons_self ..)]
          exact independent.own entry (List.mem_cons_self ..) result
        show decodeFields (entry :: rest) (texts :: values) result =
          (setFields rest value (entry.set (entry.get value) result), [])
        rw [decodeFields]
        split
        · rename_i empty
          rw [absent empty] at readRest ⊢
          exact readRest
        · rename_i present
          rw [if_neg present] at read
          simp only [read, Decoded.valid, readRest]
          rfl

theorem normalize_rawValue {values : List Text} (present : values ≠ []) :
    normalize (some (rawValue values)) = values := by
  match values with
  | [] => exact absurd rfl present
  | [value] => rfl
  | first :: second :: rest =>
      show ((first :: second :: rest).map some).map (fun value => value.getD []) = _
      rw [List.map_map]
      exact List.map_id _

theorem raw_cons (key : Text) (value : RawValue) (query : LocationQuery) (other : Text) :
    LocationQuery.raw ((key, value) :: query) other =
      if key = other then some value else query.raw other := by
  by_cases same : key = other <;> simp [LocationQuery.raw, findKey, same]

/-- The parameters of a query are the values of the fields, other parameters stay. -/
theorem encodeQueryFields_values {entries : List (FieldEntry M)} (pre : Text)
    (distinct : (entries.map FieldEntry.name).Nodup) {value : M} {values : List (List Text)}
    (encoded : encodeFields entries value = some values) {query : LocationQuery}
    (absent : ∀ entry ∈ entries, query.raw (pre ++ entry.name) = none) :
    ∃ after, entries.foldlM (fun query entry =>
        (entry.param.encode (entry.get value)).map fun values =>
          if values.isEmpty then query else (pre ++ entry.name, rawValue values) :: query) query =
        some after ∧
      entries.map (fun entry => normalize (after.raw (pre ++ entry.name))) = values ∧
      ∀ key, (∀ entry ∈ entries, pre ++ entry.name ≠ key) → after.raw key = query.raw key := by
  induction entries generalizing query values with
  | nil =>
      cases encoded
      exact ⟨query, rfl, rfl, fun _ _ => rfl⟩
  | cons entry rest ih =>
      rw [List.map_cons, List.nodup_cons] at distinct
      have others : ∀ other ∈ rest, pre ++ entry.name ≠ pre ++ other.name := fun other member same =>
        distinct.1 (List.append_cancel_left same ▸ List.mem_map_of_mem member)
      unfold encodeFields at encoded
      rw [List.mapM_cons] at encoded
      obtain ⟨texts, first, encoded⟩ := Option.bind_eq_some_iff.mp encoded
      obtain ⟨remaining, encodedRest, same⟩ := Option.bind_eq_some_iff.mp encoded
      cases same
      -- the query with the parameter of this field
      obtain ⟨middle, step, found, kept⟩ : ∃ middle : LocationQuery,
          (if texts.isEmpty then query else (pre ++ entry.name, rawValue texts) :: query) = middle ∧
          normalize (middle.raw (pre ++ entry.name)) = texts ∧
          ∀ key, pre ++ entry.name ≠ key → middle.raw key = query.raw key := by
        split
        · rename_i empty
          refine ⟨query, rfl, ?_, fun _ _ => rfl⟩
          rw [absent entry (List.mem_cons_self ..)]
          exact (List.isEmpty_iff.mp empty).symm
        · rename_i present
          refine ⟨_, rfl, ?_, fun key different => ?_⟩
          · rw [raw_cons, if_pos rfl, normalize_rawValue fun empty =>
              present (List.isEmpty_iff.mpr empty)]
          · rw [raw_cons, if_neg different]
      obtain ⟨after, done, values, unchanged⟩ := ih distinct.2 encodedRest fun other member =>
        (kept _ (others other member)).trans (absent other (List.mem_cons_of_mem _ member))
      refine ⟨after, ?_, ?_, fun key different => ?_⟩
      · rw [List.foldlM_cons, first, Option.map_some, step]
        exact done
      · rw [List.map_cons, values, unchanged _ fun other member => (others other member).symm, found]
      · rw [unchanged key fun other member => different other (List.mem_cons_of_mem _ member)]
        exact kept key (different entry (List.mem_cons_self ..))

/-- A query that has the values of the parameters of the fields. -/
def Delivers (fields : List (FieldEntry M)) (pre : Text) (query delivered : LocationQuery) : Prop :=
  ∀ entry ∈ fields, normalize (delivered.raw (pre ++ entry.name)) =
    normalize (query.raw (pre ++ entry.name))

/-- An object is decoded from the query it was encoded to, without a report. -/
theorem decodeQueryFields_encodeQueryFields {fields : List (FieldEntry M)}
    (independent : Independent fields) (distinct : (fields.map FieldEntry.name).Nodup)
    {init value : M}
    (restores : ∀ entry ∈ fields, entry.param.Restores (entry.get init) (entry.get value))
    (pre : Text) :
    ∃ query, encodeQueryFields fields value pre = some query ∧
      ∀ delivered, Delivers fields pre query delivered →
        decodeQueryFields fields delivered pre init = (setFields fields value init, []) := by
  have unset : ∀ entry ∈ fields, entry.get init = entry.get init := fun _ _ => rfl
  have absent : ∀ entry ∈ fields, LocationQuery.raw [] (pre ++ entry.name) = none := fun _ _ => rfl
  obtain ⟨values, encoded, decoded⟩ := decodeFields_encodeFields independent restores unset
  obtain ⟨query, done, read, _⟩ := encodeQueryFields_values pre distinct encoded absent
  refine ⟨query, done, fun delivered delivers => ?_⟩
  have same : fields.map (fun entry => normalize (delivered.raw (pre ++ entry.name))) = values := by
    rw [← read]
    exact List.map_congr_left delivers
  simp only [decodeQueryFields, same, decoded]
  rfl

end Ora.Ui
