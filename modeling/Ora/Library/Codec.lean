import Mathlib.Data.List.Forall2

/-!
# Codecs

A value is read back from its encoding.  Lists are decoded entry by entry and
fail with the first entry that does.
-/

namespace Ora.Library

variable {ε α β : Type}

/-- An encoding whose values are all decoded again. -/
structure Codec (ε α β : Type) where
  encode : α → β
  decode : β → Except ε α
  decode_encode : ∀ value, decode (encode value) = .ok value

/-- A list is read back when its entries are. -/
theorem mapM_map_eq_ok {encode : α → β} {decode : β → Except ε α} {values : List α}
    (read : ∀ value ∈ values, decode (encode value) = .ok value) :
    (values.map encode).mapM decode = .ok values := by
  induction values with
  | nil => rfl
  | cons value rest ih =>
      have head := read value (List.mem_cons_self ..)
      have tail := ih fun other member => read other (List.mem_cons_of_mem _ member)
      rw [List.map_cons, List.mapM_cons, head, tail]
      rfl

theorem mapM_eq_error_of_mem {decode : β → Except ε α} {values : List β} {value : β}
    (member : value ∈ values) {error : ε} (failed : decode value = .error error) :
    ∃ first, values.mapM decode = .error first := by
  induction values with
  | nil => cases member
  | cons head rest ih =>
      rw [List.mapM_cons]
      cases read : decode head with
      | error first => exact ⟨first, rfl⟩
      | ok result =>
          obtain rfl | later := List.mem_cons.mp member
          · rw [failed] at read
            cases read
          · obtain ⟨first, same⟩ := ih later
            rw [same]
            exact ⟨first, rfl⟩

/-- A computation that succeeds, step by step. -/
theorem bind_eq_ok {step : Except ε β} {next : β → Except ε α} {result : α} :
    (step >>= next) = .ok result ↔ ∃ value, step = .ok value ∧ next value = .ok result := by
  cases step with
  | error error => exact ⟨nofun, nofun⟩
  | ok value => exact ⟨fun done => ⟨value, rfl, done⟩, fun ⟨_, rfl, done⟩ => done⟩

/-- Only errors are changed. -/
theorem mapError_eq_ok {ε' : Type} {result : Except ε α} {change : ε → ε'} {value : α} :
    result.mapError change = .ok value ↔ result = .ok value := by
  cases result with
  | error error => exact ⟨nofun, nofun⟩
  | ok found => exact ⟨fun same => congrArg Except.ok (Except.ok.inj same), fun same => same ▸ rfl⟩

theorem mapM_cons_eq_ok {decode : β → Except ε α} {value : β} {rest : List β} {results : List α} :
    (value :: rest).mapM decode = .ok results ↔
      ∃ head tail, decode value = .ok head ∧ rest.mapM decode = .ok tail ∧ results = head :: tail := by
  rw [List.mapM_cons, bind_eq_ok]
  constructor
  · rintro ⟨head, first, done⟩
    obtain ⟨tail, others, done⟩ := bind_eq_ok.mp done
    cases done
    exact ⟨head, tail, first, others, rfl⟩
  · rintro ⟨head, tail, first, others, rfl⟩
    exact ⟨head, first, bind_eq_ok.mpr ⟨tail, others, rfl⟩⟩

theorem mem_of_mapM_eq_ok {decode : β → Except ε α} {values : List β} {results : List α}
    (done : values.mapM decode = .ok results) (result : α) :
    result ∈ results ↔ ∃ value ∈ values, decode value = .ok result := by
  induction values generalizing results with
  | nil =>
      cases done
      simp
  | cons value rest ih =>
      obtain ⟨head, tail, first, others, rfl⟩ := mapM_cons_eq_ok.mp done
      rw [List.mem_cons, ih others]
      simp [first, eq_comm]

/-- A list that is decoded entry by entry. -/
theorem mapM_eq_ok_iff {decode : β → Except ε α} {values : List β} {results : List α} :
    values.mapM decode = .ok results ↔
      List.Forall₂ (fun value result => decode value = .ok result) values results := by
  induction values generalizing results with
  | nil =>
      rw [List.forall₂_nil_left_iff]
      exact ⟨fun done => (Except.ok.inj done).symm, fun same => same ▸ rfl⟩
  | cons value rest ih =>
      rw [mapM_cons_eq_ok, List.forall₂_cons_left_iff]
      simp only [ih]

theorem mapM_eq_ok_nil_iff {decode : β → Except ε α} {values : List β} {results : List α}
    (done : values.mapM decode = .ok results) : results = [] ↔ values = [] := by
  cases values with
  | nil =>
      cases done
      simp
  | cons value rest =>
      obtain ⟨head, tail, _, _, rfl⟩ := mapM_cons_eq_ok.mp done
      exact iff_of_false (List.cons_ne_nil _ _) (List.cons_ne_nil _ _)

end Ora.Library
