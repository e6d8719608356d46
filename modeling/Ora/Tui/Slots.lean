import Ora.Library.Apart
import Ora.Tui.Form

/-!
# What editing leaves alone

The fields of a form are those of its schema and its options.  Whatever is
filled in or typed, only the values of the fields change.
-/

namespace Ora.Tui

open Ora.Library

variable {F T : Type}

/-- The field without its value. -/
def Field.slot (field : Field) : Field :=
  .empty field.path field.required field.inSection field.kind

theorem applyDefault_slot (formats : Formats F T) (field : Field) (default : Option (Value F)) :
    (applyDefault formats field default).slot = field.slot := by
  unfold applyDefault
  split
  · rfl
  · split
    · rfl
    · split <;> rfl
    · rfl
    · rfl
    · rfl
    · rfl

/-- Fields at different places below a path. -/
structure Collected (base : List String) (fields : List Field) : Prop where
  below : ∀ field ∈ fields, ∃ key rest, field.path = base ++ key :: rest
  apart : fields.Pairwise fun field other => Apart field.path other.path
  input : ∀ field ∈ fields, field.inSection = .input

variable {base : List String}

theorem collected_nil : Collected base [] :=
  ⟨fun _ member => (List.not_mem_nil member).elim, List.Pairwise.nil,
    fun _ member => (List.not_mem_nil member).elim⟩

/-- The fields of properties with different names are at different places. -/
theorem collected_properties {collect : String × Value F → Option (List Field)}
    (each : ∀ entry fields, collect entry = some fields → Collected (base ++ [entry.1]) fields ∨
      ∃ field : Field, fields = [field] ∧ field.path = base ++ [entry.1] ∧
        field.inSection = .input)
    {entries : List (String × Value F)} (distinct : (entries.map Prod.fst).Nodup)
    {groups : List (List Field)} (collected : entries.mapM collect = some groups) :
    Collected base groups.flatten ∧ ∀ field ∈ groups.flatten, ∃ entry ∈ entries, ∃ rest,
      field.path = base ++ entry.1 :: rest := by
  induction entries generalizing groups with
  | nil =>
      cases collected
      exact ⟨collected_nil, fun _ member => (List.not_mem_nil member).elim⟩
  | cons entry rest ih =>
      obtain ⟨fresh, others⟩ := List.nodup_cons.mp distinct
      rw [List.mapM_cons] at collected
      obtain ⟨fields, first, tail⟩ := Option.bind_eq_some_iff.mp collected
      obtain ⟨later, remaining, same⟩ := Option.bind_eq_some_iff.mp tail
      cases same
      obtain ⟨after, named⟩ := ih others remaining
      -- the paths of one property, which are apart from those of the others
      have own : (∀ field ∈ fields, ∃ tail, field.path = base ++ entry.1 :: tail) ∧
          fields.Pairwise (fun field other => Apart field.path other.path) ∧
          ∀ field ∈ fields, field.inSection = .input := by
        obtain nested | ⟨field, rfl, path, input⟩ := each entry fields first
        · refine ⟨fun field member => ?_, nested.apart, nested.input⟩
          obtain ⟨key, tail, path⟩ := nested.below field member
          exact ⟨key :: tail, by rw [path, List.append_assoc]; rfl⟩
        · refine ⟨fun other member => ?_, List.pairwise_singleton .., fun other member => ?_⟩
          · exact List.mem_singleton.mp member ▸ ⟨[], path⟩
          · exact List.mem_singleton.mp member ▸ input
      rw [List.flatten_cons]
      refine ⟨⟨fun field member => ?_, ?_, fun field member => ?_⟩, fun field member => ?_⟩
      · obtain member | member := List.mem_append.mp member
        · obtain ⟨tail, path⟩ := own.1 field member
          exact ⟨_, tail, path⟩
        · exact after.below field member
      · refine List.pairwise_append.mpr ⟨own.2.1, after.apart, fun field member other further => ?_⟩
        obtain ⟨tail, path⟩ := own.1 field member
        obtain ⟨twin, present, ending, otherPath⟩ := named other further
        rw [path, otherPath, apart_append_iff]
        refine apart_of_ne fun same => fresh ?_
        rw [same]
        exact List.mem_map_of_mem present
      · obtain member | member := List.mem_append.mp member
        · exact own.2.2 field member
        · exact after.input field member
      · obtain member | member := List.mem_append.mp member
        · obtain ⟨tail, path⟩ := own.1 field member
          exact ⟨entry, List.mem_cons_self .., tail, path⟩
        · obtain ⟨twin, present, found⟩ := named field member
          exact ⟨twin, List.mem_cons_of_mem _ present, found⟩

/-- The fields of an object are at different places below it. -/
theorem collectFields_collected (formats : Formats F T) (root : Value F) (fuel : Nat) {depth : Nat}
    {node : Value F} {fields : List Field}
    (collected : collectFields formats root fuel depth node base = some fields) :
    Collected base fields := by
  induction depth generalizing node base fields with
  | zero =>
      cases collected
      exact collected_nil
  | succ depth ih =>
      unfold collectFields at collected
      split at collected
      · cases collected
        exact collected_nil
      · rename_i properties found
        obtain ⟨groups, mapped, rfl⟩ := Option.map_eq_some_iff.mp collected
        have distinct : (properties.map Prod.fst).Nodup := by
          obtain ⟨value, _, entries⟩ := Option.bind_eq_some_iff.mp found
          cases value <;> cases entries
          exact firstKeys_nodup
        refine (collected_properties (fun entry fields first => ?_) distinct mapped).1
        simp only at first
        split at first
        · exact .inl (ih first)
        · obtain ⟨kind, _, rfl⟩ := Option.map_eq_some_iff.mp first
          have slot := applyDefault_slot formats
            (.empty (base ++ [entry.1]) ((requiredNames node).contains entry.1.toList) .input kind)
            ((resolve root entry.2).get "default")
          exact .inr ⟨_, rfl, congrArg Field.path slot, congrArg Field.inSection slot⟩

namespace Form

/-- The fields without their values. -/
def slots (form : Form) : List Field :=
  form.fields.map Field.slot

variable {form next : Form} {field : Field}

theorem setField_slots (selected : form.selectedField = some field) {new : Field}
    (same : new.slot = field.slot) : (form.setField new).slots = form.slots := by
  obtain ⟨bound, rfl⟩ := List.getElem?_eq_some_iff.mp selected
  show (form.fields.set form.selected new).map Field.slot = form.fields.map Field.slot
  rw [List.map_set, same, ← List.map_set, List.set_getElem_self]

theorem leaveField_slots (form : Form) : form.leaveField.slots = form.slots := by
  unfold leaveField
  split
  · rename_i selected
    exact setField_slots selected rfl
  · rfl

theorem selectNext_slots (moved : form.selectNext = some next) : next.slots = form.slots := by
  unfold selectNext at moved
  split at moved
  · cases moved
    rfl
  · split at moved
    · cases moved
      rfl
    · simp only at moved
      split at moved
      · cases moved
      · cases moved
        exact leaveField_slots form

theorem selectPrevious_slots (moved : form.selectPrevious = some next) :
    next.slots = form.slots := by
  unfold selectPrevious at moved
  split at moved
  · cases moved
    rfl
  · split at moved
    · cases moved
      rfl
    · simp only at moved
      split at moved
      · cases moved
      · cases moved
        exact leaveField_slots form

theorem selectNextCell_slots (moved : form.selectNextCell = some next) :
    next.slots = form.slots := by
  unfold selectNextCell at moved
  split at moved
  · cases moved
    rfl
  · exact selectNext_slots moved

theorem selectPreviousCell_slots (moved : form.selectPreviousCell = some next) :
    next.slots = form.slots := by
  unfold selectPreviousCell at moved
  split at moved
  · cases moved
    rfl
  · obtain ⟨previous, selected, rfl⟩ := Option.map_eq_some_iff.mp moved
    have same := selectPrevious_slots selected
    split
    · exact same
    · exact same

theorem cycle_slots (form : Form) (forward : Bool) : (form.cycle forward).slots = form.slots := by
  unfold cycle
  simp only
  split
  · rfl
  · split
    · rfl
    · split
      · rfl
      · rename_i selected
        split
        · exact setField_slots selected rfl
        · exact setField_slots selected rfl
        · rfl

theorem moveWord_slots {isAlphanumeric : Char → Bool} {forward : Bool}
    (moved : form.moveWord isAlphanumeric forward = some next) : next.slots = form.slots := by
  unfold moveWord at moved
  split at moved
  · cases moved
    rfl
  · split at moved
    · cases moved
      rfl
    · obtain ⟨cursor, _, rfl⟩ := Option.map_eq_some_iff.mp moved
      rfl

theorem pushItem_slots (selected : form.selectedField = some field) {c : Char}
    (pushed : form.pushItem field c = some next) : next.slots = form.slots := by
  unfold pushItem at pushed
  split at pushed
  · cases pushed
    rfl
  · split at pushed
    · split at pushed <;> cases pushed <;> rfl
    · simp only at pushed
      split at pushed
      · cases pushed
        exact setField_slots selected rfl
      · obtain ⟨item, _, rfl⟩ := Option.map_eq_some_iff.mp pushed
        exact setField_slots selected rfl

theorem pushPair_slots (selected : form.selectedField = some field) {c : Char}
    (pushed : form.pushPair field c = some next) : next.slots = form.slots := by
  unfold pushPair at pushed
  split at pushed
  · cases pushed
    rfl
  · split at pushed
    · split at pushed <;> cases pushed <;> rfl
    · simp only at pushed
      split at pushed
      · cases pushed
        exact setField_slots selected rfl
      · obtain ⟨text, _, rfl⟩ := Option.map_eq_some_iff.mp pushed
        exact setField_slots selected rfl

theorem pushChar_slots {c : Char} (pushed : form.pushChar c = some next) :
    next.slots = form.slots := by
  unfold pushChar at pushed
  split at pushed
  · cases pushed
    rfl
  · rename_i selected
    split at pushed
    · exact pushItem_slots selected pushed
    · exact pushPair_slots selected pushed
    · obtain ⟨text, _, rfl⟩ := Option.map_eq_some_iff.mp pushed
      exact setField_slots selected rfl
    · split at pushed
      · cases pushed
        exact setField_slots selected rfl
      · cases pushed
        rfl
    · cases pushed
      rfl

/-- A row is changed, or removed when it has become empty. -/
theorem changeRow_slots {α : Type} {empty : Prop} [Decidable empty] {rows : Option α}
    {shorter : α → Form} {changed : Form}
    (done : (if empty then rows.map shorter else some changed) = some next)
    (removed : ∀ rows, (shorter rows).slots = form.slots) (kept : changed.slots = form.slots) :
    next.slots = form.slots := by
  split at done
  · obtain ⟨rows, _, rfl⟩ := Option.map_eq_some_iff.mp done
    exact removed rows
  · cases done
    exact kept

theorem deleteChar_slots (deleted : form.deleteChar = some next) : next.slots = form.slots := by
  unfold deleteChar at deleted
  split at deleted
  · cases deleted
    rfl
  · rename_i selected
    split at deleted
    · split at deleted
      · cases deleted
        rfl
      · obtain ⟨item, _, removed⟩ := Option.bind_eq_some_iff.mp deleted
        exact changeRow_slots removed (fun _ => setField_slots selected rfl)
          (setField_slots selected rfl)
    · split at deleted
      · cases deleted
        rfl
      · obtain ⟨text, _, removed⟩ := Option.bind_eq_some_iff.mp deleted
        exact changeRow_slots removed (fun _ => setField_slots selected rfl)
          (setField_slots selected rfl)
    · obtain ⟨text, _, rfl⟩ := Option.map_eq_some_iff.mp deleted
      exact setField_slots selected rfl
    · cases deleted
      rfl
    · cases deleted
      rfl

theorem popChar_slots (popped : form.popChar = some next) : next.slots = form.slots := by
  unfold popChar at popped
  split at popped
  · cases popped
    rfl
  · rename_i selected
    split at popped
    · split at popped
      · split at popped <;> cases popped <;> rfl
      · split at popped
        · cases popped
          rfl
        · obtain ⟨item, _, removed⟩ := Option.bind_eq_some_iff.mp popped
          exact changeRow_slots removed (fun _ => setField_slots selected rfl)
            (setField_slots selected rfl)
    · split at popped
      · split at popped <;> cases popped <;> rfl
      · split at popped
        · split at popped <;> cases popped <;> rfl
        · obtain ⟨text, _, removed⟩ := Option.bind_eq_some_iff.mp popped
          exact changeRow_slots removed (fun _ => setField_slots selected rfl)
            (setField_slots selected rfl)
    · split at popped
      · cases popped
        rfl
      · obtain ⟨text, _, rfl⟩ := Option.map_eq_some_iff.mp popped
        exact setField_slots selected rfl
    · cases popped
      rfl
    · cases popped
      rfl

theorem popChars_slots {count : Nat} (popped : popChars count form = some next) :
    next.slots = form.slots := by
  induction count generalizing form with
  | zero =>
      cases popped
      rfl
  | succ count ih =>
      obtain ⟨middle, first, rest⟩ := Option.bind_eq_some_iff.mp popped
      exact (ih rest).trans (popChar_slots first)

theorem popWord_slots {isAlphanumeric : Char → Bool}
    (popped : form.popWord isAlphanumeric = some next) : next.slots = form.slots := by
  obtain ⟨target, _, removed⟩ := Option.bind_eq_some_iff.mp popped
  split at removed
  · exact popChar_slots removed
  · exact popChars_slots removed

theorem edit_slots {isAlphanumeric : Char → Bool} (edit : Edit)
    (edited : form.edit isAlphanumeric edit = some next) : next.slots = form.slots := by
  cases edit with
  | selectNext => exact selectNext_slots edited
  | selectPrevious => exact selectPrevious_slots edited
  | selectNextCell => exact selectNextCell_slots edited
  | selectPreviousCell => exact selectPreviousCell_slots edited
  | cycle forward =>
      cases edited
      exact cycle_slots form forward
  | moveWord forward => exact moveWord_slots edited
  | pushChar c => exact pushChar_slots edited
  | popChar => exact popChar_slots edited
  | popWord => exact popWord_slots edited
  | deleteChar => exact deleteChar_slots edited

theorem changeOption_slots (key : String) {change : Field → Field}
    (same : ∀ field, (change field).slot = field.slot) (fields : List Field) :
    (changeOption key change fields).map Field.slot = fields.map Field.slot := by
  induction fields with
  | nil => rfl
  | cons field rest ih =>
      unfold changeOption
      split
      · rw [List.map_cons, List.map_cons, same]
      · rw [List.map_cons, List.map_cons, ih]

theorem prefillInput_slots (formats : Formats F T) (form : Form) (payload : Text) :
    (form.prefillInput formats payload).slots = form.slots := by
  unfold prefillInput
  split
  · rfl
  · show (form.fields.map _).map Field.slot = form.fields.map Field.slot
    rw [List.map_map]
    refine List.map_congr_left fun field _ => ?_
    rw [Function.comp_apply]
    split
    · exact applyDefault_slot ..
    · rfl

theorem fill_slots (formats : Formats F T) (form : Form) (setup : Setup) :
    (form.fill formats setup).slots = form.slots := by
  cases setup with
  | option key value =>
      refine changeOption_slots key (fun field => ?_) form.fields
      rfl
  | optionBool key value =>
      refine changeOption_slots key (fun field => ?_) form.fields
      rfl
  | optionChoice key value =>
      refine changeOption_slots key (fun field => ?_) form.fields
      split
      · split <;> rfl
      · rfl
  | pairsOption key rows =>
      refine changeOption_slots key (fun field => ?_) form.fields
      rfl
  | prefillInput payload => exact prefillInput_slots formats form payload

theorem fills_slots (formats : Formats F T) (form : Form) (setups : List Setup) :
    (setups.foldl (fill formats) form).slots = form.slots := by
  induction setups generalizing form with
  | nil => rfl
  | cons setup rest ih => exact (ih (form.fill formats setup)).trans (fill_slots ..)

theorem edits_slots {isAlphanumeric : Char → Bool} {edits : List Edit}
    (edited : edits.foldlM (edit isAlphanumeric) form = some next) : next.slots = form.slots := by
  induction edits generalizing form with
  | nil =>
      cases edited
      rfl
  | cons first rest ih =>
      rw [List.foldlM_cons] at edited
      obtain ⟨middle, done, others⟩ := Option.bind_eq_some_iff.mp edited
      exact (ih others).trans (edit_slots first done)

/-- However a form is filled in and edited, it keeps its fields. -/
theorem editing_slots {formats : Formats F T} {setups : List Setup} {edits : List Edit}
    (edited : form.editing formats setups edits = some next) : next.slots = form.slots :=
  (edits_slots edited).trans (fills_slots formats form setups)

end Form

end Ora.Tui
