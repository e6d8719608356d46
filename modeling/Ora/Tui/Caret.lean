import Ora.Tui.Form

/-!
# The caret is inside the text

Whatever is typed, the selected field exists, the row is one of its rows, the
cell is the key outside of pairs, and the caret is within the text of the row.
-/

namespace Ora.Tui

open Ora.Library

variable {F T : Type}

section Texts

variable {text : Text} {cursor : Nat}

theorem byteAt_eq (text : Text) (chars : Nat) :
    byteAt text chars = byteLength (text.take chars) := by
  unfold byteAt
  rw [charIndices_getElem?]
  split
  · simp
  · rename_i outside
    rw [List.take_of_length_le (Nat.le_of_not_lt outside)]
    rfl

theorem insert_at_caret (text : Text) (cursor : Nat) (c : Char) :
    insertAtByte text (byteAt text cursor) c =
      some (text.take cursor ++ c :: text.drop cursor) := by
  rw [byteAt_eq, insertAtByte_take]

theorem removeChars_eq (text : Text) {start stop : Nat} (ordered : start ≤ stop) :
    Form.removeChars text start stop = some (text.take start ++ text.drop stop) := by
  rw [Form.removeChars, byteAt_eq, byteAt_eq, removeBytes_take ordered]

/-- Past the end there is no character to delete. -/
theorem deleteAt_eq (text : Text) (cursor : Nat) :
    Form.deleteAt text cursor = some (text.take cursor ++ text.drop (cursor + 1)) := by
  unfold Form.deleteAt
  rw [byteAt_eq, byteAt_eq]
  split
  · exact removeChars_eq text (Nat.le_succ cursor)
  · rename_i none
    have past : text.length ≤ cursor := Nat.le_of_not_lt fun inside =>
      none (byteLength_take_lt_iff.mpr inside)
    rw [List.take_of_length_le past, List.drop_eq_nil_of_le (Nat.le_succ_of_le past),
      List.append_nil]

theorem insert_length (inside : cursor ≤ text.length) (c : Char) :
    cursor + 1 ≤ (text.take cursor ++ c :: text.drop cursor).length := by
  simp only [List.length_append, List.length_take, List.length_cons, List.length_drop]
  omega

theorem delete_length (inside : cursor ≤ text.length) :
    cursor ≤ (text.take cursor ++ text.drop (cursor + 1)).length := by
  simp only [List.length_append, List.length_take, List.length_drop]
  omega

theorem backWhile_le (accepts : Char → Bool) (text : Text) {position : Nat}
    (inside : position ≤ text.length) :
    ∃ start, backWhile accepts text position = some start ∧ start ≤ position := by
  induction position with
  | zero => exact ⟨0, rfl, Nat.le_refl _⟩
  | succ position ih =>
      obtain ⟨start, found, before⟩ := ih (Nat.le_of_succ_le inside)
      have char := List.getElem?_eq_getElem inside
      rw [backWhile, char]
      simp only
      split
      · exact ⟨start, found, Nat.le_succ_of_le before⟩
      · exact ⟨position + 1, rfl, Nat.le_refl _⟩

theorem forwardWhile_le (accepts : Char → Bool) {position : Nat}
    (inside : position ≤ text.length) : forwardWhile accepts text position ≤ text.length := by
  have within := (List.takeWhile_sublist accepts (l := text.drop position)).length_le
  rw [List.length_drop] at within
  unfold forwardWhile
  omega

/-- A word starts at or before the caret. -/
theorem wordStart_le (isAlphanumeric : Char → Bool) (text : Text) (cursor : Nat) :
    ∃ start, wordStart isAlphanumeric text cursor = some start ∧ start ≤ cursor := by
  obtain ⟨separators, found, first⟩ := backWhile_le (fun c => !isAlphanumeric c) text
    (Nat.min_le_right cursor text.length)
  obtain ⟨start, last, second⟩ := backWhile_le isAlphanumeric text
    (Nat.le_trans first (Nat.min_le_right cursor text.length))
  refine ⟨start, ?_, Nat.le_trans second (Nat.le_trans first (Nat.min_le_left ..))⟩
  rw [wordStart, found, Option.bind_some, last]

theorem wordEnd_le (isAlphanumeric : Char → Bool) (text : Text) (cursor : Nat) :
    wordEnd isAlphanumeric text cursor ≤ text.length :=
  forwardWhile_le _ (forwardWhile_le _ (Nat.min_le_right cursor text.length))

theorem slice_isSome {start stop : Nat} (ordered : start ≤ stop) (inside : stop ≤ text.length) :
    ∃ part, slice text start stop = some part :=
  ⟨_, if_pos ⟨ordered, inside⟩⟩

/-- The window around a caret within the text can be cut out of it. -/
theorem caretWindow_isSome {width : Nat} (inside : cursor ≤ text.length) (visible : 0 < width) :
    ∃ window, caretWindow text cursor width = some window := by
  have stop : min (cursor + 1 - width + width) text.length ≤ text.length := Nat.min_le_right ..
  obtain ⟨before, found⟩ : ∃ part, slice text (cursor + 1 - width)
      (min cursor (min (cursor + 1 - width + width) text.length)) = some part :=
    slice_isSome (by omega) (by omega)
  simp only [caretWindow, found, Option.bind_some]
  split
  · obtain ⟨after, rest⟩ : ∃ part, slice text (cursor + 1)
        (min (cursor + 1 - width + width) text.length) = some part :=
      slice_isSome (by omega) stop
    rw [rest]
    exact ⟨_, rfl⟩
  · exact ⟨_, rfl⟩

end Texts

/-- A place within a field: one of its rows, a cell of the row and a position in it. -/
structure Field.Inside (field : Field) (item cell cursor : Nat) : Prop where
  row : item < field.rows
  cells : cell = 0 ∨ cell = 1 ∧ isPairs field = true
  caret : cursor ≤ charCount (field.rowText item cell)

/-- The caret is at a place of the selected field. -/
structure Form.CaretInside (form : Form) : Prop where
  selected : form.selected < form.fields.length
  item : form.item < form.rowsIn form.selected
  cell : form.cell = 0 ∨ form.cell = 1 ∧ form.inPairs = true
  cursor : form.cursor ≤ charCount form.activeText

namespace Form

variable {form : Form} {field : Field} {item cell cursor : Nat}

theorem caretInside_iff (form : Form) : form.CaretInside ↔
    ∃ field, form.selectedField = some field ∧
      field.Inside form.item form.cell form.cursor := by
  have parts : ∀ field, form.selectedField = some field → form.rowsIn form.selected = field.rows ∧
      form.inPairs = isPairs field ∧ form.activeText = field.rowText form.item form.cell := by
    intro field selected
    unfold rowsIn inPairs activeText
    rw [selected]
    unfold selectedField at selected
    rw [selected]
    exact ⟨rfl, rfl, rfl⟩
  constructor
  · intro inside
    have bound := inside.selected
    have selected : form.selectedField = some form.fields[form.selected] :=
      List.getElem?_eq_getElem bound
    obtain ⟨rows, pairs, text⟩ := parts _ selected
    exact ⟨_, selected, rows ▸ inside.item, pairs ▸ inside.cell, text ▸ inside.cursor⟩
  · rintro ⟨field, selected, inside⟩
    obtain ⟨rows, pairs, text⟩ := parts _ selected
    obtain ⟨bound, _⟩ := List.getElem?_eq_some_iff.mp selected
    exact ⟨bound, rows ▸ inside.row, pairs ▸ inside.cells, text ▸ inside.caret⟩

theorem setField_selectedField (selected : form.selectedField = some field) (new : Field) :
    (form.setField new).selectedField = some new := by
  obtain ⟨bound, _⟩ := List.getElem?_eq_some_iff.mp selected
  exact List.getElem?_set_self bound

/-- The caret is put at the end of the row. -/
theorem resetCursor_inside (selected : form.selectedField = some field)
    (row : form.item < field.rows) (cells : form.cell = 0 ∨ form.cell = 1 ∧ isPairs field = true) :
    form.resetCursor.CaretInside := by
  refine (caretInside_iff _).mpr ⟨field, selected, row, cells, ?_⟩
  show charCount form.activeText ≤ _
  unfold activeText
  rw [selected]
  rfl

/-- The selected field is replaced and the caret moved within it. -/
theorem setField_inside (selected : form.selectedField = some field) {new : Field}
    (inside : new.Inside item cell cursor) :
    ({ form.setField new with item := item, cell := cell, cursor := cursor } : Form).CaretInside :=
  (caretInside_iff _).mpr ⟨new, setField_selectedField selected new, inside⟩

/-- The caret is moved within the selected field. -/
theorem move_inside (selected : form.selectedField = some field)
    (inside : field.Inside item cell cursor) :
    ({ form with item := item, cell := cell, cursor := cursor } : Form).CaretInside :=
  (caretInside_iff _).mpr ⟨field, selected, inside⟩

theorem rows_pos (field : Field) : 0 < field.rows := by
  unfold Field.rows
  split
  · exact Nat.succ_pos _
  · exact Nat.succ_pos _
  · exact Nat.one_pos

theorem leaveField_length (form : Form) : form.leaveField.fields.length = form.fields.length := by
  unfold leaveField setField
  split
  · exact List.length_set
  · rfl

/-- A field is selected at its row. -/
theorem select_inside (form : Form) {selected : Nat} (bound : selected < form.fields.length)
    (row : item < form.rowsIn selected) :
    ({ form with selected := selected, item := item, cell := 0 } : Form).resetCursor.CaretInside :=
  by
  have found := List.getElem?_eq_getElem bound
  unfold rowsIn at row
  rw [found] at row
  have start : ({ form with selected := selected, item := item, cell := 0 } : Form).selectedField =
      some form.fields[selected] := found
  exact resetCursor_inside start row (.inl rfl)

theorem rowsIn_pos (form : Form) (index : Nat) : 0 < form.rowsIn index := by
  unfold rowsIn
  split
  · exact rows_pos _
  · exact Nat.one_pos

theorem selectNext_inside (inside : form.CaretInside) :
    ∃ next, form.selectNext = some next ∧ next.CaretInside := by
  have some_field : form.fields.isEmpty = false :=
    List.isEmpty_eq_false_iff.mpr (List.ne_nil_of_length_pos (Nat.zero_lt_of_lt inside.selected))
  simp only [selectNext, some_field, Bool.false_eq_true, if_false]
  split
  · rename_i more
    exact ⟨_, rfl, select_inside form inside.selected more⟩
  · have count := leaveField_length form
    have filled : form.leaveField.fields.length ≠ 0 := by
      have bound := inside.selected
      omega
    rw [if_neg filled]
    exact ⟨_, rfl, select_inside form.leaveField
      (Nat.mod_lt _ (Nat.pos_of_ne_zero filled)) (rowsIn_pos _ _)⟩

theorem selectPrevious_inside (inside : form.CaretInside) :
    ∃ next, form.selectPrevious = some next ∧ next.CaretInside := by
  have some_field : form.fields.isEmpty = false :=
    List.isEmpty_eq_false_iff.mpr (List.ne_nil_of_length_pos (Nat.zero_lt_of_lt inside.selected))
  simp only [selectPrevious, some_field, Bool.false_eq_true, if_false]
  split
  · exact ⟨_, rfl, select_inside form inside.selected
      (Nat.lt_of_le_of_lt (Nat.sub_le _ _) inside.item)⟩
  · have count := leaveField_length form
    have bound := inside.selected
    have filled : form.leaveField.fields.length ≠ 0 := by omega
    have same : form.leaveField.selected = form.selected := by
      unfold leaveField
      split <;> rfl
    rw [if_neg filled]
    refine ⟨_, rfl, select_inside form.leaveField ?_
      (Nat.sub_lt (rowsIn_pos _ _) Nat.one_pos)⟩
    split <;> omega

theorem inPairs_iff : form.inPairs = true ↔
    ∃ field, form.selectedField = some field ∧ isPairs field = true := by
  unfold inPairs
  rw [Option.any_eq_true]

/-- The caret is put at the end of a cell of a pair. -/
theorem selectCell_inside (inside : form.CaretInside) (pairs : form.inPairs = true)
    (cells : cell = 0 ∨ cell = 1) :
    ({ form with cell := cell } : Form).resetCursor.CaretInside := by
  obtain ⟨field, selected, place⟩ := (caretInside_iff form).mp inside
  obtain ⟨other, found, held⟩ := inPairs_iff.mp pairs
  obtain rfl := Option.some.inj (selected.symm.trans found)
  have same : ({ form with cell := cell } : Form).selectedField = some field := selected
  exact resetCursor_inside same place.row
    (cells.imp_right fun value => ⟨value, held⟩)

theorem selectNextCell_inside (inside : form.CaretInside) :
    ∃ next, form.selectNextCell = some next ∧ next.CaretInside := by
  unfold selectNextCell
  split
  · rename_i key
    exact ⟨_, rfl, selectCell_inside inside (Bool.and_eq_true_iff.mp key).1 (.inr rfl)⟩
  · exact selectNext_inside inside

theorem selectPreviousCell_inside (inside : form.CaretInside) :
    ∃ next, form.selectPreviousCell = some next ∧ next.CaretInside := by
  unfold selectPreviousCell
  split
  · rename_i value
    exact ⟨_, rfl, selectCell_inside inside (Bool.and_eq_true_iff.mp value).1 (.inl rfl)⟩
  · obtain ⟨next, moved, within⟩ := selectPrevious_inside inside
    rw [moved, Option.map_some]
    split
    · rename_i pairs
      exact ⟨_, rfl, selectCell_inside within pairs (.inr rfl)⟩
    · exact ⟨_, rfl, within⟩

theorem activeText_eq (selected : form.selectedField = some field) :
    form.activeText = field.rowText form.item form.cell := by
  rw [activeText, selected]
  rfl

theorem inPairs_eq (selected : form.selectedField = some field) :
    form.inPairs = isPairs field := by
  rw [inPairs, selected]
  rfl

theorem cycle_inside (forward : Bool) (inside : form.CaretInside) :
    (form.cycle forward).CaretInside := by
  obtain ⟨field, selected, place⟩ := (caretInside_iff form).mp inside
  unfold cycle
  simp only
  split
  · rename_i end_of_key
    simp only [Bool.and_eq_true, inPairs_eq selected] at end_of_key
    exact move_inside selected ⟨place.row, .inr ⟨rfl, end_of_key.1.1.1⟩, Nat.zero_le _⟩
  · split
    · rename_i start_of_value
      simp only [Bool.and_eq_true] at start_of_value
      exact selectCell_inside inside start_of_value.1.1.1 (.inl rfl)
    · rw [selected]
      simp only
      split
      · exact setField_inside selected ⟨place.row, place.cells, place.caret⟩
      · exact setField_inside selected ⟨place.row, place.cells, place.caret⟩
      · refine move_inside selected ⟨place.row, place.cells, ?_⟩
        rw [activeText_eq selected]
        split
        · exact Nat.min_le_right _ _
        · exact Nat.le_trans (Nat.sub_le _ _) place.caret

theorem moveWord_inside (isAlphanumeric : Char → Bool) (forward : Bool)
    (inside : form.CaretInside) :
    ∃ next, form.moveWord isAlphanumeric forward = some next ∧ next.CaretInside := by
  obtain ⟨field, selected, place⟩ := (caretInside_iff form).mp inside
  have active := activeText_eq selected
  unfold moveWord
  cases found : form.activeText with
  | none => exact ⟨form, rfl, inside⟩
  | some text =>
      have caret := place.caret
      rw [← active, found] at caret
      simp only
      split
      · refine ⟨_, rfl, move_inside selected ⟨place.row, place.cells, ?_⟩⟩
        rw [← active, found]
        exact wordEnd_le _ _ _
      · obtain ⟨start, word, before⟩ := wordStart_le isAlphanumeric text form.cursor
        rw [word]
        refine ⟨_, rfl, move_inside selected ⟨place.row, place.cells, ?_⟩⟩
        rw [← active, found]
        exact Nat.le_trans before caret

theorem isPairs_iff (field : Field) : isPairs field = true ↔ field.kind.storage = .pairs := by
  unfold isPairs
  cases field.kind <;> simp [FieldKind.storage]

/-- What the place of a caret is for a list. -/
theorem inside_items_iff (list : field.kind.storage = .items) : field.Inside item cell cursor ↔
    item ≤ field.items.length ∧ cell = 0 ∧ cursor ≤ charCount field.items[item]? := by
  have single : isPairs field ≠ true := by simp [isPairs_iff, list]
  have rows : field.rows = field.items.length + 1 := by rw [Field.rows, list]
  have text : field.rowText item cell = field.items[item]? := by rw [Field.rowText, list]
  constructor
  · intro place
    have row := place.row
    rw [rows] at row
    refine ⟨Nat.le_of_lt_succ row, ?_, text ▸ place.caret⟩
    exact place.cells.resolve_right fun value => single value.2
  · rintro ⟨row, zero, caret⟩
    exact ⟨rows ▸ Nat.lt_succ_of_le row, .inl zero, text ▸ caret⟩

/-- What the place of a caret is for pairs. -/
theorem inside_pairs_iff (pairs : field.kind.storage = .pairs) : field.Inside item cell cursor ↔
    item ≤ field.pairs.length ∧ (cell = 0 ∨ cell = 1) ∧
      cursor ≤ charCount (field.pairs[item]?.map (cellOf cell)) := by
  have held : isPairs field = true := (isPairs_iff field).mpr pairs
  have rows : field.rows = field.pairs.length + 1 := by rw [Field.rows, pairs]
  have text : field.rowText item cell = field.pairs[item]?.map (cellOf cell) := by
    rw [Field.rowText, pairs]
  constructor
  · intro place
    have row := place.row
    rw [rows] at row
    exact ⟨Nat.le_of_lt_succ row, place.cells.imp_right And.left,
      text ▸ place.caret⟩
  · rintro ⟨row, cells, caret⟩
    exact ⟨rows ▸ Nat.lt_succ_of_le row, cells.imp_right fun value => ⟨value, held⟩,
      text ▸ caret⟩

/-- What the place of a caret is for a single text. -/
theorem inside_text_iff (line : field.kind.storage = .text) : field.Inside item cell cursor ↔
    item = 0 ∧ cell = 0 ∧ cursor ≤ field.text.length := by
  have single : isPairs field ≠ true := by simp [isPairs_iff, line]
  have rows : field.rows = 1 := by rw [Field.rows, line]
  have text : field.rowText item cell = some field.text := by rw [Field.rowText, line]
  constructor
  · intro place
    have caret := place.caret
    rw [text] at caret
    exact ⟨Nat.lt_one_iff.mp (rows ▸ place.row),
      place.cells.resolve_right fun value => single value.2, caret⟩
  · rintro ⟨zero, cell, caret⟩
    refine ⟨rows ▸ Nat.lt_one_iff.mpr zero, .inl cell, ?_⟩
    rw [text]
    exact caret

theorem items_inside (list : field.kind.storage = .items) (row : item ≤ field.items.length)
    (cells : cell = 0) (caret : cursor ≤ charCount field.items[item]?) :
    field.Inside item cell cursor :=
  (inside_items_iff list).mpr ⟨row, cells, caret⟩

theorem pairs_inside (pairs : field.kind.storage = .pairs) (row : item ≤ field.pairs.length)
    (cells : cell = 0 ∨ cell = 1)
    (caret : cursor ≤ charCount (field.pairs[item]?.map (cellOf cell))) :
    field.Inside item cell cursor :=
  (inside_pairs_iff pairs).mpr ⟨row, cells, caret⟩

theorem text_inside (line : field.kind.storage = .text) (row : item = 0) (cells : cell = 0)
    (caret : cursor ≤ field.text.length) : field.Inside item cell cursor :=
  (inside_text_iff line).mpr ⟨row, cells, caret⟩

/-- The characters of a row that has been changed. -/
theorem charCount_set {rows : List Text} (bound : item < rows.length) (text : Text) :
    charCount (rows.set item text)[item]? = text.length := by
  rw [List.getElem?_set_self bound]
  rfl

theorem cellOf_setCell (cell : Nat) (text : Text) (pair : Text × Text) :
    cellOf cell (setCell cell text pair) = text := by
  unfold cellOf setCell
  split <;> rfl

/-- The characters of a cell that has been changed. -/
theorem charCount_setCell {rows : List (Text × Text)} (bound : item < rows.length) (cell : Nat)
    (text : Text) (pair : Text × Text) :
    charCount ((rows.set item (setCell cell text pair))[item]?.map (cellOf cell)) =
      text.length := by
  rw [List.getElem?_set_self bound, Option.map_some, cellOf_setCell]
  rfl

/-- A row is replaced by a text, with the caret within it. -/
theorem setItem_inside (selected : form.selectedField = some field)
    (list : field.kind.storage = .items) {items : List Text} (bound : form.item < items.length)
    (cells : form.cell = 0) {text : Text} (caret : cursor ≤ text.length) :
    ({ form.setField { field with items := items.set form.item text } with
      cursor := cursor } : Form).CaretInside := by
  refine setField_inside selected (items_inside list ?_ cells ?_)
  · rw [List.length_set]
    exact Nat.le_of_lt bound
  · exact Nat.le_trans caret (charCount_set bound text).ge

/-- A cell of a pair is replaced by a text, with the caret within it. -/
theorem setCell_inside (selected : form.selectedField = some field)
    (held : field.kind.storage = .pairs) {pairs : List (Text × Text)}
    (bound : form.item < pairs.length) (cells : form.cell = 0 ∨ form.cell = 1) {text : Text}
    (pair : Text × Text) (caret : cursor ≤ text.length) :
    ({ form.setField { field with pairs := pairs.set form.item (setCell form.cell text pair) } with
      cursor := cursor } : Form).CaretInside := by
  refine setField_inside selected (pairs_inside held ?_ cells ?_)
  · rw [List.length_set]
    exact Nat.le_of_lt bound
  · exact Nat.le_trans caret (charCount_setCell bound form.cell text pair).ge

theorem pushItem_inside (selected : form.selectedField = some field)
    (list : field.kind.storage = .items) (inside : form.CaretInside)
    (place : field.Inside form.item form.cell form.cursor) (c : Char) :
    ∃ next, form.pushItem field c = some next ∧ next.CaretInside := by
  obtain ⟨row, cells, caret⟩ := (inside_items_iff list).mp place
  unfold pushItem
  split
  · exact ⟨form, rfl, inside⟩
  · split
    · split
      · rename_i filled
        exact ⟨_, rfl, move_inside selected (items_inside list filled cells (Nat.le_refl _))⟩
      · exact ⟨form, rfl, inside⟩
    · -- the row typed into exists, the blank one once it has been pushed
      obtain ⟨item, found, within⟩ : ∃ item : Text,
          (if field.items.length ≤ form.item then field.items ++ [[]] else field.items)[form.item]? =
            some item ∧ form.cursor ≤ item.length := by
        split
        · rename_i past
          have blankRow : form.item = field.items.length := Nat.le_antisymm row past
          rw [blankRow] at caret ⊢
          refine ⟨[], by simp, ?_⟩
          simpa [charCount] using caret
        · rename_i filled
          rw [List.getElem?_eq_getElem (Nat.lt_of_not_le filled)] at caret ⊢
          exact ⟨_, rfl, caret⟩
      obtain ⟨bound, _⟩ := List.getElem?_eq_some_iff.mp found
      simp only [found, insert_at_caret, Option.map_some]
      exact ⟨_, rfl, setItem_inside selected list bound cells (insert_length within c)⟩

theorem pushPair_inside (selected : form.selectedField = some field)
    (pairs : field.kind.storage = .pairs) (inside : form.CaretInside)
    (place : field.Inside form.item form.cell form.cursor) (c : Char) :
    ∃ next, form.pushPair field c = some next ∧ next.CaretInside := by
  obtain ⟨row, cells, caret⟩ := (inside_pairs_iff pairs).mp place
  unfold pushPair
  split
  · exact ⟨_, rfl, move_inside selected (pairs_inside pairs row (.inr rfl) (Nat.le_refl _))⟩
  · split
    · split
      · rename_i filled
        exact ⟨_, rfl, move_inside selected
          (pairs_inside pairs filled (.inl rfl) (Nat.le_refl _))⟩
      · exact ⟨form, rfl, inside⟩
    · -- the row typed into exists, the blank one once it has been pushed
      obtain ⟨pair, found, within⟩ : ∃ pair : Text × Text,
          (if field.pairs.length ≤ form.item then field.pairs ++ [([], [])]
            else field.pairs)[form.item]? = some pair ∧
          form.cursor ≤ (cellOf form.cell pair).length := by
        split
        · rename_i past
          have blankRow : form.item = field.pairs.length := Nat.le_antisymm row past
          rw [blankRow] at caret ⊢
          refine ⟨([], []), by simp, ?_⟩
          have start : form.cursor = 0 := by simpa [charCount] using caret
          rw [start]
          exact Nat.zero_le _
        · rename_i filled
          rw [List.getElem?_eq_getElem (Nat.lt_of_not_le filled)] at caret ⊢
          exact ⟨_, rfl, caret⟩
      obtain ⟨bound, _⟩ := List.getElem?_eq_some_iff.mp found
      simp only [found, insert_at_caret, Option.map_some]
      exact ⟨_, rfl, setCell_inside selected pairs bound cells pair (insert_length within c)⟩

theorem pushChar_inside (c : Char) (inside : form.CaretInside) :
    ∃ next, form.pushChar c = some next ∧ next.CaretInside := by
  obtain ⟨field, selected, place⟩ := (caretInside_iff form).mp inside
  unfold pushChar
  rw [selected]
  simp only
  cases storage : field.kind.storage with
  | items => exact pushItem_inside selected storage inside place c
  | pairs => exact pushPair_inside selected storage inside place c
  | text =>
      obtain ⟨row, cells, caret⟩ := (inside_text_iff storage).mp place
      simp only [insert_at_caret, Option.map_some]
      exact ⟨_, rfl, setField_inside selected
        (text_inside storage row cells (insert_length caret c))⟩
  | toggled =>
      simp only
      split
      · exact ⟨_, rfl, setField_inside selected ⟨place.row, place.cells, place.caret⟩⟩
      · exact ⟨form, rfl, inside⟩
  | choice => exact ⟨form, rfl, inside⟩

/-- A row that has become empty is removed, the caret is at the start of the next. -/
theorem removeRow_inside (selected : form.selectedField = some field)
    (list : field.kind.storage = .items) {items : List Text} (bound : form.item < items.length)
    (cells : form.cell = 0) :
    ∃ next, ((removeRow items form.item).map fun items =>
        ({ form.setField { field with items := items } with cursor := 0 } : Form)) = some next ∧
      next.CaretInside := by
  rw [removeRow, if_pos bound, Option.map_some]
  refine ⟨_, rfl, setField_inside selected (items_inside list ?_ cells (Nat.zero_le _))⟩
  rw [List.length_eraseIdx_of_lt bound]
  exact Nat.le_sub_one_of_lt bound

theorem removePair_inside (selected : form.selectedField = some field)
    (held : field.kind.storage = .pairs) {pairs : List (Text × Text)}
    (bound : form.item < pairs.length) :
    ∃ next, ((removeRow pairs form.item).map fun pairs =>
        ({ form.setField { field with pairs := pairs } with cell := 0, cursor := 0 } : Form)) =
          some next ∧ next.CaretInside := by
  rw [removeRow, if_pos bound, Option.map_some]
  refine ⟨_, rfl, setField_inside selected (pairs_inside held ?_ (.inl rfl) (Nat.zero_le _))⟩
  rw [List.length_eraseIdx_of_lt bound]
  exact Nat.le_sub_one_of_lt bound

theorem deleteChar_inside (inside : form.CaretInside) :
    ∃ next, form.deleteChar = some next ∧ next.CaretInside := by
  obtain ⟨field, selected, place⟩ := (caretInside_iff form).mp inside
  unfold deleteChar
  rw [selected]
  simp only
  cases storage : field.kind.storage with
  | items =>
      obtain ⟨row, cells, caret⟩ := (inside_items_iff storage).mp place
      cases found : field.items[form.item]? with
      | none => exact ⟨form, rfl, inside⟩
      | some item =>
          obtain ⟨bound, _⟩ := List.getElem?_eq_some_iff.mp found
          rw [found] at caret
          simp only [deleteAt_eq, Option.bind_some]
          split
          · exact removeRow_inside selected storage (by rwa [List.length_set]) cells
          · exact ⟨_, rfl, setItem_inside selected storage bound cells (delete_length caret)⟩
  | pairs =>
      obtain ⟨row, cells, caret⟩ := (inside_pairs_iff storage).mp place
      cases found : field.pairs[form.item]? with
      | none => exact ⟨form, rfl, inside⟩
      | some pair =>
          obtain ⟨bound, _⟩ := List.getElem?_eq_some_iff.mp found
          rw [found] at caret
          simp only [deleteAt_eq, Option.bind_some]
          split
          · exact removePair_inside selected storage (by rwa [List.length_set])
          · exact ⟨_, rfl, setCell_inside selected storage bound cells pair (delete_length caret)⟩
  | text =>
      obtain ⟨row, cells, caret⟩ := (inside_text_iff storage).mp place
      simp only [deleteAt_eq, Option.map_some]
      exact ⟨_, rfl, setField_inside selected
        (text_inside storage row cells (delete_length caret))⟩
  | toggled => exact ⟨form, rfl, inside⟩
  | choice => exact ⟨form, rfl, inside⟩

/-- The characters left before a caret that has gone back by one. -/
theorem pop_length {text : Text} {before : Nat} (caret : before + 1 ≤ text.length) :
    before ≤ (text.take before ++ text.drop (before + 1)).length :=
  delete_length (Nat.le_of_succ_le caret)

theorem popChar_inside (inside : form.CaretInside) :
    ∃ next, form.popChar = some next ∧ next.CaretInside := by
  obtain ⟨field, selected, place⟩ := (caretInside_iff form).mp inside
  unfold popChar
  rw [selected]
  simp only
  cases storage : field.kind.storage with
  | items =>
      obtain ⟨row, cells, caret⟩ := (inside_items_iff storage).mp place
      cases found : field.items[form.item]? with
      | none =>
          simp only
          cases position : form.item with
          | zero => exact ⟨form, rfl, inside⟩
          | succ above =>
              exact ⟨_, rfl, move_inside selected
                (items_inside storage (by omega) cells (Nat.le_refl _))⟩
      | some item =>
          obtain ⟨bound, _⟩ := List.getElem?_eq_some_iff.mp found
          rw [found] at caret
          simp only
          cases position : form.cursor with
          | zero => exact ⟨form, rfl, inside⟩
          | succ before =>
              rw [position] at caret
              have left := pop_length caret
              simp only [removeChars_eq _ (Nat.le_succ before), Option.bind_some]
              split
              · rename_i emptied
                -- the only character has been removed
                rw [List.isEmpty_iff.mp emptied] at left
                obtain rfl : before = 0 := Nat.le_zero.mp left
                exact removeRow_inside selected storage (by rwa [List.length_set]) cells
              · exact ⟨_, rfl, setItem_inside selected storage bound cells left⟩
  | pairs =>
      obtain ⟨row, cells, caret⟩ := (inside_pairs_iff storage).mp place
      cases found : field.pairs[form.item]? with
      | none =>
          simp only
          cases position : form.item with
          | zero => exact ⟨form, rfl, inside⟩
          | succ above =>
              exact ⟨_, rfl, move_inside selected
                (pairs_inside storage (by omega) (.inr rfl) (Nat.le_refl _))⟩
      | some pair =>
          obtain ⟨bound, _⟩ := List.getElem?_eq_some_iff.mp found
          rw [found] at caret
          simp only
          cases position : form.cursor with
          | zero =>
              simp only
              split
              · refine ⟨_, rfl, move_inside selected (pairs_inside storage row (.inl rfl) ?_)⟩
                rw [found]
                exact Nat.le_refl _
              · exact ⟨form, rfl, inside⟩
          | succ before =>
              rw [position] at caret
              simp only [removeChars_eq _ (Nat.le_succ before), Option.bind_some]
              split
              · exact removePair_inside selected storage (by rwa [List.length_set])
              · exact ⟨_, rfl, setCell_inside selected storage bound cells pair (pop_length caret)⟩
  | text =>
      obtain ⟨row, cells, caret⟩ := (inside_text_iff storage).mp place
      simp only
      cases position : form.cursor with
      | zero => exact ⟨form, rfl, inside⟩
      | succ before =>
          rw [position] at caret
          simp only [removeChars_eq _ (Nat.le_succ before), Option.map_some]
          exact ⟨_, rfl, setField_inside selected
            (text_inside storage row cells (pop_length caret))⟩
  | toggled => exact ⟨form, rfl, inside⟩
  | choice => exact ⟨form, rfl, inside⟩

theorem popChars_inside (count : Nat) (inside : form.CaretInside) :
    ∃ next, popChars count form = some next ∧ next.CaretInside := by
  induction count generalizing form with
  | zero => exact ⟨form, rfl, inside⟩
  | succ count ih =>
      obtain ⟨next, popped, within⟩ := popChar_inside inside
      rw [popChars, popped, Option.bind_some]
      exact ih within

theorem popWord_inside (isAlphanumeric : Char → Bool) (inside : form.CaretInside) :
    ∃ next, form.popWord isAlphanumeric = some next ∧ next.CaretInside := by
  unfold popWord
  cases form.activeText with
  | none =>
      simp only [Option.bind_some, if_true]
      exact popChar_inside inside
  | some text =>
      obtain ⟨start, word, _⟩ := wordStart_le isAlphanumeric text form.cursor
      simp only [word, Option.bind_some]
      split
      · exact popChar_inside inside
      · exact popChars_inside _ inside

theorem edit_inside (isAlphanumeric : Char → Bool) (edit : Edit) (inside : form.CaretInside) :
    ∃ next, form.edit isAlphanumeric edit = some next ∧ next.CaretInside := by
  cases edit with
  | selectNext => exact selectNext_inside inside
  | selectPrevious => exact selectPrevious_inside inside
  | selectNextCell => exact selectNextCell_inside inside
  | selectPreviousCell => exact selectPreviousCell_inside inside
  | cycle forward => exact ⟨_, rfl, cycle_inside forward inside⟩
  | moveWord forward => exact moveWord_inside isAlphanumeric forward inside
  | pushChar c => exact pushChar_inside c inside
  | popChar => exact popChar_inside inside
  | popWord => exact popWord_inside isAlphanumeric inside
  | deleteChar => exact deleteChar_inside inside

/-- The caret of a form that has not been edited. -/
structure AtStart (form : Form) : Prop where
  fields : form.fields ≠ []
  selected : form.selected = 0
  item : form.item = 0
  cursor : form.cursor = 0
  cell : form.cell = 0

theorem AtStart.inside (start : form.AtStart) : form.CaretInside where
  selected := start.selected ▸ List.length_pos_of_ne_nil start.fields
  item := start.item ▸ rowsIn_pos _ _
  cell := .inl start.cell
  cursor := start.cursor ▸ Nat.zero_le _

theorem changeOption_length (key : String) (change : Field → Field) (fields : List Field) :
    (changeOption key change fields).length = fields.length := by
  induction fields with
  | nil => rfl
  | cons field rest ih =>
      unfold changeOption
      split
      · rfl
      · exact congrArg Nat.succ ih

/-- Other fields of the same number do not move the caret. -/
theorem AtStart.withFields (start : form.AtStart) {fields : List Field}
    (same : fields.length = form.fields.length) : ({ form with fields := fields } : Form).AtStart :=
  ⟨List.ne_nil_of_length_pos (same ▸ List.length_pos_of_ne_nil start.fields), start.selected,
    start.item, start.cursor, start.cell⟩

theorem AtStart.fill (start : form.AtStart) (formats : Formats F T) (setup : Setup) :
    (form.fill formats setup).AtStart := by
  cases setup with
  | option key value => exact start.withFields (changeOption_length ..)
  | optionBool key value => exact start.withFields (changeOption_length ..)
  | optionChoice key value => exact start.withFields (changeOption_length ..)
  | pairsOption key rows => exact start.withFields (changeOption_length ..)
  | prefillInput payload =>
      show (form.prefillInput formats payload).AtStart
      unfold prefillInput
      split
      · exact start
      · exact start.withFields (List.length_map _)

theorem AtStart.fills (formats : Formats F T) (setups : List Setup) (start : form.AtStart) :
    (setups.foldl (Form.fill formats) form).AtStart := by
  induction setups generalizing form with
  | nil => exact start
  | cons setup rest ih => exact ih (start.fill formats setup)

theorem new_atStart {formats : Formats F T} {fuel : Nat} {kind : FormKind}
    {schema : Option (Value F)} (created : new formats fuel kind schema = some form) :
    form.AtStart := by
  obtain ⟨fields, _, rfl⟩ := Option.map_eq_some_iff.mp created
  refine ⟨?_, rfl, rfl, rfl, rfl⟩
  show fields ++ optionFields kind ≠ []
  cases kind <;> exact List.append_ne_nil_of_right_ne_nil _ (List.cons_ne_nil _ _)

theorem edits_inside (isAlphanumeric : Char → Bool) (edits : List Edit)
    (inside : form.CaretInside) :
    ∃ edited, edits.foldlM (edit isAlphanumeric) form = some edited ∧ edited.CaretInside := by
  induction edits generalizing form with
  | nil => exact ⟨form, rfl, inside⟩
  | cons first rest ih =>
      obtain ⟨next, taken, within⟩ := edit_inside isAlphanumeric first inside
      obtain ⟨edited, others, final⟩ := ih within
      refine ⟨edited, ?_, final⟩
      rw [List.foldlM_cons, taken]
      exact others

/-- However a new form is filled in and edited, no operation panics, the caret
stays inside the text and the window around it can be shown. -/
theorem form_caret_inside (formats : Formats F T) (fuel : Nat) (kind : FormKind)
    (schema : Option (Value F)) (form : Form) (created : new formats fuel kind schema = some form)
    (setups : List Setup) (edits : List Edit) :
    ∃ edited, form.editing formats setups edits = some edited ∧ edited.CaretInside ∧
      ∀ width, 0 < width → ∃ window,
        caretWindow (edited.activeText.getD []) edited.cursor width = some window := by
  obtain ⟨edited, done, inside⟩ := edits_inside formats.isAlphanumeric edits
    ((new_atStart created).fills formats setups).inside
  refine ⟨edited, done, inside, fun width visible => caretWindow_isSome ?_ visible⟩
  have caret := inside.cursor
  cases active : edited.activeText with
  | none =>
      rw [active] at caret
      exact caret
  | some text =>
      rw [active] at caret
      exact caret

/-- A pair is emptied and the caret goes back to a text of the field before. -/
theorem form_caret_inside_emptied :
    ∃ form edited, new epochFormats 0 .job (none : Option (Value Unit)) = some form ∧
      form.editing epochFormats [.pairsOption "labels" [("é".toList, [])]]
        [.selectNext, .cycle true, .popWord, .selectPrevious, .pushChar '+'] = some edited ∧
      edited.CaretInside := by
  obtain ⟨edited, done, inside, _⟩ := form_caret_inside epochFormats 0 .job none _ rfl
    [.pairsOption "labels" [("é".toList, [])]]
    [.selectNext, .cycle true, .popWord, .selectPrevious, .pushChar '+']
  exact ⟨_, edited, rfl, done, inside⟩

end Form

end Ora.Tui
