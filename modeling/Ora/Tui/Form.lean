import Ora.Library.CharOffsets
import Ora.Tui.Schema

/-!
# The form of the terminal UI

The state and the editing operations of the form of `ora-cli/src/tui/ui/form.rs`.
An operation whose index, slice or range would panic is `none`.
-/

namespace Ora.Tui

open Ora.Library

variable {F T : Type}

/-- Where a field keeps what is edited: one text, a list of rows, rows of two
cells, or a value without a caret. -/
inductive Storage where
  | text
  | items
  | pairs
  | toggled
  | choice
  deriving DecidableEq, Repr

def FieldKind.storage : FieldKind → Storage
  | .text | .integer | .number | .time | .cron => .text
  | .list _ => .items
  | .pairs => .pairs
  | .bool => .toggled
  | .choice _ => .choice

/-- The key or the value of a pair. -/
def cellOf (cell : Nat) (pair : Text × Text) : Text :=
  if cell = 0 then pair.1 else pair.2

def setCell (cell : Nat) (text : Text) (pair : Text × Text) : Text × Text :=
  if cell = 0 then (text, pair.2) else (pair.1, text)

/-- The text of one row, if it holds any. -/
def Field.rowText (field : Field) (item cell : Nat) : Option Text :=
  match field.kind.storage with
  | .items => field.items[item]?
  | .pairs => field.pairs[item]?.map (cellOf cell)
  | .text => some field.text
  | .toggled | .choice => none

/-- A list gets a blank row to type the next value into. -/
def Field.rows (field : Field) : Nat :=
  match field.kind.storage with
  | .items => field.items.length + 1
  | .pairs => field.pairs.length + 1
  | _ => 1

def blank (text : Text) : Bool :=
  (Cli.trim text).isEmpty

/-- The blank rows are dropped. -/
def Field.withoutBlankRows (field : Field) : Field :=
  { field with
    items := field.items.filter fun item => !blank item
    pairs := field.pairs.filter fun pair => !blank pair.1 || !blank pair.2 }

def isPairs (field : Field) : Bool :=
  field.kind == .pairs

/-- The number of characters of a text, if there is one. -/
def charCount (text : Option Text) : Nat :=
  text.elim 0 List.length

/-- The byte offset of a character position. -/
def byteAt (text : Text) (chars : Nat) : Nat :=
  (charIndices 0 text)[chars]?.getD (byteLength text)

section Words

variable (isAlphanumeric : Char → Bool)

/-- `while at > 0 && accepts(chars[at - 1])` -/
def backWhile (accepts : Char → Bool) (chars : Text) : Nat → Option Nat
  | 0 => some 0
  | position + 1 =>
      match chars[position]? with
      | none => none
      | some c => if accepts c then backWhile accepts chars position else some (position + 1)

/-- `while at < chars.len() && accepts(chars[at])` -/
def forwardWhile (accepts : Char → Bool) (chars : Text) (position : Nat) : Nat :=
  position + ((chars.drop position).takeWhile accepts).length

/-- The start of the word before the caret. -/
def wordStart (text : Text) (cursor : Nat) : Option Nat :=
  (backWhile (fun c => !isAlphanumeric c) text (min cursor text.length)).bind
    (backWhile isAlphanumeric text)

/-- The end of the word after the caret. -/
def wordEnd (text : Text) (cursor : Nat) : Nat :=
  forwardWhile isAlphanumeric text
    (forwardWhile (fun c => !isAlphanumeric c) text (min cursor text.length))

end Words

structure Form where
  fields : List Field
  selected : Nat
  /-- The row within the selected field, only lists have more than one. -/
  item : Nat
  /-- Where the caret sits in the text being edited, in characters. -/
  cursor : Nat
  /-- Which cell of a pair row is being edited: 0 is key, 1 is value. -/
  cell : Nat
  deriving Repr

namespace Form

/-- The schema is absent if there is none or it is no JSON. -/
def new (formats : Formats F T) (fuel : Nat) (kind : FormKind) (schema : Option (Value F)) :
    Option Form :=
  (match schema with
    | none => some []
    | some schema => fieldsFromSchema formats fuel schema).map fun fields =>
      ⟨fields ++ optionFields kind, 0, 0, 0, 0⟩

def selectedField (form : Form) : Option Field :=
  form.fields[form.selected]?

/-- The text the caret is in, if the selected row holds any. -/
def activeText (form : Form) : Option Text :=
  form.selectedField.bind fun field => field.rowText form.item form.cell

def resetCursor (form : Form) : Form :=
  { form with cursor := charCount form.activeText }

def rowsIn (form : Form) (index : Nat) : Nat :=
  match form.fields[index]? with
  | some field => field.rows
  | none => 1

def setField (form : Form) (field : Field) : Form :=
  { form with fields := form.fields.set form.selected field }

def leaveField (form : Form) : Form :=
  match form.selectedField with
  | some field => form.setField field.withoutBlankRows
  | none => form

def selectNext (form : Form) : Option Form :=
  if form.fields.isEmpty then
    some form
  else if form.item + 1 < form.rowsIn form.selected then
    some { form with item := form.item + 1, cell := 0 }.resetCursor
  else
    let form := form.leaveField
    if form.fields.length = 0 then
      none
    else
      some { form with
        selected := (form.selected + 1) % form.fields.length
        item := 0
        cell := 0 }.resetCursor

def selectPrevious (form : Form) : Option Form :=
  if form.fields.isEmpty then
    some form
  else if 0 < form.item then
    some { form with item := form.item - 1, cell := 0 }.resetCursor
  else
    let form := form.leaveField
    if form.fields.length = 0 then
      none
    else
      let selected := if form.selected = 0 then form.fields.length - 1 else form.selected - 1
      some { form with
        selected := selected
        item := form.rowsIn selected - 1
        cell := 0 }.resetCursor

/-- Whether the selected field holds pairs. -/
def inPairs (form : Form) : Bool :=
  form.selectedField.any isPairs

def selectNextCell (form : Form) : Option Form :=
  if form.inPairs && form.cell == 0 then
    some { form with cell := 1 }.resetCursor
  else
    form.selectNext

def selectPreviousCell (form : Form) : Option Form :=
  if form.inPairs && form.cell == 1 then
    some { form with cell := 0 }.resetCursor
  else
    form.selectPrevious.map fun form =>
      if form.inPairs then { form with cell := 1 }.resetCursor else form

/-- The choice after or before one of several. -/
def cycleChoice (forward : Bool) (choice count : Nat) : Nat :=
  if forward then
    (choice + 1) % count
  else
    match choice with
    | previous + 1 => previous
    | 0 => count - 1

def cycle (form : Form) (forward : Bool) : Form :=
  let len := charCount form.activeText
  if form.inPairs && forward && form.cell == 0 && len ≤ form.cursor then
    { form with cell := 1, cursor := 0 }
  else if form.inPairs && !forward && form.cell == 1 && form.cursor == 0 then
    { form with cell := 0 }.resetCursor
  else
    match form.selectedField with
    | none => form
    | some field =>
        match field.kind with
        | .bool => form.setField { field with toggled := !field.toggled }
        | .choice (first :: rest) => form.setField
            { field with choice := cycleChoice forward field.choice (first :: rest).length }
        | _ => { form with
            cursor := if forward then min (form.cursor + 1) len else form.cursor - 1 }

def moveWord (isAlphanumeric : Char → Bool) (form : Form) (forward : Bool) : Option Form :=
  match form.activeText with
  | none => some form
  | some text =>
      if forward then
        some { form with cursor := wordEnd isAlphanumeric text form.cursor }
      else
        (wordStart isAlphanumeric text form.cursor).map fun cursor => { form with cursor := cursor }

/-- A character is typed into the row of a list, which may be the blank one. -/
def pushItem (form : Form) (field : Field) (c : Char) : Option Form :=
  if c = '[' || c = ']' || c = '\x22' then
    some form
  else if c = ',' then
    if form.item < field.items.length then
      some { form with
        item := form.item + 1
        cursor := charCount field.items[form.item + 1]? }
    else
      some form
  else
    let items := if field.items.length ≤ form.item then field.items ++ [[]] else field.items
    match items[form.item]? with
    | none => some (form.setField { field with items := items })
    | some item => (insertAtByte item (byteAt item form.cursor) c).map fun item =>
        { form.setField { field with items := items.set form.item item } with
          cursor := form.cursor + 1 }

/-- A character is typed into a cell of a pair. -/
def pushPair (form : Form) (field : Field) (c : Char) : Option Form :=
  if c = '=' && form.cell == 0 then
    some { form with
      cell := 1
      cursor := charCount (field.pairs[form.item]?.map Prod.snd) }
  else if c = ',' then
    if form.item < field.pairs.length then
      some { form with
        item := form.item + 1
        cell := 0
        cursor := charCount (field.pairs[form.item + 1]?.map Prod.fst) }
    else
      some form
  else
    let pairs := if field.pairs.length ≤ form.item then field.pairs ++ [([], [])] else field.pairs
    match pairs[form.item]? with
    | none => some (form.setField { field with pairs := pairs })
    | some pair =>
        let text := cellOf form.cell pair
        (insertAtByte text (byteAt text form.cursor) c).map fun text =>
          { form.setField
              { field with pairs := pairs.set form.item (setCell form.cell text pair) } with
            cursor := form.cursor + 1 }

def pushChar (form : Form) (c : Char) : Option Form :=
  match form.selectedField with
  | none => some form
  | some field =>
      match field.kind.storage with
      | .items => form.pushItem field c
      | .pairs => form.pushPair field c
      | .text => (insertAtByte field.text (byteAt field.text form.cursor) c).map fun text =>
          { form.setField { field with text := text } with cursor := form.cursor + 1 }
      | .toggled =>
          if c = ' ' then
            some (form.setField { field with toggled := !field.toggled })
          else
            some form
      | .choice => some form

/-- The characters between two positions are removed. -/
def removeChars (text : Text) (start stop : Nat) : Option Text :=
  removeBytes text (byteAt text start) (byteAt text stop)

/-- `Vec::remove` -/
def removeRow {α : Type} (rows : List α) (index : Nat) : Option (List α) :=
  if index < rows.length then some (rows.eraseIdx index) else none

/-- The character at a position is removed, if there is one. -/
def deleteAt (text : Text) (cursor : Nat) : Option Text :=
  if byteAt text cursor < byteAt text (cursor + 1) then
    removeChars text cursor (cursor + 1)
  else
    some text

/-- Remove the character the caret sits on. -/
def deleteChar (form : Form) : Option Form :=
  match form.selectedField with
  | none => some form
  | some field =>
      match field.kind.storage with
      | .items =>
          match field.items[form.item]? with
          | none => some form
          | some item => (deleteAt item form.cursor).bind fun item =>
              let items := field.items.set form.item item
              if item.isEmpty then
                (removeRow items form.item).map fun items =>
                  { form.setField { field with items := items } with cursor := 0 }
              else
                some (form.setField { field with items := items })
      | .pairs =>
          match field.pairs[form.item]? with
          | none => some form
          | some pair => (deleteAt (cellOf form.cell pair) form.cursor).bind fun text =>
              let pair := setCell form.cell text pair
              let pairs := field.pairs.set form.item pair
              if pair.1.isEmpty && pair.2.isEmpty then
                (removeRow pairs form.item).map fun pairs =>
                  { form.setField { field with pairs := pairs } with cell := 0, cursor := 0 }
              else
                some (form.setField { field with pairs := pairs })
      | .text => (deleteAt field.text form.cursor).map fun text =>
          form.setField { field with text := text }
      | .toggled | .choice => some form

/-- Remove the character before the caret. -/
def popChar (form : Form) : Option Form :=
  match form.selectedField with
  | none => some form
  | some field =>
      match field.kind.storage with
      | .items =>
          match field.items[form.item]? with
          | none =>
              -- carry on at the end of the row above
              match form.item with
              | above + 1 => some { form with item := above, cursor := charCount field.items[above]? }
              | 0 => some form
          | some item =>
              match form.cursor with
              | 0 => some form
              | before + 1 => (removeChars item before (before + 1)).bind fun item =>
                  let items := field.items.set form.item item
                  if item.isEmpty then
                    (removeRow items form.item).map fun items =>
                      { form.setField { field with items := items } with cursor := before }
                  else
                    some { form.setField { field with items := items } with cursor := before }
      | .pairs =>
          match field.pairs[form.item]? with
          | none =>
              -- carry on at the end of the row above, its value
              match form.item with
              | above + 1 => some { form with
                  item := above
                  cell := 1
                  cursor := charCount (field.pairs[above]?.map Prod.snd) }
              | 0 => some form
          | some pair =>
              match form.cursor with
              | 0 =>
                  if form.cell = 1 then
                    some { form with cell := 0, cursor := pair.1.length }
                  else
                    some form
              | before + 1 =>
                  (removeChars (cellOf form.cell pair) before (before + 1)).bind fun text =>
                    let pair := setCell form.cell text pair
                    let pairs := field.pairs.set form.item pair
                    if pair.1.isEmpty && pair.2.isEmpty then
                      (removeRow pairs form.item).map fun pairs =>
                        { form.setField { field with pairs := pairs } with cell := 0, cursor := 0 }
                    else
                      some { form.setField { field with pairs := pairs } with cursor := before }
      | .text =>
          match form.cursor with
          | 0 => some form
          | before + 1 => (removeChars field.text before (before + 1)).map fun text =>
              { form.setField { field with text := text } with cursor := before }
      | .toggled | .choice => some form

/-- Characters are removed a number of times. -/
def popChars : Nat → Form → Option Form
  | 0, form => some form
  | count + 1, form => form.popChar.bind (popChars count)

/-- Delete back to the start of the word before the caret. -/
def popWord (isAlphanumeric : Char → Bool) (form : Form) : Option Form :=
  (match form.activeText with
    | none => some form.cursor
    | some text => wordStart isAlphanumeric text form.cursor).bind fun target =>
      if target = form.cursor then
        form.popChar
      else
        popChars (form.cursor - target) form

/-- Whether a field is the option with a key. -/
def isOption (key : String) (field : Field) : Bool :=
  field.inSection == .options && field.path.head? == some key

/-- The first option field with a key is changed. -/
def changeOption (key : String) (change : Field → Field) : List Field → List Field
  | [] => []
  | field :: rest =>
      if isOption key field then change field :: rest else field :: changeOption key change rest

def setOption (form : Form) (key : String) (value : Text) : Form :=
  { form with fields := changeOption key (fun field => { field with text := value }) form.fields }

def setOptionBool (form : Form) (key : String) (value : Bool) : Form :=
  { form with fields := changeOption key (fun field => { field with toggled := value }) form.fields }

def setOptionChoice (form : Form) (key : String) (value : Text) : Form :=
  { form with
    fields := changeOption key (fun field =>
      match field.kind with
      | .choice choices =>
          match choices.findIdx? fun choice => choice == value with
          | some index => { field with choice := index }
          | none => field
      | _ => field) form.fields }

def setPairsOption (form : Form) (key : String) (rows : List (Text × Text)) : Form :=
  { form with fields := changeOption key (fun field => { field with pairs := rows }) form.fields }

/-- The value at a path. -/
def valueAt (payload : Value F) (path : List String) : Option (Value F) :=
  path.foldlM (fun node key => node.get key) payload

/-- Fill the input fields from a payload that already exists. -/
def prefillInput (formats : Formats F T) (form : Form) (payload : Text) : Form :=
  match formats.readJson payload with
  | none => form
  | some payload => { form with
      fields := form.fields.map fun field =>
        if field.inSection = .input then
          applyDefault formats field (valueAt payload field.path)
        else
          field }

/-- What may be filled in before the form is edited. -/
inductive Setup where
  | option (key : String) (value : Text)
  | optionBool (key : String) (value : Bool)
  | optionChoice (key : String) (value : Text)
  | pairsOption (key : String) (rows : List (Text × Text))
  | prefillInput (payload : Text)

def fill (formats : Formats F T) (form : Form) : Setup → Form
  | .option key value => form.setOption key value
  | .optionBool key value => form.setOptionBool key value
  | .optionChoice key value => form.setOptionChoice key value
  | .pairsOption key rows => form.setPairsOption key rows
  | .prefillInput payload => form.prefillInput formats payload

inductive Edit where
  | selectNext
  | selectPrevious
  | selectNextCell
  | selectPreviousCell
  | cycle (forward : Bool)
  | moveWord (forward : Bool)
  | pushChar (c : Char)
  | popChar
  | popWord
  | deleteChar

def edit (isAlphanumeric : Char → Bool) (form : Form) : Edit → Option Form
  | .selectNext => form.selectNext
  | .selectPrevious => form.selectPrevious
  | .selectNextCell => form.selectNextCell
  | .selectPreviousCell => form.selectPreviousCell
  | .cycle forward => some (form.cycle forward)
  | .moveWord forward => form.moveWord isAlphanumeric forward
  | .pushChar c => form.pushChar c
  | .popChar => form.popChar
  | .popWord => form.popWord isAlphanumeric
  | .deleteChar => form.deleteChar

/-- A new form that is filled in and then edited, nothing if an edit panics. -/
def editing (formats : Formats F T) (form : Form) (setups : List Setup) (edits : List Edit) :
    Option Form :=
  edits.foldlM (edit formats.isAlphanumeric) (setups.foldl (fill formats) form)

end Form

/-- The formats where there is one number, 1.5, and one time, the Unix epoch. -/
def epochFormats : Formats Unit Unit where
  readJson _ := none
  showJson _ := []
  rereadF64 value := value
  parseF64 text := if text = "1.5".toList then some (some ()) else none
  showF64 _ := "1.5".toList
  parseDuration _ := .error []
  checkedAdd _ _ := none
  parseTimestamp text := if text = "1970-01-01T00:00:00Z".toList then some () else none
  showTimestamp _ := "1970-01-01T00:00:00Z".toList
  parseDate _ := none
  isAlphanumeric := Char.isAlphanum

/-- `chars[start..stop]` -/
def slice (chars : Text) (start stop : Nat) : Option Text :=
  if start ≤ stop ∧ stop ≤ chars.length then some ((chars.take stop).drop start) else none

/-- The text before the caret, at it and after it within a window. -/
structure CaretWindow where
  before : Text
  caret : Char
  after : Text
  shown : Nat
  truncated : Bool
  deriving DecidableEq, Repr

def caretWindow (text : Text) (cursor width : Nat) : Option CaretWindow :=
  let start := cursor + 1 - width
  let stop := min (start + width) text.length
  (slice text start (min cursor stop)).bind fun before =>
    (if cursor < stop then slice text (cursor + 1) stop else some []).map fun after =>
      ⟨before, text[cursor]?.getD ' ', after, before.length + 1 + after.length, decide (0 < start)⟩

end Ora.Tui
