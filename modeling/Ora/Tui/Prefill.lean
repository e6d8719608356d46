import Ora.Tui.Payload
import Ora.Tui.Slots

/-!
# Prefilling a form from its payload

Which fields have their value again after a new form has been filled in from
the payload of an edited one.
-/

namespace Ora.Tui

open Ora.Cli (trim isWhitespace)
open Ora.Library

variable {F T : Type}

mutual

/-- A value that is read from its text. -/
def Value.reread (formats : Formats F T) : Value F → Value F
  | .number (.float value) => .number (.float (formats.rereadF64 value))
  | .array values => .array (rereadAll formats values)
  | .object entries => .object (rereadEntries formats entries)
  | .null => .null
  | .bool value => .bool value
  | .number (.int value) => .number (.int value)
  | .string value => .string value

def rereadAll (formats : Formats F T) : List (Value F) → List (Value F)
  | [] => []
  | value :: rest => value.reread formats :: rereadAll formats rest

def rereadEntries (formats : Formats F T) : List (String × Value F) → List (String × Value F)
  | [] => []
  | entry :: rest => rereadEntry formats entry :: rereadEntries formats rest

def rereadEntry (formats : Formats F T) : String × Value F → String × Value F
  | (key, value) => (key, value.reread formats)

end

section Reread

variable {formats : Formats F T}

theorem get_reread (key : String) (value : Value F) :
    (value.reread formats).get key = (value.get key).map (Value.reread formats) := by
  cases value with
  | object entries =>
      rw [Value.reread]
      induction entries with
      | nil => rfl
      | cons entry rest ih =>
          obtain ⟨other, value⟩ := entry
          rw [rereadEntries, rereadEntry]
          by_cases own : other = key
          · simp [Value.get, findKey, own]
          · simpa [Value.get, findKey, own] using ih
  | number number => cases number <;> rfl
  | _ => rfl

theorem valueAt_reread (value : Value F) (path : List String) :
    Form.valueAt (value.reread formats) path =
      (Form.valueAt value path).map (Value.reread formats) := by
  induction path generalizing value with
  | nil => rfl
  | cons key rest ih =>
      rw [valueAt_cons, valueAt_cons, get_reread]
      cases value.get key with
      | none => rfl
      | some child => exact ih child

/-- What is filled in from a value that is read again, if it is no float. -/
theorem applyDefault_reread (field : Field) {value : Value F}
    (noFloat : ∀ float, value ≠ .number (.float float)) :
    applyDefault formats field (some (value.reread formats)) =
      applyDefault formats field (some value) := by
  cases value with
  | number number =>
      cases number with
      | int value => rfl
      | float value => exact absurd rfl (noFloat value)
  | array values =>
      have texts : (rereadAll formats values).filterMap Value.asStr =
          values.filterMap Value.asStr := by
        induction values with
        | nil => rfl
        | cons value rest ih =>
            have same : (value.reread formats).asStr = value.asStr := by
              cases value with
              | number number => cases number <;> rfl
              | _ => rfl
            rw [rereadAll, List.filterMap_cons, List.filterMap_cons, same,
              ih fun float => nofun]
      rw [Value.reread]
      unfold applyDefault
      cases field.kind with
      | list item => simp only [texts]
      | _ => rfl
  | object entries =>
      rw [Value.reread]
      unfold applyDefault
      cases field.kind <;> rfl
  | _ => rfl

end Reread

/-- Numbers and times are read as they were written.  A number is written with
digits at its end, a time as an RFC 3339 timestamp in UTC. -/
structure Formats.Lawful (formats : Formats F T) : Prop where
  f64 : ∀ value, formats.parseF64 (formats.showF64 value) = some (some value)
  f64Start : ∀ value, ∃ c, (formats.showF64 value).head? = some c ∧ (c.isDigit = true ∨ c = '-')
  f64End : ∀ value, ∃ c, (formats.showF64 value).getLast? = some c ∧ c.isDigit = true
  timestamp : ∀ time, formats.parseTimestamp (formats.showTimestamp time) = some time
  timestampStart : ∀ time, ∃ c, (formats.showTimestamp time).head? = some c ∧
    (c.isDigit = true ∨ c = '-')
  timestampEnd : ∀ time, (formats.showTimestamp time).getLast? = some 'Z'

theorem trim_eq (text : Text) : trim text = trimBy isWhitespace text :=
  rfl

theorem isDigit_bounds {c : Char} (digit : c.isDigit = true) : 48 ≤ c.toNat ∧ c.toNat ≤ 57 := by
  simpa [Char.isDigit, UInt32.le_iff_toNat_le] using digit

theorem isWhitespace_of_isDigit {c : Char} (digit : c.isDigit = true) : isWhitespace c = false := by
  have bounds := isDigit_bounds digit
  simp only [isWhitespace, Bool.or_eq_false_iff, Bool.and_eq_false_iff, beq_eq_false_iff_ne,
    decide_eq_false_iff_not]
  omega

theorem isWhitespace_of_start {c : Char} (start : c.isDigit = true ∨ c = '-') :
    isWhitespace c = false := by
  obtain digit | rfl := start
  · exact isWhitespace_of_isDigit digit
  · decide

theorem toLower_ne_of_start {c : Char} (start : c.isDigit = true ∨ c = '-') : c.toLower ≠ 'n' := by
  obtain digit | rfl := start
  · have noUpper : ¬ (c.val ≥ 'A'.val ∧ c.val ≤ 'Z'.val) := by
      intro upper
      have least : 65 ≤ c.toNat := UInt32.le_iff_toNat_le.mp upper.1
      have bounds := isDigit_bounds digit
      omega
    have same : c.toLower = c := dif_neg noUpper
    rw [same]
    rintro rfl
    cases digit
  · decide

theorem trim_showInteger (value : Int) : trim (showInteger value) = showInteger value :=
  (TrimmedBy.of_forall fun _ member => isWhitespace_of_start (mem_showInteger member)).trimBy_eq

theorem parseI64_bounds {text : Text} {value : Int} (read : parseI64 text = some value) :
    i64Min ≤ value ∧ value ≤ i64Max := by
  obtain ⟨_, bounds⟩ := Option.filter_eq_some_iff.mp read
  exact of_decide_eq_true bounds

theorem parseI64_showInteger {text : Text} {value : Int} (read : parseI64 text = some value) :
    parseI64 (showInteger value) = some value := by
  rw [parseI64, parseInteger_showInteger, Option.filter_some,
    if_pos (decide_eq_true (parseI64_bounds read))]

section Lawful

variable {formats : Formats F T} (lawful : formats.Lawful)

include lawful

theorem trim_showF64 (value : F) : trim (formats.showF64 value) = formats.showF64 value := by
  obtain ⟨first, start, digit⟩ := lawful.f64Start value
  obtain ⟨last, ending, final⟩ := lawful.f64End value
  refine TrimmedBy.trimBy_eq ⟨fun c head => ?_, fun c tail => ?_⟩
  · cases start.symm.trans head
    exact isWhitespace_of_start digit
  · cases ending.symm.trans tail
    exact isWhitespace_of_isDigit final

theorem trim_showTimestamp (time : T) :
    trim (formats.showTimestamp time) = formats.showTimestamp time := by
  obtain ⟨first, start, digit⟩ := lawful.timestampStart time
  refine TrimmedBy.trimBy_eq ⟨fun c head => ?_, fun c tail => ?_⟩
  · cases start.symm.trans head
    exact isWhitespace_of_start digit
  · cases (lawful.timestampEnd time).symm.trans tail
    decide

/-- A written time is neither blank nor relative to the current one. -/
theorem parseTime_showTimestamp (now time : T) :
    blank (formats.showTimestamp time) = false ∧
      parseTime formats now (formats.showTimestamp time) = .ok time := by
  obtain ⟨first, start, digit⟩ := lawful.timestampStart time
  cases shown : formats.showTimestamp time with
  | nil =>
      rw [shown] at start
      cases start
  | cons c rest =>
      rw [shown] at start
      cases start
      have trimmed := trim_showTimestamp lawful time
      have read := lawful.timestamp time
      rw [shown] at trimmed read
      have notNow : (first :: rest).map Char.toLower ≠ "now".toList := by
        intro same
        have letter : first.toLower = 'n' := (List.cons.inj same).1
        exact toLower_ne_of_start digit letter
      have notLater : stripPrefix (first :: rest) "+".toList = none := by
        have other : first ≠ '+' := by
          rintro rfl
          simp at digit
        simp [stripPrefix, other.symm]
      refine ⟨by rw [blank, trimmed]; rfl, ?_⟩
      simp only [parseTime, trimmed, if_neg notNow, notLater, read]

end Lawful

section Fields

variable (formats : Formats F T)

/-- Whether a row of a list is a value. -/
def reads (item : ListItemKind) (row : Text) : Bool :=
  !blank row && (listItem formats item (trim row)).isSome

/-- Whether a text is a number that is not finite. -/
def notFinite (text : Text) : Bool :=
  match formats.parseF64 (trim text) with
  | some none => true
  | _ => false

/-- Whether a field is left out of the payload. -/
def Field.leftEmpty (now : T) (field : Field) : Bool :=
  match field.kind with
  | .bool => false
  | .choice choices => decide (choices.length ≤ field.choice)
  | .list item => !field.required && field.items.all fun row => !reads formats item row
  | .integer => (parseI64 (trim field.text)).isNone
  | .number => (formats.parseF64 (trim field.text)).isNone
  | .time => blank field.text || (parseTime formats now field.text).toOption.isNone
  | .pairs => true
  | .text | .cron => blank field.text

/-- What is left empty was empty before, only lists of text have rows, what is not
finite was not finite before, and JSON has the number that is given. -/
structure Field.Refills (now later : T) (fresh field : Field) : Prop where
  empty : field.leftEmpty formats now = true → fresh.leftEmpty formats later = true
  rows : ∀ item, field.kind = .list item → item ≠ .text →
    ∀ row ∈ field.items, reads formats item row = false
  finite : field.kind = .number → notFinite formats field.text = true →
    notFinite formats fresh.text = true
  exactly : field.kind = .number → ∀ value,
    formats.parseF64 (trim field.text) = some (some value) → formats.rereadF64 value = value

variable {formats} {now later : T} {fresh field : Field}

theorem listItems_eq_nil_iff (item : ListItemKind) : field.listItems formats item = [] ↔
    ∀ row ∈ field.items, reads formats item row = false := by
  unfold Field.listItems
  rw [List.filterMap_eq_nil_iff]
  constructor
  · intro unread row member
    by_cases empty : blank row = true
    · rw [reads, empty]
      rfl
    · have kept : trim row ∈ (field.items.map trim).filter fun text => !text.isEmpty := by
        refine List.mem_filter.mpr ⟨List.mem_map_of_mem member, ?_⟩
        rw [Bool.not_eq_true] at empty
        rw [show (trim row).isEmpty = false from empty]
        rfl
      rw [reads, unread _ kept]
      exact Bool.and_false _
  · intro unread text kept
    obtain ⟨mapped, nonempty⟩ := List.mem_filter.mp kept
    obtain ⟨row, member, rfl⟩ := List.mem_map.mp mapped
    have none := unread row member
    rw [reads, blank, nonempty, Bool.true_and] at none
    exact Option.not_isSome_iff_eq_none.mp (Bool.eq_false_iff.mp none)

theorem value_list {item : ListItemKind} (kind : field.kind = .list item) :
    field.value formats now =
      if (field.listItems formats item).isEmpty && !field.required then none
      else some (.array (field.listItems formats item)) := by
  rw [Field.value, kind]

theorem value_eq_none_iff :
    field.value formats now = none ↔ field.leftEmpty formats now = true := by
  cases kind : field.kind with
  | bool => simp [Field.value, Field.leftEmpty, kind]
  | choice choices => simp [Field.value, Field.leftEmpty, kind]
  | list item =>
      have unread : field.listItems formats item = [] ↔
          ∀ row ∈ field.items, reads formats item row = false := listItems_eq_nil_iff item
      simp only [value_list kind, Field.leftEmpty, kind]
      simp [unread, and_comm]
  | integer => simp [Field.value, Field.leftEmpty, kind]
  | number => simp [Field.value, Field.leftEmpty, kind]
  | time =>
      cases empty : blank field.text <;> simp [Field.value, Field.leftEmpty, kind, empty]
  | pairs => simp [Field.value, Field.leftEmpty, kind]
  | text => simp [Field.value, Field.leftEmpty, kind]
  | cron => simp [Field.value, Field.leftEmpty, kind]

theorem restores_bool (kind : fresh.kind = .bool) (toggled : Bool) :
    (applyDefault formats fresh (some (.bool toggled))).value formats later =
      some (.bool toggled) := by
  simp [applyDefault, Field.value, kind]

theorem restores_choice {choices : List Text} (kind : fresh.kind = .choice choices)
    {choice : Text} (member : choice ∈ choices) :
    (applyDefault formats fresh (some (.string choice))).value formats later =
      some (.string choice) := by
  obtain ⟨index, found⟩ : ∃ index, choices.findIdx? (fun other => other == choice) = some index := by
    refine Option.isSome_iff_exists.mp ?_
    rw [List.findIdx?_isSome, List.any_eq_true]
    exact ⟨choice, member, beq_self_eq_true choice⟩
  obtain ⟨bound, equal, _⟩ := List.findIdx?_eq_some_iff_getElem.mp found
  simp only [applyDefault, kind, found, Field.value]
  rw [List.getElem?_eq_getElem bound, beq_iff_eq.mp equal]
  rfl

theorem restores_integer (kind : fresh.kind = .integer) {text : Text} {value : Int}
    (read : parseI64 text = some value) :
    (applyDefault formats fresh (some (.ofInt value))).value formats later =
      some (.ofInt value) := by
  simp only [applyDefault, Value.ofInt, kind, Field.value, Number.show]
  rw [← showInteger_eq, trim_showInteger, parseI64_showInteger read]
  rfl

theorem restores_float (lawful : formats.Lawful) (kind : fresh.kind = .number) (value : F) :
    (applyDefault formats fresh (some (.ofF64 (some value)))).value formats later =
      some (.ofF64 (some value)) := by
  simp only [applyDefault, Value.ofF64, kind, Field.value, Number.show]
  rw [trim_showF64 lawful, lawful.f64]
  rfl

theorem restores_time (lawful : formats.Lawful) (kind : fresh.kind = .time) (time : T) :
    (applyDefault formats fresh (some (.string (formats.showTimestamp time)))).value formats later =
      some (.string (formats.showTimestamp time)) := by
  obtain ⟨written, read⟩ := parseTime_showTimestamp lawful later time
  simp only [applyDefault, kind, Field.value, written, read, Bool.false_eq_true, if_false]
  rfl

theorem restores_text (kind : fresh.kind = .text ∨ fresh.kind = .cron) {text : Text}
    (written : blank text = false) :
    (applyDefault formats fresh (some (.string text))).value formats later =
      some (.string text) := by
  obtain kind | kind := kind <;> simp [applyDefault, kind, Field.value, written]

/-- The rows of a list of texts are its values. -/
theorem listItems_text (field : Field) : field.listItems formats .text =
    ((field.items.map trim).filter fun text => !text.isEmpty).map .string := by
  show List.filterMap (some ∘ Value.string) _ = _
  rw [List.filterMap_eq_map]

/-- Rows that have been trimmed are their own values. -/
theorem listItems_trimmed (trimmed : ∀ row ∈ field.items, trim row = row ∧ row.isEmpty = false) :
    field.listItems formats .text = field.items.map .string := by
  have texts : field.items.map trim = field.items := by
    rw [List.map_congr_left fun row member => (trimmed row member).1, List.map_id']
  have kept : (field.items.filter fun text => !text.isEmpty) = field.items := by
    refine List.filter_eq_self.mpr fun row member => ?_
    rw [(trimmed row member).2]
    rfl
  rw [listItems_text, texts, kept]

/-- A list takes the strings of an array as its rows. -/
theorem value_filled_list {item : ListItemKind} (kind : fresh.kind = .list item)
    (values : List (Value F)) {items : List (Value F)}
    (rows : ({ fresh with items := values.filterMap Value.asStr } : Field).listItems formats item =
      items) :
    (applyDefault formats fresh (some (.array values))).value formats later =
      if items.isEmpty && !fresh.required then none else some (.array items) := by
  have filled : applyDefault formats fresh (some (.array values)) =
      { fresh with items := values.filterMap Value.asStr } := by
    simp only [applyDefault, kind]
  rw [filled, ← rows]
  exact value_list kind

theorem restores_rows (kind : fresh.kind = .list .text) (field : Field)
    (kept : (field.listItems formats .text).isEmpty = true → fresh.required = true) :
    (applyDefault formats fresh (some (.array (field.listItems formats .text)))).value formats later =
      some (.array (field.listItems formats .text)) := by
  have strings : (field.listItems formats .text).filterMap Value.asStr =
      (field.items.map trim).filter fun text => !text.isEmpty := by
    rw [listItems_text, List.filterMap_map]
    exact List.filterMap_some
  have rows : ({ fresh with items := (field.listItems formats .text).filterMap Value.asStr } :
      Field).listItems formats .text = field.listItems formats .text := by
    rw [listItems_trimmed, strings, listItems_text]
    intro row member
    rw [strings] at member
    obtain ⟨mapped, nonempty⟩ := List.mem_filter.mp member
    obtain ⟨typed, _, rfl⟩ := List.mem_map.mp mapped
    exact ⟨trimBy_trimmed.trimBy_eq, by simpa using nonempty⟩
  rw [value_filled_list kind _ rows, if_neg]
  intro dropped
  obtain ⟨empty, optional⟩ := Bool.and_eq_true_iff.mp dropped
  rw [kept empty] at optional
  cases optional

/-- Values that are no strings are not filled in. -/
theorem asStr_listItem {item : ListItemKind} (other : item ≠ .text) {row : Text} {value : Value F}
    (read : listItem formats item row = some value) : value.asStr = none := by
  cases item with
  | text => exact absurd rfl other
  | integer =>
      obtain ⟨_, _, rfl⟩ := Option.map_eq_some_iff.mp read
      rfl
  | number =>
      obtain ⟨number, _, rfl⟩ := Option.map_eq_some_iff.mp read
      cases number <;> rfl
  | bool =>
      obtain ⟨_, _, rfl⟩ := Option.map_eq_some_iff.mp read
      rfl

theorem restores_values_iff {item : ListItemKind} (kind : fresh.kind = .list item)
    (other : item ≠ .text) (field : Field)
    (kept : (field.listItems formats item).isEmpty = true → fresh.required = true) :
    (applyDefault formats fresh (some (.array (field.listItems formats item)))).value formats later =
      some (.array (field.listItems formats item)) ↔ field.listItems formats item = [] := by
  have strings : (field.listItems formats item).filterMap Value.asStr = [] := by
    rw [List.filterMap_eq_nil_iff]
    intro value member
    obtain ⟨row, _, read⟩ := List.mem_filterMap.mp member
    exact asStr_listItem other read
  have rows : ({ fresh with items := (field.listItems formats item).filterMap Value.asStr } :
      Field).listItems formats item = [] := by
    rw [strings]
    rfl
  rw [value_filled_list kind _ rows]
  constructor
  · intro same
    split at same
    · cases same
    · exact (Value.array.inj (Option.some.inj same)).symm
  · intro empty
    rw [empty, kept (by rw [empty]; rfl)]
    rfl

/-- A value that is filled in is restored, but for lists and numbers. -/
theorem Field.Refills.of_value (filled : field.leftEmpty formats now = false)
    (noList : ∀ item, field.kind ≠ .list item) (noNumber : field.kind ≠ .number) :
    fresh.Refills formats now later field where
  empty left := absurd (filled.symm.trans left) Bool.false_ne_true
  rows item kind := absurd kind (noList item)
  finite kind := absurd kind noNumber
  exactly kind := absurd kind noNumber

/-- A field that was left out is filled in with nothing. -/
theorem refills_empty_iff (left : field.value formats now = none) :
    fresh.value formats later = none ↔ fresh.Refills formats now later field := by
  have empty := value_eq_none_iff.mp left
  rw [value_eq_none_iff]
  constructor
  · intro unset
    refine ⟨fun _ => unset, fun item kind _ => ?_, fun kind infinite => ?_, fun kind value read => ?_⟩
    · simp only [Field.leftEmpty, kind, Bool.and_eq_true, List.all_eq_true] at empty
      intro row member
      simpa using empty.2 row member
    · simp only [Field.leftEmpty, kind, Option.isNone_iff_eq_none] at empty
      rw [notFinite, empty] at infinite
      cases infinite
    · simp only [Field.leftEmpty, kind, Option.isNone_iff_eq_none] at empty
      rw [empty] at read
      cases read
  · intro refills
    exact refills.empty empty

/-- A number is filled in as it is read from JSON.  One that is not finite is `null`,
which is not filled in. -/
theorem refills_number_iff (lawful : formats.Lawful) (kind : fresh.kind = .number)
    (editor : field.kind = .number) {number : Option F}
    (read : formats.parseF64 (trim field.text) = some number) :
    (applyDefault formats fresh (some ((Value.ofF64 number).reread formats))).value formats later =
      some (.ofF64 number) ↔ fresh.Refills formats now later field := by
  have given : field.leftEmpty formats now = false := by
    simp [Field.leftEmpty, editor, read]
  have filledIn : field.leftEmpty formats now = true → fresh.leftEmpty formats later = true :=
    fun left => absurd (given.symm.trans left) Bool.false_ne_true
  have noRows : ∀ item, field.kind = .list item → item ≠ .text →
      ∀ row ∈ field.items, reads formats item row = false := by
    intro item list
    rw [editor] at list
    cases list
  cases number with
  | some value =>
      have filled : (applyDefault formats fresh
          (some ((Value.ofF64 (some value)).reread formats))).value formats later =
            some (.ofF64 (some (formats.rereadF64 value))) :=
        restores_float lawful kind (formats.rereadF64 value)
      rw [filled]
      constructor
      · intro same
        simp only [Value.ofF64, Option.some.injEq, Value.number.injEq, Number.float.injEq] at same
        refine ⟨filledIn, noRows, fun _ infinite => ?_, fun _ other found => ?_⟩
        · rw [notFinite, read] at infinite
          cases infinite
        · rw [read] at found
          cases found
          exact same
      · exact fun refills => by rw [refills.exactly editor value read]
  | none =>
      have ignored : applyDefault formats fresh (some ((Value.ofF64 none).reread formats)) =
          fresh := by
        simp [applyDefault, Value.ofF64, Value.reread, kind]
      have null : fresh.value formats later = some (.ofF64 none) ↔
          notFinite formats fresh.text = true := by
        simp only [Field.value, kind, notFinite]
        cases formats.parseF64 (trim fresh.text) with
        | none => simp
        | some other => cases other <;> simp [Value.ofF64]
      rw [ignored, null]
      constructor
      · intro infinite
        refine ⟨filledIn, noRows, fun _ _ => infinite, fun _ other found => ?_⟩
        rw [read] at found
        cases found
      · intro refills
        refine refills.finite editor ?_
        rw [notFinite, read]

/-- Only the rows of lists of texts are filled in. -/
theorem refills_list_iff {item : ListItemKind} (kind : fresh.kind = .list item)
    (editor : field.kind = .list item) (filled : field.leftEmpty formats now = false)
    (kept : (field.listItems formats item).isEmpty = true → fresh.required = true) :
    (applyDefault formats fresh (some (.array (field.listItems formats item)))).value formats later =
      some (.array (field.listItems formats item)) ↔ fresh.Refills formats now later field := by
  have noNumber : field.kind ≠ .number := by
    rw [editor]
    exact FieldKind.noConfusion
  have filledIn : field.leftEmpty formats now = true → fresh.leftEmpty formats later = true :=
    fun left => absurd (filled.symm.trans left) Bool.false_ne_true
  by_cases texts : item = .text
  · subst texts
    refine iff_of_true (restores_rows kind field kept)
      ⟨filledIn, fun item list other => ?_, fun number => absurd number noNumber,
        fun number => absurd number noNumber⟩
    cases editor.symm.trans list
    exact absurd rfl other
  · rw [restores_values_iff kind texts field kept, listItems_eq_nil_iff]
    constructor
    · refine fun unread => ⟨filledIn, fun other list _ => ?_, fun number => absurd number noNumber,
        fun number => absurd number noNumber⟩
      cases editor.symm.trans list
      exact unread
    · exact fun refills => refills.rows item editor texts

/-- The fields that have their value again whatever it is. -/
theorem restores_plain (lawful : formats.Lawful) (kind : fresh.kind = field.kind)
    (noList : ∀ item, field.kind ≠ .list item) (noNumber : field.kind ≠ .number)
    {given : Value F} (value : field.value formats now = some given) :
    (applyDefault formats fresh (some given)).value formats later = some given := by
  cases editor : field.kind with
  | bool =>
      simp only [Field.value, editor] at value
      cases value
      exact restores_bool (kind.trans editor) field.toggled
  | choice choices =>
      simp only [Field.value, editor] at value
      obtain ⟨choice, chosen, rfl⟩ := Option.map_eq_some_iff.mp value
      exact restores_choice (kind.trans editor) (List.mem_of_getElem? chosen)
  | integer =>
      simp only [Field.value, editor] at value
      obtain ⟨number, read, rfl⟩ := Option.map_eq_some_iff.mp value
      exact restores_integer (kind.trans editor) read
  | time =>
      simp only [Field.value, editor] at value
      split at value
      · cases value
      · obtain ⟨time, _, rfl⟩ := Option.map_eq_some_iff.mp value
        exact restores_time lawful (kind.trans editor) time
  | text =>
      simp only [Field.value, editor] at value
      split at value
      · cases value
      · rename_i written
        cases value
        exact restores_text (.inl (kind.trans editor)) (Bool.eq_false_iff.mpr written)
  | cron =>
      simp only [Field.value, editor] at value
      split at value
      · cases value
      · rename_i written
        cases value
        exact restores_text (.inr (kind.trans editor)) (Bool.eq_false_iff.mpr written)
  | pairs =>
      simp only [Field.value, editor] at value
      cases value
  | number => exact absurd editor noNumber
  | list item => exact absurd editor (noList item)

theorem value_ne_float {given : Value F} (noNumber : field.kind ≠ .number)
    (value : field.value formats now = some given) (float : F) : given ≠ .number (.float float) := by
  rintro rfl
  unfold Field.value at value
  split at value <;> simp_all [Value.ofInt]

/-- A field of a new form has its value again exactly if it refills. -/
theorem refills_iff (lawful : formats.Lawful) (kind : fresh.kind = field.kind)
    (required : fresh.required = field.required) :
    (applyDefault formats fresh ((field.value formats now).map (Value.reread formats))).value
        formats later = field.value formats now ↔ fresh.Refills formats now later field := by
  cases value : field.value formats now with
  | none => exact refills_empty_iff value
  | some given =>
      have filled : field.leftEmpty formats now = false := by
        rw [Bool.eq_false_iff]
        intro empty
        rw [value_eq_none_iff.mpr empty] at value
        cases value
      rw [Option.map_some]
      by_cases editor : field.kind = .number
      · simp only [Field.value, editor] at value
        obtain ⟨number, read, rfl⟩ := Option.map_eq_some_iff.mp value
        exact refills_number_iff lawful (kind.trans editor) editor read
      rw [applyDefault_reread fresh (value_ne_float editor value)]
      cases list : field.kind with
      | list item =>
          rw [value_list list] at value
          split at value
          · cases value
          · rename_i kept
            cases value
            refine refills_list_iff (kind.trans list) list filled fun empty => ?_
            rw [empty, Bool.true_and, ← required] at kept
            simpa using kept
      | _ =>
          have noList : ∀ item, field.kind ≠ .list item := by simp [list]
          exact iff_of_true (restores_plain lawful kind noList editor value)
            (.of_value filled noList editor)

end Fields

theorem slot_eq_iff {fresh field : Field} : fresh.slot = field.slot ↔
    fresh.path = field.path ∧ fresh.required = field.required ∧
      fresh.inSection = field.inSection ∧ fresh.kind = field.kind := by
  simp [Field.slot, Field.empty]

theorem Separate.of_paths {fields others : List Field} (separate : Separate fields)
    (same : fields.map Field.path = others.map Field.path) : Separate others := by
  constructor
  · intro field member
    have path : field.path ∈ fields.map Field.path := same ▸ List.mem_map_of_mem member
    obtain ⟨twin, found, equal⟩ := List.mem_map.mp path
    exact equal ▸ separate.nonempty twin found
  · have apart : (fields.map Field.path).Pairwise Apart := List.pairwise_map.mpr separate.apart
    rw [same] at apart
    exact List.pairwise_map.mp apart

/-- The input fields of a new form are those of the schema. -/
theorem new_separate {formats : Formats F T} {fuel : Nat} {kind : FormKind}
    {schema : Option (Value F)} {form : Form}
    (opened : Form.new formats fuel kind schema = some form) : Separate form.inputs := by
  obtain ⟨fields, found, rfl⟩ := Option.map_eq_some_iff.mp opened
  have collected : Collected [] fields := by
    cases schema with
    | none =>
        cases found
        exact collected_nil
    | some schema => exact collectFields_collected formats schema fuel found
  have options : (optionFields kind).filter isInput = [] := by
    cases kind <;> rfl
  have inputs : (fields ++ optionFields kind).filter isInput = fields.filter isInput := by
    rw [List.filter_append, options, List.append_nil]
  rw [Form.inputs, inputs]
  constructor
  · intro field member
    obtain ⟨key, rest, path⟩ := collected.below field (List.mem_of_mem_filter member)
    rw [path]
    exact List.cons_ne_nil _ _
  · exact collected.apart.filter isInput

theorem inputs_slots {form other : Form} (same : form.slots = other.slots) :
    List.Forall₂ (fun fresh field : Field => fresh.slot = field.slot) form.inputs other.inputs := by
  have fields : List.Forall₂ (fun fresh field : Field => fresh.slot = field.slot)
      form.fields other.fields := by
    rw [← List.forall₂_map_right_iff, ← List.forall₂_map_left_iff, List.forall₂_eq_eq_eq]
    exact same
  refine List.rel_filter (fun fresh field slots => ?_) fields
  show isInput fresh = true ↔ isInput field = true
  unfold isInput
  rw [(slot_eq_iff.mp slots).2.2.1]

theorem inputs_paths {form other : Form} (same : form.slots = other.slots) :
    form.inputs.map Field.path = other.inputs.map Field.path := by
  rw [← List.forall₂_eq_eq_eq, List.forall₂_map_left_iff, List.forall₂_map_right_iff]
  exact (inputs_slots same).imp fun _ _ slots => (slot_eq_iff.mp slots).1

/-- The input fields of a form that is filled in from a payload. -/
theorem prefillInput_inputs {formats : Formats F T} {text : Text} {payload : Value F}
    (read : formats.readJson text = some (payload.reread formats)) (form : Form) :
    (form.prefillInput formats text).inputs = form.inputs.map fun field =>
      applyDefault formats field ((Form.valueAt payload field.path).map (Value.reread formats)) := by
  have filled : (form.prefillInput formats text).fields = form.fields.map fun field =>
      if field.inSection = .input then
        applyDefault formats field ((Form.valueAt payload field.path).map (Value.reread formats))
      else
        field := by
    simp only [Form.prefillInput, read, valueAt_reread]
  rw [Form.inputs, filled, List.filter_map]
  have kept : form.fields.filter (isInput ∘ fun field =>
      if field.inSection = .input then
        applyDefault formats field ((Form.valueAt payload field.path).map (Value.reread formats))
      else
        field) = form.fields.filter isInput := by
    refine List.filter_congr fun field _ => ?_
    rw [Function.comp_apply]
    split
    · unfold isInput
      rw [(slot_eq_iff.mp (applyDefault_slot ..)).2.2.1]
    · rfl
  rw [kept]
  refine List.map_congr_left fun field member => if_pos ?_
  simpa [isInput] using List.of_mem_filter member

/-- Every input field of a form has its value again once a new form is filled in. -/
def Form.Refillable (formats : Formats F T) (now later : List String → T) (fresh edited : Form) :
    Prop :=
  ∀ pair ∈ fresh.inputs.zip edited.inputs,
    pair.1.Refills formats (now pair.2.path) (later pair.2.path) pair.2

section Payloads

variable {formats : Formats F T} {now later : List String → T} {fresh edited : Form}
  {payload : Value F}

/-- A field of the filled form has the value of the field in the payload exactly if it refills. -/
theorem refilled_iff (lawful : formats.Lawful) (same : fresh.slots = edited.slots)
    (values : ∀ field ∈ edited.inputs,
      Form.valueAt payload field.path = field.value formats (now field.path))
    {pair : Field × Field} (member : pair ∈ fresh.inputs.zip edited.inputs) :
    (applyDefault formats pair.1
        ((Form.valueAt payload pair.1.path).map (Value.reread formats))).value formats
          (later pair.2.path) = pair.2.value formats (now pair.2.path) ↔
      pair.1.Refills formats (now pair.2.path) (later pair.2.path) pair.2 := by
  obtain ⟨path, required, _, kind⟩ := slot_eq_iff.mp
    ((List.forall₂_iff_zip.mp (inputs_slots same)).2 member)
  rw [path, values pair.2 (List.of_mem_zip member).2]
  exact refills_iff lawful kind required

/-- A filled field keeps its path. -/
theorem filled_path (formats : Formats F T) (field : Field) (default : Option (Value F)) :
    (applyDefault formats field default).path = field.path :=
  (slot_eq_iff.mp (applyDefault_slot formats field default)).1

/-- The payload of the filled form is the one it was filled from if every field refills. -/
theorem payload_of_refillable (lawful : formats.Lawful) (same : fresh.slots = edited.slots)
    (built : edited.payload formats now = some payload)
    (values : ∀ field ∈ edited.inputs,
      Form.valueAt payload field.path = field.value formats (now field.path))
    (refillable : fresh.Refillable formats now later edited) {text : Text}
    (read : formats.readJson text = some (payload.reread formats)) :
    (fresh.prefillInput formats text).payload formats later = some payload := by
  rw [← built]
  refine insertFields_congr ?_ _
  rw [prefillInput_inputs read, List.forall₂_map_left_iff]
  have paired := List.forall₂_iff_zip.mp (inputs_slots same)
  refine List.forall₂_iff_zip.mpr ⟨paired.1, fun {first second} member => ?_⟩
  have path : first.path = second.path := (slot_eq_iff.mp (paired.2 member)).1
  refine ⟨(filled_path ..).trans path, ?_⟩
  rw [filled_path, path]
  have restored := (refilled_iff lawful same values member).mpr (refillable _ member)
  rwa [path] at restored

/-- A field that does not refill has another value in the payload of the filled form. -/
theorem valueAt_ne_of_not_refills (lawful : formats.Lawful) (same : fresh.slots = edited.slots)
    (values : ∀ field ∈ edited.inputs,
      Form.valueAt payload field.path = field.value formats (now field.path))
    {text : Text} (read : formats.readJson text = some (payload.reread formats)) {again : Value F}
    (restored : ∀ field ∈ (fresh.prefillInput formats text).inputs,
      Form.valueAt again field.path = field.value formats (later field.path))
    {pair : Field × Field} (member : pair ∈ fresh.inputs.zip edited.inputs)
    (lost : ¬ pair.1.Refills formats (now pair.2.path) (later pair.2.path) pair.2) :
    Form.valueAt again pair.2.path ≠ Form.valueAt payload pair.2.path := by
  obtain ⟨first, second⟩ := List.of_mem_zip member
  have path : pair.1.path = pair.2.path :=
    (slot_eq_iff.mp ((List.forall₂_iff_zip.mp (inputs_slots same)).2 member)).1
  have filled := restored
    (applyDefault formats pair.1 ((Form.valueAt payload pair.1.path).map (Value.reread formats)))
    (by rw [prefillInput_inputs read]; exact List.mem_map_of_mem first)
  rw [filled_path, path] at filled
  intro equal
  refine lost ((refilled_iff lawful same values member).mp ?_)
  rw [path]
  exact filled.symm.trans (equal.trans (values pair.2 second))

end Payloads

/-- However a new form is edited, its payload is that of another new form which is
filled in from its text if and only if every field refills, otherwise they differ
in a value. -/
theorem prefill_restores_payload (formats : Formats F T) (lawful : formats.Lawful) (fuel : Nat)
    (kind : FormKind) (schema : Option (Value F)) (fresh edited : Form)
    (opened : Form.new formats fuel kind schema = some fresh) (setups : List Form.Setup)
    (edits : List Form.Edit) (reached : fresh.editing formats setups edits = some edited)
    (now later : List String → T) :
    ∃ payload, edited.payload formats now = some payload ∧
      ∀ text, formats.readJson text = some (payload.reread formats) →
        ∃ again, (fresh.prefillInput formats text).payload formats later = some again ∧
          (again = payload ↔ fresh.Refillable formats now later edited) ∧
          (again ≠ payload → ∃ path, Form.valueAt again path ≠ Form.valueAt payload path) := by
  have same : fresh.slots = edited.slots := (Form.editing_slots reached).symm
  have separate := new_separate opened
  obtain ⟨payload, built, values⟩ := edited.payload_values formats now
    (separate.of_paths (inputs_paths same))
  refine ⟨payload, built, fun text read => ?_⟩
  have filledSame := Form.prefillInput_slots formats fresh text
  obtain ⟨again, rebuilt, restored⟩ := (fresh.prefillInput formats text).payload_values formats later
    (separate.of_paths (inputs_paths filledSame.symm))
  have differs : ¬ fresh.Refillable formats now later edited →
      ∃ path, Form.valueAt again path ≠ Form.valueAt payload path := by
    intro fails
    obtain ⟨pair, fails⟩ := not_forall.mp fails
    obtain ⟨member, lost⟩ := Classical.not_imp.mp fails
    exact ⟨_, valueAt_ne_of_not_refills lawful same values read restored member lost⟩
  have equal : fresh.Refillable formats now later edited → again = payload := by
    intro refillable
    have whole := payload_of_refillable lawful same built values refillable read
    exact Option.some.inj (rebuilt.symm.trans whole)
  refine ⟨again, rebuilt, ⟨fun whole => ?_, equal⟩, fun lost => differs fun refillable =>
    lost (equal refillable)⟩
  by_contra fails
  obtain ⟨path, other⟩ := differs fails
  exact other (whole ▸ rfl)

/-- The formats where one more text is JSON. -/
def Formats.reading (formats : Formats F T) (text : Text) (value : Value F) : Formats F T :=
  { formats with readJson := fun other => if other = text then some value else none }

theorem epochFormats_lawful (text : Text) (value : Value Unit) :
    (epochFormats.reading text value).Lawful where
  f64 _ := rfl
  f64Start _ := ⟨'1', rfl, .inl rfl⟩
  f64End _ := ⟨'5', rfl, rfl⟩
  timestamp _ := rfl
  timestampStart _ := ⟨'1', rfl, .inl rfl⟩
  timestampEnd _ := rfl

/-- A schema of one property. -/
def propertySchema (name : String) (property : Value Unit) : Value Unit :=
  .object [("properties", .object [(name, property)])]

/-- A schema with a text `name`. -/
def nameSchema : Value Unit :=
  propertySchema "name" (.object [("type", .string "string".toList)])

def namePayload : Value Unit :=
  .object [("name", .string ['a'])]

def nameFormats : Formats Unit Unit :=
  epochFormats.reading "\x7b\x22name\x22:\x22a\x22\x7d".toList namePayload

/-- A text is typed into a form and there again after another one has been filled in. -/
theorem prefill_restores_payload_name :
    ∃ fresh edited, Form.new nameFormats 1 .job (some nameSchema) = some fresh ∧
      fresh.editing nameFormats [] [.pushChar 'a'] = some edited ∧
      edited.payload nameFormats (fun _ => ()) = some namePayload ∧
      (fresh.prefillInput nameFormats "\x7b\x22name\x22:\x22a\x22\x7d".toList).payload
        nameFormats (fun _ => ()) = some namePayload := by
  obtain ⟨payload, built, restored⟩ := prefill_restores_payload nameFormats
    (epochFormats_lawful _ _) 1 .job (some nameSchema) _ _ rfl [] [.pushChar 'a'] rfl
    (fun _ => ()) (fun _ => ())
  cases built
  obtain ⟨again, rebuilt, same, _⟩ := restored "\x7b\x22name\x22:\x22a\x22\x7d".toList rfl
  refine ⟨_, _, rfl, rfl, rfl, rebuilt.trans (congrArg some (same.mpr ?_))⟩
  intro pair member
  cases List.mem_singleton.mp member
  exact .of_value rfl (fun _ => FieldKind.noConfusion) FieldKind.noConfusion

/-- A schema with a list of integers `ids`. -/
def idsSchema : Value Unit :=
  propertySchema "ids" (.object [("type", .string "array".toList),
    ("items", .object [("type", .string "integer".toList)])])

/-- An integer that is typed into a list is lost. -/
theorem prefill_restores_payload_ids :
    ∃ formats : Formats Unit Unit, formats.Lawful ∧ ∃ fresh edited text payload,
      Form.new formats 1 .job (some idsSchema) = some fresh ∧
      fresh.editing formats [] [.pushChar '1'] = some edited ∧
      edited.payload formats (fun _ => ()) = some payload ∧
      formats.readJson text = some payload ∧
      (fresh.prefillInput formats text).payload formats (fun _ => ()) ≠ some payload := by
  refine ⟨_, epochFormats_lawful "\x7b\x22ids\x22:[1]\x7d".toList
    (.object [("ids", .array [.number (.int 1)])]), _, _, "\x7b\x22ids\x22:[1]\x7d".toList, _,
    rfl, rfl, rfl, rfl, ?_⟩
  intro same
  have lost : (some (.object []) : Option (Value Unit)) = _ := same
  cases lost

end Ora.Tui
