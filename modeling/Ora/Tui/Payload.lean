import Ora.Library.Apart
import Ora.Library.Decimal
import Ora.Library.MachineTime
import Ora.Library.Trimmed
import Ora.Tui.Form

/-!
# The payload of a form

`parse_time`, `Field::value` and `Form::payload` of `ora-cli/src/tui/ui/form.rs`.
-/

namespace Ora.Tui

open Ora.Cli (trim)
open Ora.Library

variable {F T : Type}

/-- `str::parse::<i64>` -/
def parseI64 (text : Text) : Option Int :=
  (parseInteger text).filter fun value => decide (i64Min ≤ value ∧ value ≤ i64Max)

/-- `str::parse::<bool>` -/
def parseBool (text : Text) : Option Bool :=
  if text = "true".toList then some true
  else if text = "false".toList then some false
  else none

namespace Value

def ofInt (value : Int) : Value F :=
  .number (.int value)

/-- JSON has no number that is not finite. -/
def ofF64 : Option F → Value F
  | some value => .number (.float value)
  | none => .null

end Value

/-- The longest `jiff::SignedDuration` in nanoseconds. -/
def maxSignedDuration : Nat := 9223372036854775807999999999

/-- Parse a time as typed into a form field. -/
def parseTime (formats : Formats F T) (now : T) (text : Text) : Except Text T :=
  let text := trim text
  if text.map Char.toLower = "now".toList then
    .ok now
  else
    match stripPrefix text "+".toList with
    | some duration =>
        match formats.parseDuration (trim duration) with
        | .error error => .error ("invalid duration: ".toList ++ error)
        | .ok duration =>
            if maxSignedDuration < duration then
              .error "duration is too large".toList
            else
              match formats.checkedAdd now duration with
              | none => .error "time is out of range".toList
              | some time => .ok time
    | none =>
        match formats.parseTimestamp text with
        | some time => .ok time
        | none =>
            match formats.parseDate text with
            | none => .error "use a date, a timestamp, `now` or `+1h`".toList
            | some none => .error "date is out of range".toList
            | some (some time) => .ok time

section Fields

variable (formats : Formats F T)

/-- A trimmed item of a list as a value. -/
def listItem (item : ListItemKind) (text : Text) : Option (Value F) :=
  match item with
  | .text => some (.string text)
  | .integer => (parseI64 text).map .ofInt
  | .number => (formats.parseF64 text).map .ofF64
  | .bool => (parseBool text).map .bool

def Field.listItems (field : Field) (item : ListItemKind) : List (Value F) :=
  ((field.items.map trim).filter fun text => !text.isEmpty).filterMap (listItem formats item)

/-- The value to put in the payload, `none` when the field is empty and may be left out. -/
def Field.value (now : T) (field : Field) : Option (Value F) :=
  match field.kind with
  | .bool => some (.bool field.toggled)
  | .choice choices => choices[field.choice]?.map .string
  | .list item =>
      let items := field.listItems formats item
      if items.isEmpty && !field.required then none else some (.array items)
  | .integer => (parseI64 (trim field.text)).map .ofInt
  | .number => (formats.parseF64 (trim field.text)).map .ofF64
  | .time =>
      if blank field.text then
        none
      else
        (parseTime formats now field.text).toOption.map fun time =>
          .string (formats.showTimestamp time)
  | .pairs => none
  | .text | .cron => if blank field.text then none else some (.string field.text)

end Fields

/-- Put a value at a path, creating the objects along the way.  A parent that is
no object is `none`. -/
def insert (value : Value F) : List String → Value F → Option (Value F)
  | [], root => some root
  | key :: rest, root =>
      match rest, root with
      | [], .object entries => some (.object (Value.put key value entries))
      | [], root => some root
      | _ :: _, .object entries =>
          (insert value rest (((Value.object entries).get key).getD (.object []))).map fun child =>
            .object (Value.put key child entries)
      | _ :: _, _ => none

/-- Put the value of a field in the payload, if it has one. -/
def insertField (root : Value F) (path : List String) (value : Option (Value F)) :
    Option (Value F) :=
  match value with
  | none => some root
  | some value => insert value path root

def isInput (field : Field) : Bool :=
  field.inSection == .input

def Form.inputs (form : Form) : List Field :=
  form.fields.filter isInput

/-- The payload built from the input fields, `now path` is the time when the field
at a path is evaluated. -/
def Form.payload (formats : Formats F T) (now : List String → T) (form : Form) :
    Option (Value F) :=
  form.inputs.foldlM
    (fun root field => insertField root field.path (field.value formats (now field.path)))
    (.object [])

section Paths

variable {key : String} {path other : List String} {value root after : Value F}
  {entries : List (String × Value F)}

theorem get_put (key : String) (value : Value F) (entries : List (String × Value F))
    (other : String) : (Value.object (Value.put key value entries)).get other =
      if key = other then some value else (Value.object entries).get other := by
  induction entries with
  | nil =>
      by_cases same : key = other <;> simp [Value.get, Value.put, findKey, same]
  | cons entry rest ih =>
      by_cases own : entry.1 = key
      · subst own
        by_cases same : entry.1 = other <;> simp [Value.get, Value.put, findKey, same]
      · by_cases same : entry.1 = other
        · have different : other ≠ key := fun equal => own (same.trans equal)
          simp [Value.get, Value.put, findKey, same, different, different.symm]
        · simpa [Value.get, Value.put, findKey, own, same] using ih

theorem valueAt_cons (root : Value F) (key : String) (path : List String) :
    Form.valueAt root (key :: path) = (root.get key).bind fun child => Form.valueAt child path :=
  rfl

theorem valueAt_empty (nonempty : path ≠ []) : Form.valueAt (.object [] : Value F) path = none := by
  cases path with
  | nil => exact absurd rfl nonempty
  | cons key rest => rfl

/-- The nodes above a path are objects, as far as they exist. -/
def Accepts : List String → Value F → Prop
  | [], _ => True
  | key :: rest, root => (∃ entries, root = .object entries) ∧
      (rest ≠ [] → ∀ child, root.get key = some child → Accepts rest child)

theorem accepts_empty (path : List String) : Accepts path (.object [] : Value F) := by
  cases path with
  | nil => trivial
  | cons key rest => exact ⟨⟨[], rfl⟩, fun _ child found => nomatch found⟩

/-- The node that a path is entered through, a new one if there is none. -/
theorem accepts_child {rest : List String} (accepts : Accepts (key :: rest) root) :
    Accepts rest ((root.get key).getD (.object [])) := by
  cases rest with
  | nil => trivial
  | cons next rest =>
      cases found : root.get key with
      | none => exact accepts_empty _
      | some child => exact accepts.2 (List.cons_ne_nil _ _) child found

theorem valueAt_child (root : Value F) {rest : List String} (nonempty : rest ≠ []) :
    Form.valueAt ((root.get key).getD (.object [])) rest = Form.valueAt root (key :: rest) := by
  rw [valueAt_cons]
  cases root.get key with
  | none => exact valueAt_empty nonempty
  | some child => rfl

/-- What one insertion does: the value is at its path, and nothing changes at
the paths apart from it. -/
structure Inserted (value : Value F) (path : List String) (root after : Value F) : Prop where
  found : Form.valueAt after path = some value
  others : ∀ other, Apart path other → Form.valueAt after other = Form.valueAt root other
  accepts : ∀ other, Apart path other → Accepts other root → Accepts other after

theorem inserted_leaf (key : String) (value : Value F) (entries : List (String × Value F)) :
    Inserted value [key] (.object entries) (.object (Value.put key value entries)) := by
  have different : ∀ first rest, Apart [key] (first :: rest) → key ≠ first := by
    rintro first rest apart rfl
    exact apart.before ⟨rest, rfl⟩
  constructor
  · rw [valueAt_cons, get_put, if_pos rfl]
    rfl
  · intro other apart
    cases other with
    | nil => exact absurd rfl apart.symm.ne_nil
    | cons first rest =>
        rw [valueAt_cons, valueAt_cons, get_put, if_neg (different first rest apart)]
  · intro other apart accepts
    cases other with
    | nil => trivial
    | cons first rest =>
        refine ⟨⟨_, rfl⟩, fun deeper child found => accepts.2 deeper child ?_⟩
        rwa [get_put, if_neg (different first rest apart)] at found

theorem inserted_child {rest : List String} {child : Value F}
    (inner : Inserted value rest (((Value.object entries).get key).getD (.object [])) child) :
    Inserted value (key :: rest) (.object entries) (.object (Value.put key child entries)) := by
  constructor
  · rw [valueAt_cons, get_put, if_pos rfl]
    exact inner.found
  · intro other apart
    cases other with
    | nil => exact absurd rfl apart.symm.ne_nil
    | cons first others =>
        by_cases same : key = first
        · subst same
          have below := apart_cons_iff.mp apart
          rw [valueAt_cons, get_put, if_pos rfl, ← valueAt_child _ below.symm.ne_nil]
          exact inner.others others below
        · rw [valueAt_cons, valueAt_cons, get_put, if_neg same]
  · intro other apart accepts
    cases other with
    | nil => trivial
    | cons first others =>
        refine ⟨⟨_, rfl⟩, fun deeper node found => ?_⟩
        by_cases same : key = first
        · subst same
          rw [get_put, if_pos rfl] at found
          cases found
          exact inner.accepts others (apart_cons_iff.mp apart) (accepts_child accepts)
        · rw [get_put, if_neg same] at found
          exact accepts.2 deeper node found

/-- A value is inserted where the nodes above it are objects. -/
theorem insert_inserted (value : Value F) (nonempty : path ≠ []) (accepts : Accepts path root) :
    ∃ after, insert value path root = some after ∧ Inserted value path root after := by
  induction path generalizing root with
  | nil => exact absurd rfl nonempty
  | cons key rest ih =>
      obtain ⟨entries, rfl⟩ := accepts.1
      cases rest with
      | nil => exact ⟨_, rfl, inserted_leaf key value entries⟩
      | cons next rest =>
          obtain ⟨child, done, inner⟩ := ih (List.cons_ne_nil _ _) (accepts_child accepts)
          refine ⟨.object (Value.put key child entries), ?_, inserted_child inner⟩
          rw [insert, done]
          rfl

end Paths

section Fold

variable {value : Field → Option (Value F)} {fields : List Field} {root : Value F}

/-- Fields whose paths are apart can be put in one payload. -/
structure Separate (fields : List Field) : Prop where
  nonempty : ∀ field ∈ fields, field.path ≠ []
  apart : fields.Pairwise fun field other => Apart field.path other.path

/-- The fields are put in the payload one after another, none disturbs another. -/
theorem insertFields_values (value : Field → Option (Value F)) (separate : Separate fields)
    (accepts : ∀ field ∈ fields, Accepts field.path root)
    (absent : ∀ field ∈ fields, Form.valueAt root field.path = none) :
    ∃ after, fields.foldlM (fun root field => insertField root field.path (value field)) root =
        some after ∧
      (∀ field ∈ fields, Form.valueAt after field.path = value field) ∧
      ∀ other, (∀ field ∈ fields, Apart field.path other) →
        Form.valueAt after other = Form.valueAt root other := by
  induction fields generalizing root with
  | nil => exact ⟨root, rfl, fun _ member => (List.not_mem_nil member).elim, fun _ _ => rfl⟩
  | cons first rest ih =>
      obtain ⟨apart, others⟩ := List.pairwise_cons.mp separate.apart
      have later : Separate rest :=
        ⟨fun field member => separate.nonempty field (List.mem_cons_of_mem _ member), others⟩
      obtain ⟨middle, done, found, kept, accepting⟩ : ∃ middle,
          insertField root first.path (value first) = some middle ∧
          Form.valueAt middle first.path = value first ∧
          (∀ other, Apart first.path other →
            Form.valueAt middle other = Form.valueAt root other) ∧
          (∀ other, Apart first.path other → Accepts other root → Accepts other middle) := by
        cases has : value first with
        | none =>
            exact ⟨root, rfl, absent first (List.mem_cons_self ..), fun _ _ => rfl,
              fun _ _ accepting => accepting⟩
        | some content =>
            obtain ⟨middle, done, inserted⟩ := insert_inserted content
              (separate.nonempty first (List.mem_cons_self ..))
              (accepts first (List.mem_cons_self ..))
            exact ⟨middle, done, inserted.found, inserted.others, inserted.accepts⟩
      obtain ⟨after, finished, values, unchanged⟩ := ih later
        (fun field member =>
          accepting _ (apart field member) (accepts field (List.mem_cons_of_mem _ member)))
        (fun field member =>
          (kept _ (apart field member)).trans (absent field (List.mem_cons_of_mem _ member)))
      refine ⟨after, ?_, fun field member => ?_, fun other away => ?_⟩
      · rw [List.foldlM_cons, done]
        exact finished
      · obtain rfl | member := List.mem_cons.mp member
        · exact (unchanged _ fun other member => (apart other member).symm).trans found
        · exact values field member
      · exact (unchanged other fun field member => away field (List.mem_cons_of_mem _ member)).trans
          (kept other (away first (List.mem_cons_self ..)))

/-- A payload is determined by the paths of the fields and their values. -/
theorem insertFields_congr {other : Field → Option (Value F)} {others : List Field}
    (same : List.Forall₂ (fun field twin => field.path = twin.path ∧ value field = other twin)
      fields others) (root : Value F) :
    fields.foldlM (fun root field => insertField root field.path (value field)) root =
      others.foldlM (fun root field => insertField root field.path (other field)) root := by
  induction same generalizing root with
  | nil => rfl
  | cons equal _ ih =>
      rw [List.foldlM_cons, List.foldlM_cons, equal.1, equal.2]
      exact congrArg _ (funext ih)

end Fold

/-- The payload of a form is built without a panic and has the value of each field. -/
theorem Form.payload_values (formats : Formats F T) (now : List String → T) (form : Form)
    (separate : Separate form.inputs) :
    ∃ payload, form.payload formats now = some payload ∧
      ∀ field ∈ form.inputs, Form.valueAt payload field.path =
        field.value formats (now field.path) := by
  obtain ⟨payload, built, values, _⟩ := insertFields_values
    (fun field => field.value formats (now field.path)) separate
    (fun field _ => accepts_empty field.path)
    (fun field member => valueAt_empty (separate.nonempty field member))
  exact ⟨payload, built, values⟩

end Ora.Tui
