import Ora.Backend.Types
import Ora.Cli.LabelFilters
import Ora.Library.FirstKeys

/-!
# Form fields from input schemas

The fields of `ora-cli/src/tui/ui/form.rs` and how they are derived from a job
type's input schema.  A string is its list of characters.  An object is a list
of entries in order, of which the first one of a key counts.
-/

namespace Ora.Tui

open Ora.Backend (Duration)
open Ora.Cli (trim)
open Ora.Library

/-- The characters of a `String`. -/
abbrev Text := List Char

variable {F T : Type}

/-- A `serde_json::Number`, the floats are finite. -/
inductive Number (F : Type) where
  | int (value : Int)
  | float (value : F)

inductive Value (F : Type) where
  | null
  | bool (value : Bool)
  | number (value : Number F)
  | string (value : Text)
  | array (values : List (Value F))
  | object (entries : List (String × Value F))

namespace Value

def asStr : Value F → Option Text
  | .string value => some value
  | _ => none

def asArray : Value F → Option (List (Value F))
  | .array values => some values
  | _ => none

def asObject : Value F → Option (List (String × Value F))
  | .object entries => some (firstKeys Prod.fst [] entries)
  | _ => none

def get (key : String) : Value F → Option (Value F)
  | .object entries => (findKey Prod.fst entries key).map Prod.snd
  | _ => none

/-- `Map::insert`, the value of an existing key is replaced. -/
def put (key : String) (value : Value F) :
    List (String × Value F) → List (String × Value F)
  | [] => [(key, value)]
  | (other, old) :: rest =>
      if other = key then (other, value) :: rest else (other, old) :: put key value rest

end Value

/-- How values and times are read and written outside of this repository:
`serde_json`, `f64`, `jiff` and `humantime`.  Times of `T` are instants. -/
structure Formats (F T : Type) where
  readJson : Text → Option (Value F)
  showJson : Value F → Text
  /-- A float of a JSON text that it was written to. -/
  rereadF64 : F → F
  /-- A number that is read might not be finite. -/
  parseF64 : Text → Option (Option F)
  showF64 : F → Text
  parseDuration : Text → Except Text Duration
  checkedAdd : T → Duration → Option T
  parseTimestamp : Text → Option T
  showTimestamp : T → Text
  /-- A date, and its start unless that is out of range. -/
  parseDate : Text → Option (Option T)
  isAlphanumeric : Char → Bool

/-- `Number::to_string` -/
def Number.show (formats : Formats F T) : Number F → Text
  | .int value => (toString value).toList
  | .float value => formats.showF64 value

/-- Which part of the form a field belongs to. -/
inductive Section where
  | input
  | options
  deriving DecidableEq, Repr

/-- The scalar type a list field's items parse to. -/
inductive ListItemKind where
  | text
  | integer
  | number
  | bool
  deriving DecidableEq, Repr

/-- The editor a field uses, chosen from its schema. -/
inductive FieldKind where
  | text
  | integer
  | number
  | bool
  | choice (choices : List Text)
  | list (item : ListItemKind)
  | time
  | cron
  | pairs
  deriving DecidableEq, Repr

structure Field where
  path : List String
  required : Bool
  inSection : Section
  kind : FieldKind
  text : Text
  items : List Text
  pairs : List (Text × Text)
  toggled : Bool
  choice : Nat
  deriving DecidableEq, Repr

/-- A field without a value. -/
def Field.empty (path : List String) (required : Bool) (inSection : Section)
    (kind : FieldKind) : Field :=
  ⟨path, required, inSection, kind, [], [], [], false, 0⟩

def Field.option (key : String) (kind : FieldKind) : Field :=
  .empty [key] false .options kind

inductive FormKind where
  | job
  | schedule
  deriving DecidableEq, Repr

/-- The job or schedule options shown below the payload fields. -/
def optionFields (kind : FormKind) : List Field :=
  (match kind with
    | .job => [.option "target" .time]
    | .schedule => [
        .option "cron" .cron,
        .option "interval" .text,
        .option "immediate" .bool,
        .option "missed" (.choice ["skip".toList, "create".toList]),
        .option "start" .time,
        .option "end" .time]) ++
  [ .option "labels" .pairs,
    .option "timeout" .text,
    .option "timeout_base" (.choice ["start".toList, "target".toList]),
    .option "retries" .integer,
    .option "backoff" .text,
    .option "backoff_strategy" (.choice ["fixed".toList, "exponential".toList]),
    .option "max_backoff" .text,
    .option "priority" .integer ]

section Schema

variable (formats : Formats F T) (root : Value F)

/-- A JSON scalar as it is written in a form. -/
def literal : Value F → Text
  | .string text => text
  | other => formats.showJson other

def stripPrefix (text start : Text) : Option Text :=
  if start.isPrefixOf text then some (text.drop start.length) else none

/-- Follow a local `$ref` into `$defs`, keeping the keys that sit next to it. -/
def resolve (node : Value F) : Value F :=
  match (node.get "$ref").bind Value.asStr with
  | none => node
  | some reference =>
      match (stripPrefix reference "#/$defs/".toList).bind fun name =>
          (root.get "$defs").bind fun defs => defs.get (String.ofList name) with
      | none => node
      | some (.object target) =>
          .object (((node.asObject.getD []).filter fun entry => entry.1 != "$ref").foldl
            (fun merged entry => Value.put entry.1 entry.2 merged) target)
      | some target => target

/-- The `type` of a node when it is a single name. -/
def typeName (node : Value F) : Option Text :=
  (node.get "type").bind Value.asStr

def isNull (node : Value F) : Bool :=
  typeName node == some "null".toList

/-- The type of a schema node, ignoring a null alternative, plus whether null is allowed. -/
def typeOf (node : Value F) : Option Text × Bool :=
  match (node.get "anyOf").bind Value.asArray with
  | some branches =>
      let branches := branches.map (resolve root)
      ((branches.find? fun branch => !isNull branch).bind typeName, branches.any isNull)
  | none =>
      match node.get "type" with
      | some (.string name) => (some name, false)
      | some (.array names) =>
          ((names.filterMap Value.asStr).find? fun name => name != "null".toList,
            names.any fun name => name.asStr == some "null".toList)
      | _ => (none, false)

/-- The values a node is allowed to take.  `fuel` bounds how many nullable
branches are followed, without enough of it nothing is returned. -/
def choicesOf : Nat → Value F → Option (Option (List Text))
  | 0, _ => none
  | fuel + 1, node =>
      match (node.get "enum").bind Value.asArray with
      | some choices => some (some (choices.map (literal formats)))
      | none =>
          match ((node.get "oneOf").or (node.get "anyOf")).bind Value.asArray with
          | none => some none
          | some branches =>
              let branches := (branches.map (resolve root)).filter fun branch => !isNull branch
              let consts := (branches.mapM fun branch => (branch.get "const").map (literal formats))
              match branches with
              | [only] =>
                  if (only.get "const").isNone then
                    choicesOf fuel only
                  else
                    some (consts.filter fun choices => !choices.isEmpty)
              | _ => some (consts.filter fun choices => !choices.isEmpty)

/-- The declared format of a node, looking through a nullable `anyOf`. -/
def formatOf (node : Value F) : Option Text :=
  match (node.get "format").bind Value.asStr with
  | some format => some format
  | none =>
      ((node.get "anyOf").bind Value.asArray).bind fun branches =>
        ((branches.map (resolve root)).find? fun branch => !isNull branch).bind fun branch =>
          (branch.get "format").bind Value.asStr

/-- The scalar type of an array field's items. -/
def listItemKind (property : Value F) : ListItemKind :=
  match property.get "items" with
  | none => .text
  | some items =>
      let kindName := (typeOf root (resolve root items)).1
      if kindName = some "boolean".toList then .bool
      else if kindName = some "integer".toList then .integer
      else if kindName = some "number".toList then .number
      else .text

def fieldKind (fuel : Nat) (property : Value F) (kindName : Option Text) : Option FieldKind :=
  (choicesOf formats root fuel property).map fun choices =>
    match choices with
    | some choices => .choice choices
    | none =>
        let format := formatOf root property
        if format = some "date-time".toList || format = some "date".toList then .time
        else if kindName = some "boolean".toList then .bool
        else if kindName = some "integer".toList then .integer
        else if kindName = some "number".toList then .number
        else if kindName = some "array".toList then .list (listItemKind root property)
        else .text

/-- Decode a value into a field, values that do not fit are ignored. -/
def applyDefault (field : Field) (default : Option (Value F)) : Field :=
  match default with
  | none => field
  | some default =>
      match field.kind, default with
      | .bool, .bool value => { field with toggled := value }
      | .choice choices, .string value =>
          match choices.findIdx? fun choice => choice == value with
          | some index => { field with choice := index }
          | none => field
      | .list _, .array items => { field with items := items.filterMap Value.asStr }
      | _, .string value => { field with text := value }
      | _, .number value => { field with text := value.show formats }
      | _, _ => field

/-- How many nested objects `collectFields` will descend into. -/
def maxSchemaDepth : Nat := 8

/-- The names of `required`. -/
def requiredNames (node : Value F) : List Text :=
  (((node.get "required").bind Value.asArray).map fun names =>
    names.filterMap Value.asStr).getD []

/-- The fields of an object's properties, `depth` is how many more levels are entered. -/
def collectFields (fuel : Nat) : Nat → Value F → List String → Option (List Field)
  | 0, _, _ => some []
  | depth + 1, node, path =>
      match (node.get "properties").bind Value.asObject with
      | none => some []
      | some properties =>
          (properties.mapM fun entry =>
            let property := resolve root entry.2
            let kindName := (typeOf root property).1
            let path := path ++ [entry.1]
            if kindName = some "object".toList && (property.get "properties").isSome then
              collectFields fuel depth property path
            else
              (fieldKind formats root fuel property kindName).map fun kind =>
                [applyDefault formats
                  (.empty path ((requiredNames node).contains entry.1.toList) .input kind)
                  (property.get "default")]).map List.flatten

end Schema

/-- The fields of a schema at the levels from 0 to the greatest depth. -/
def fieldsFromSchema (formats : Formats F T) (fuel : Nat) (schema : Value F) :
    Option (List Field) :=
  collectFields formats schema fuel (maxSchemaDepth + 1) schema []

end Ora.Tui
