import Ora.Library.Calendar
import Ora.Library.FirstKeys
import Ora.Library.Trimmed
import Ora.Proto.Filters
import Ora.Ui.Labels

/-!
# Query parameters of the web UI

The codecs of `util/query.ts` between the fields of an object and the query
parameters of a route.  A parameter can be repeated, so it has a list of values.
-/

namespace Ora.Ui

open Ora.Library
open Ora.Proto (TimeRange Timestamp)

abbrev Text := List Char

variable {V S M : Type}

/-- What texts and timestamps are converted to outside of this repository.  Only
other texts than those that are written to queries are left open. -/
structure Conversions where
  /-- `Number` of another text, if it is an integer -/
  otherNumber : Text → Option Int
  /-- `Date` of another text, if it is valid -/
  otherDate : Text → Option Int
  timestampDate : Timestamp → Int
  timestampFromDate : Int → Timestamp

/-- `Number.MAX_SAFE_INTEGER` -/
def maxSafeInteger : Nat := 9007199254740991

/-- `Number`, if it is an integer -/
def integerOf (js : Conversions) (text : Text) : Option Int :=
  match parseInteger text with
  | some value => if value.natAbs ≤ maxSafeInteger then some value else js.otherNumber text
  | none => js.otherNumber text

/-- The milliseconds of a `Date`, if it is valid. -/
def dateOf (js : Conversions) (text : Text) : Option Int :=
  (parseIso text).or (js.otherDate text)

/-- `String.prototype.replace` of a text that is not empty -/
def replaceFirst (pattern replacement : Text) : Text → Text
  | [] => []
  | c :: rest =>
      if pattern.isPrefixOf (c :: rest) then
        replacement ++ (c :: rest).drop pattern.length
      else
        c :: replaceFirst pattern replacement rest

/-- `String.prototype.split` at two dots -/
def splitAtDots : Text → List Text
  | '.' :: '.' :: rest => [] :: splitAtDots rest
  | c :: rest =>
      match splitAtDots rest with
      | part :: parts => (c :: part) :: parts
      | [] => [[c]]
  | [] => [[]]

/-- What a parameter is decoded to, without a value the default is used. -/
structure Decoded (V : Type) where
  value : Option V
  invalid : List Text

/-- Converts a value from and to route query parameter values. -/
structure QueryParam (V : Type) where
  decode : List Text → Decoded V
  /-- An empty list removes the parameter, the date of a time might be invalid. -/
  encode : V → Option (List Text)

def Decoded.valid (value : V) : Decoded V :=
  ⟨some value, []⟩

/-- The first value is not the value of the parameter. -/
def Decoded.reported (value : Text) : Decoded V :=
  ⟨none, [value]⟩

/-- The parameter is decoded from its first value, of which there is always one. -/
def decodeFirst (decode : Text → Decoded V) : List Text → Decoded V
  | [] => ⟨none, []⟩
  | value :: _ => decode value

namespace Param

def string : QueryParam String where
  decode := decodeFirst fun value => .valid (String.ofList value)
  encode value := some (if value = "" then [] else [value.toList])

/-- A list of strings, each one in a separate repeated parameter. -/
def stringList : QueryParam (List String) where
  decode values := .valid ((values.filter fun value => !value.isEmpty).map String.ofList)
  encode values := some (values.map String.toList)

/-- An integer, optionally restricted to the given values. -/
def int (js : Conversions) (allowed : Option (List Int)) : QueryParam Int where
  decode := decodeFirst fun text =>
    match if text.isEmpty then none else integerOf js text with
    | some value => if allowed.all (List.contains · value) then .valid value else .reported text
    | none => .reported text
  encode value := some [showInteger value]

/-- An optional integer, none removes the parameter. -/
def optionalInt (js : Conversions) : QueryParam (Option Int) where
  decode := decodeFirst fun text =>
    match if text.isEmpty then none else integerOf js text with
    | some value => .valid (some value)
    | none => .reported text
  encode
    | none => some []
    | some value => some [showInteger value]

section Names

variable [DecidableEq S] (entries : List (Text × S))

/-- One of the given values by name, values without a name are omitted. -/
def oneOf : QueryParam S where
  decode := decodeFirst fun text =>
    match findKey Prod.fst entries text with
    | some entry => .valid entry.2
    | none => .reported text
  encode value := some ((entries.find? fun entry => entry.2 == value).map Prod.fst).toList

def decodeNames : List S → List Text → List S × List Text
  | result, [] => (result, [])
  | result, value :: rest =>
      match findKey Prod.fst entries value with
      | none =>
          let (final, invalid) := decodeNames result rest
          (final, value :: invalid)
      | some entry =>
          decodeNames (if result.contains entry.2 then result else result ++ [entry.2]) rest

/-- A list of the given values by name, unknown names are dropped. -/
def oneOfList : QueryParam (List S) where
  decode values :=
    let (result, invalid) := decodeNames entries [] values
    ⟨some result, invalid⟩
  encode list := some (list.flatMap fun value =>
    (entries.filter fun entry => entry.2 == value).map Prod.fst)

end Names

section Times

variable (js : Conversions)

/-- Whole seconds are shown without the fraction to keep the URLs short. -/
def formatIsoTimestamp : Option Timestamp → Option Text
  | none => some []
  | some ts => (toISOString (js.timestampDate ts)).map (replaceFirst ".000Z".toList "Z".toList)

/-- The time, if there is one, of a text that is not invalid. -/
def parseIsoTimestamp (value : Text) : Option (Option Timestamp) :=
  if value.isEmpty then
    some none
  else
    (dateOf js value).map fun millis => some (js.timestampFromDate millis)

/-- A time range as `start..end` in ISO 8601, either end can be omitted. -/
def timeRange : QueryParam (Option TimeRange) where
  decode := decodeFirst fun text =>
    match splitAtDots text with
    | [start, stop] =>
        match parseIsoTimestamp js start, parseIsoTimestamp js stop with
        | some start, some stop =>
            if start.isSome || stop.isSome then .valid (some ⟨start, stop⟩) else ⟨none, []⟩
        | _, _ => .reported text
    | _ => .reported text
  encode
    | none => some []
    | some range =>
        if range.start.isSome || range.stop.isSome then
          (formatIsoTimestamp js range.start).bind fun start =>
            (formatIsoTimestamp js range.stop).map fun stop => [start ++ "..".toList ++ stop]
        else
          some []

end Times

def rowToLabelFilter (row : LabelRow) : LabelFilter :=
  ⟨row.key, if row.value = "" then none else some row.value⟩

def decodeLabels : List Text → List LabelFilter × List Text
  | [] => ([], [])
  | value :: rest =>
      let (result, invalid) := decodeLabels rest
      match parseLabel value with
      | none => (result, value :: invalid)
      | some label => (rowToLabelFilter label :: result, invalid)

/-- Label filters as `key=value`, or just `key` to match any value. -/
def labelFilters : QueryParam (List LabelFilter) where
  decode values :=
    let (result, invalid) := decodeLabels values
    ⟨some result, invalid⟩
  encode filters := some (filters.map formatLabel)

end Param

/-- A field of an object that is mapped to a parameter. -/
structure FieldEntry (M : Type) where
  {Value : Type}
  get : M → Value
  set : Value → M → M
  name : Text
  param : QueryParam Value

def encodeFields (entries : List (FieldEntry M)) (value : M) : Option (List (List Text)) :=
  entries.mapM fun entry => entry.param.encode (entry.get value)

/-- Fields whose parameters are absent or invalid stay as they are.  The reported
values come with the names of their parameters. -/
def decodeFields : List (FieldEntry M) → List (List Text) → M → M × List (Text × Text)
  | entry :: entries, values :: rest, result =>
      if values.isEmpty then
        decodeFields entries rest result
      else
        let decoded := entry.param.decode values
        let (final, invalid) := decodeFields entries rest (match decoded.value with
          | some value => entry.set value result
          | none => result)
        (final, (decoded.invalid.map fun value => (entry.name, value)) ++ invalid)
  | _, _, result => (result, [])

/-- The value of a parameter, `?key` without a value is `null`. -/
inductive RawValue where
  | one (value : Option Text)
  | many (values : List (Option Text))
  deriving DecidableEq, Repr

/-- The parameters of a route, the first one of a name counts. -/
abbrev LocationQuery := List (Text × RawValue)

def LocationQuery.raw (query : LocationQuery) (key : Text) : Option RawValue :=
  (findKey Prod.fst query key).map Prod.snd

/-- The values of a parameter, `?key` without a value is an empty value. -/
def normalize : Option RawValue → List Text
  | none => []
  | some (.one value) => [value.getD []]
  | some (.many values) => values.map fun value => value.getD []

def rawValue : List Text → RawValue
  | [value] => .one (some value)
  | values => .many (values.map some)

/-- Encodes an object with the given field mapping, e.g. to create links to filtered views. -/
def encodeQueryFields (fields : List (FieldEntry M)) (value : M) (pre : Text) :
    Option LocationQuery :=
  fields.foldlM (fun query entry => (entry.param.encode (entry.get value)).map fun values =>
    if values.isEmpty then query else (pre ++ entry.name, rawValue values) :: query) []

/-- The object in the parameters of a route and the invalid parameters. -/
def decodeQueryFields (fields : List (FieldEntry M)) (query : LocationQuery) (pre : Text)
    (init : M) : M × List Text :=
  let (value, invalid) := decodeFields fields
    (fields.map fun entry => normalize (query.raw (pre ++ entry.name))) init
  (value, invalid.map fun found => pre ++ found.1 ++ '=' :: found.2)

end Ora.Ui
