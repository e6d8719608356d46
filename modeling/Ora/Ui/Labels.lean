import Ora.Backend.Types
import Mathlib.Data.List.DropRight

/-!
# Labels in the web UI

Editable labels and label filters of `util/labels.ts`, and their text in links.
-/

namespace Ora.Ui

open Ora.Backend (Label)

/-- An editable label, the value might be empty for label filters. -/
structure LabelRow where
  key : String
  value : String
  deriving DecidableEq, Repr

/-- A label filter of the generated messages, without a value any value matches. -/
structure LabelFilter where
  key : String
  value : Option String
  deriving DecidableEq, Repr

def rowsToLabels (rows : List LabelRow) : List Label :=
  rows.map fun row => ⟨row.key, row.value⟩

/-- Filters matching the exact labels. -/
def labelsToFilters (labels : List Label) : List LabelFilter :=
  labels.map fun label => ⟨label.key, some label.value⟩

/-- Adds the parent's labels to the child's, keeping the child's labels for
existing keys. -/
def inheritLabels (parent child : List LabelRow) : List LabelRow :=
  let keys := child.map LabelRow.key
  child ++ parent.filter fun label => !keys.contains label.key

/-- The white space and the line terminators of `String.prototype.trim`. -/
def isWhiteSpace (c : Char) : Bool :=
  let code := c.toNat
  code == 0x20 || 0x9 ≤ code && code ≤ 0xD || code == 0xA0 || code == 0x1680 ||
    0x2000 ≤ code && code ≤ 0x200A || code == 0x2028 || code == 0x2029 || code == 0x202F ||
    code == 0x205F || code == 0x3000 || code == 0xFEFF

/-- `String.prototype.trim` -/
def trim (text : List Char) : List Char :=
  (text.dropWhile isWhiteSpace).rdropWhile isWhiteSpace

def formatLabel (label : LabelFilter) : List Char :=
  match label.value with
  | none => label.key.toList
  | some value => label.key.toList ++ '=' :: value.toList

/-- The text before and after the first `=`, without one there is nothing after. -/
def splitAtSeparator (text : List Char) : List Char × Option (List Char) :=
  match text.dropWhile fun c => c != '=' with
  | [] => (text, none)
  | _ :: rest => (text.takeWhile fun c => c != '=', some rest)

/-- Parses `key=value` or just `key`, `none` if the key is empty. -/
def parseLabel (text : List Char) : Option LabelRow :=
  let parts := splitAtSeparator (trim text)
  let key := trim parts.1
  if key = [] then
    none
  else
    some ⟨String.ofList key, String.ofList (parts.2.getD [])⟩

end Ora.Ui
