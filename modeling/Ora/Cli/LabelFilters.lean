import Ora.Library.Grouping
import Ora.Postgres.FilterMeaning
import Mathlib.Data.List.DropRight

/-!
# Label filters on the command line

`parse_label_filters` of `ora-cli/src/commands.rs`.  The values of a key are
alternatives, a key without a value only has to be there.
-/

namespace Ora.Cli

open Ora.Backend
open Ora.Library
open Ora.Postgres

/-- `char::is_whitespace` -/
def isWhitespace (c : Char) : Bool :=
  let code := c.toNat
  code == 0x20 || 0x9 ≤ code && code ≤ 0xD || code == 0x85 || code == 0xA0 || code == 0x1680 ||
    0x2000 ≤ code && code ≤ 0x200A || code == 0x2028 || code == 0x2029 || code == 0x202F ||
    code == 0x205F || code == 0x3000

/-- `str::trim` -/
def trim (text : List Char) : List Char :=
  (text.dropWhile isWhitespace).rdropWhile isWhitespace

/-- `splitn(2, '=')` -/
def splitOnce (text : List Char) : List Char × Option (List Char) :=
  match text.dropWhile fun c => c != '=' with
  | [] => (text, none)
  | _ :: rest => (text.takeWhile fun c => c != '=', some rest)

/-- The key and the value of one filter. -/
def keyAndValue (filter : String) : String × Option String :=
  let parts := splitOnce (trim filter.toList)
  (String.ofList (trim parts.1), parts.2.map String.ofList)

def labelFilter : String × List String → LabelFilter
  | (key, []) => ⟨key, none, none⟩
  | (key, [value]) => ⟨key, some value, none⟩
  | (key, values) => ⟨key, none, some values⟩

def parseLabelFilters (filters : List String) : List LabelFilter :=
  (groupPairs (filters.map keyAndValue)).map labelFilter

/-- The label exists, with one of the values if any are given for its key. -/
def LabelsAsked (filters : List String) (has : String → String → Prop) : Prop :=
  ∀ filter ∈ filters, ∃ value, has (keyAndValue filter).1 value ∧
    ((∃ other ∈ filters, ∃ given, keyAndValue other = ((keyAndValue filter).1, some given)) →
      ∃ other ∈ filters, keyAndValue other = ((keyAndValue filter).1, some value))

theorem labelFilter_key (group : String × List String) : (labelFilter group).key = group.1 := by
  unfold labelFilter
  split <;> rfl

theorem labelFilter_denoted (group : String × List String) (key value : String) :
    LabelDenoted (labelFilter group) key value ↔
      key = group.1 ∧ (group.2 = [] ∨ value ∈ group.2) := by
  obtain ⟨name, values⟩ := group
  match values with
  | [] => simp [LabelDenoted, labelFilter]
  | [only] => simp [LabelDenoted, labelFilter]
  | first :: second :: rest => simp [LabelDenoted, labelFilter]

theorem parseLabelFilters_keys_nodup (filters : List String) :
    ((parseLabelFilters filters).map LabelFilter.key).Nodup := by
  have distinct := (groupPairs_grouped (filters.map keyAndValue)).distinct
  rw [parseLabelFilters, List.map_map]
  exact (List.map_congr_left fun group _ => labelFilter_key group) ▸ distinct

theorem mem_map_keyAndValue {filters : List String} {key : String} {value : Option String} :
    (key, value) ∈ filters.map keyAndValue ↔ ∃ filter ∈ filters, keyAndValue filter = (key, value) :=
  List.mem_map

/-- The parsed filters ask for the labels as they are given. -/
theorem parseLabelFilters_asked (filters : List String) (has : String → String → Prop) :
    (∀ filter ∈ parseLabelFilters filters, ∃ key value, has key value ∧
      LabelDenoted filter key value) ↔ LabelsAsked filters has := by
  have grouped := groupPairs_grouped (filters.map keyAndValue)
  -- the entry of a key has values exactly if some are given
  have empty : ∀ group ∈ groupPairs (filters.map keyAndValue), group.2 = [] ↔
      ¬∃ other ∈ filters, ∃ given, keyAndValue other = (group.1, some given) := by
    intro group member
    rw [List.eq_nil_iff_forall_not_mem]
    simp only [grouped.values group member, mem_map_keyAndValue, not_exists, not_and]
    exact ⟨fun none other known given => none given other known,
      fun none given other known => none other known given⟩
  constructor
  · intro denoted filter member
    have listed : (keyAndValue filter).1 ∈ (groupPairs (filters.map keyAndValue)).map Prod.fst :=
      (grouped.keys _).mpr ⟨_, List.mem_map_of_mem member⟩
    obtain ⟨group, present, same⟩ := List.mem_map.mp listed
    obtain ⟨key, value, holds, met⟩ := denoted (labelFilter group) (List.mem_map_of_mem present)
    obtain ⟨rfl, values⟩ := (labelFilter_denoted group key value).mp met
    rw [← same]
    refine ⟨value, holds, fun given => ?_⟩
    have found := values.resolve_left fun none => (empty group present).mp none given
    exact mem_map_keyAndValue.mp ((grouped.values group present value).mp found)
  · intro asked filter member
    obtain ⟨group, present, rfl⟩ := List.mem_map.mp member
    obtain ⟨given, listed⟩ := (grouped.keys group.1).mp (List.mem_map_of_mem present)
    obtain ⟨other, known, same⟩ := mem_map_keyAndValue.mp listed
    obtain ⟨value, holds, among⟩ := asked other known
    rw [same] at holds among
    refine ⟨group.1, value, holds, (labelFilter_denoted group _ _).mpr ⟨rfl, ?_⟩⟩
    by_cases valued : ∃ other ∈ filters, ∃ given, keyAndValue other = (group.1, some given)
    · exact .inr ((grouped.values group present value).mpr (mem_map_keyAndValue.mpr (among valued)))
    · exact .inl ((empty group present).mpr valued)

end Ora.Cli
