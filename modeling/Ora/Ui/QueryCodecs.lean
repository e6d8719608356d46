import Ora.Ui.Query

/-!
# Parameters are read back

When the value of a parameter is the one it was encoded from.
-/

namespace Ora.Ui

open Ora.Library
open Ora.Proto (TimeRange Timestamp)

variable {V S : Type}

/-- A value is decoded from its parameter, which may be absent if the value is the default. -/
def QueryParam.Restores (param : QueryParam V) (default value : V) : Prop :=
  ∃ texts, param.encode value = some texts ∧
    if texts.isEmpty then value = default else param.decode texts = .valid value

/-- The milliseconds since 1970 of a timestamp. -/
def millisOf (ts : Timestamp) : Int :=
  ts.seconds * 1000 + ts.nanos / 1000000

/-- A timestamp of whole milliseconds that is a valid date. -/
structure WholeMillis (ts : Timestamp) : Prop where
  lower : 0 ≤ ts.nanos
  upper : ts.nanos < 1000000000
  whole : ts.nanos % 1000000 = 0
  valid : (millisOf ts).natAbs ≤ maxMillis

/-- Timestamps of whole milliseconds are converted to dates and back without a loss. -/
structure Conversions.Lawful (js : Conversions) : Prop where
  timestampDate : ∀ ts, WholeMillis ts → js.timestampDate ts = millisOf ts
  timestampFromDate : ∀ millis : Int, millis.natAbs ≤ maxMillis →
    js.timestampFromDate millis = ⟨millis / 1000, millis % 1000 * 1000000⟩

theorem timestamp_of_millis {ts : Timestamp} (whole : WholeMillis ts) :
    (⟨millisOf ts / 1000, millisOf ts % 1000 * 1000000⟩ : Timestamp) = ts := by
  obtain ⟨lower, upper, whole, _⟩ := whole
  have seconds : millisOf ts / 1000 = ts.seconds := by
    unfold millisOf
    omega
  have nanos : millisOf ts % 1000 * 1000000 = ts.nanos := by
    unfold millisOf
    omega
  rw [seconds, nanos]

namespace Param

theorem string_restores (value : String) : string.Restores "" value := by
  by_cases empty : value = ""
  · exact ⟨[], congrArg some (if_pos empty), empty⟩
  · refine ⟨[value.toList], congrArg some (if_neg empty), ?_⟩
    show Decoded.valid (String.ofList value.toList) = .valid value
    rw [String.ofList_toList]

theorem stringList_restores {values : List String} (nonempty : ∀ value ∈ values, value ≠ "") :
    stringList.Restores [] values := by
  refine ⟨values.map String.toList, rfl, ?_⟩
  split
  · rename_i absent
    simpa using absent
  · have kept : ((values.map String.toList).filter fun value => !value.isEmpty) =
        values.map String.toList := by
      refine List.filter_eq_self.mpr fun text member => ?_
      obtain ⟨value, present, rfl⟩ := List.mem_map.mp member
      simpa using nonempty value present
    show Decoded.valid _ = Decoded.valid values
    rw [kept, List.map_map]
    have same : String.ofList ∘ String.toList = id := funext fun _ => String.ofList_toList
    rw [same, List.map_id]

theorem integerOf_showInteger (js : Conversions) {value : Int}
    (safe : value.natAbs ≤ maxSafeInteger) :
    (showInteger value).isEmpty = false ∧ integerOf js (showInteger value) = some value := by
  constructor
  · exact List.isEmpty_eq_false_iff.mpr (showInteger_ne_nil value)
  · simp only [integerOf, parseInteger_showInteger]
    exact if_pos safe

theorem int_restores (js : Conversions) {allowed : Option (List Int)} {value : Int}
    (safe : value.natAbs ≤ maxSafeInteger) (member : ∀ values, allowed = some values → value ∈ values)
    (default : Int) : (int js allowed).Restores default value := by
  obtain ⟨nonempty, read⟩ := integerOf_showInteger js safe
  have permitted : allowed.all (List.contains · value) = true := by
    cases allowed with
    | none => rfl
    | some values => simpa using member values rfl
  refine ⟨[showInteger value], rfl, ?_⟩
  show (int js allowed).decode _ = _
  simp only [int, decodeFirst, nonempty, read, permitted, Bool.false_eq_true, if_false, if_true]

theorem optionalInt_restores (js : Conversions) {value : Option Int}
    (safe : ∀ integer, value = some integer → integer.natAbs ≤ maxSafeInteger) :
    (optionalInt js).Restores none value := by
  cases value with
  | none => exact ⟨[], rfl, rfl⟩
  | some integer =>
      obtain ⟨nonempty, read⟩ := integerOf_showInteger js (safe integer rfl)
      refine ⟨[showInteger integer], rfl, ?_⟩
      show (optionalInt js).decode _ = _
      simp only [optionalInt, decodeFirst, nonempty, read, Bool.false_eq_true, if_false]

section Names

variable [DecidableEq S] {entries : List (Text × S)}

/-- Every value has at most one name and every name one value. -/
structure Named (entries : List (Text × S)) : Prop where
  names : (entries.map Prod.fst).Nodup
  values : (entries.map Prod.snd).Nodup

theorem filter_value (named : Named entries) {entry : Text × S} (member : entry ∈ entries) :
    (entries.filter fun other => other.2 == entry.2) = [entry] := by
  have distinct := named.values
  clear named
  induction entries with
  | nil => cases member
  | cons first rest ih =>
      rw [List.map_cons, List.nodup_cons] at distinct
      have others : ∀ other ∈ rest, (other.2 == first.2) = false := fun other present =>
        beq_eq_false_iff_ne.mpr fun same => distinct.1 (same ▸ List.mem_map_of_mem present)
      obtain rfl | later := List.mem_cons.mp member
      · have none : (rest.filter fun other => other.2 == entry.2) = [] :=
          List.filter_eq_nil_iff.mpr fun other present => Bool.eq_false_iff.mp (others other present)
        rw [List.filter_cons, beq_self_eq_true, if_pos rfl, none]
      · have different : (first.2 == entry.2) = false := by
          rw [beq_eq_false_iff_ne]
          exact fun same => beq_eq_false_iff_ne.mp (others entry later) same.symm
        rw [List.filter_cons, different, if_neg Bool.false_ne_true]
        exact ih later distinct.2

theorem oneOf_restores (named : Named entries) {entry : Text × S} (member : entry ∈ entries)
    (default : S) : (oneOf entries).Restores default entry.2 := by
  have found : (entries.find? fun other => other.2 == entry.2) = some entry := by
    rw [← List.head?_filter, filter_value named member]
    rfl
  refine ⟨[entry.1], ?_, ?_⟩
  · show some _ = _
    rw [found]
    rfl
  · show (oneOf entries).decode [entry.1] = _
    simp only [oneOf, decodeFirst, findKey_of_mem named.names member]

/-- The values that are already there do not come again. -/
theorem decodeNames_names (named : Named entries) {values : List S} {result : List S}
    (known : ∀ value ∈ values, ∃ entry ∈ entries, entry.2 = value)
    (distinct : (result ++ values).Nodup) :
    decodeNames entries result (values.flatMap fun value =>
        (entries.filter fun entry => entry.2 == value).map Prod.fst) = (result ++ values, []) := by
  induction values generalizing result with
  | nil => rw [List.append_nil]; rfl
  | cons value rest ih =>
      obtain ⟨entry, member, rfl⟩ := known value (List.mem_cons_self ..)
      have unseen : entry.2 ∉ result := fun seen =>
        (List.nodup_append.mp distinct).2.2 _ seen _ (List.mem_cons_self ..) rfl
      rw [List.append_cons] at distinct
      have others := ih (fun value later => known value (List.mem_cons_of_mem _ later)) distinct
      rw [List.flatMap_cons, filter_value named member]
      simp only [List.map_cons, List.map_nil, List.cons_append, List.nil_append, decodeNames,
        findKey_of_mem named.names member]
      rw [if_neg (by simpa using unseen), others, List.append_assoc]
      rfl

theorem oneOfList_restores (named : Named entries) {values : List S}
    (known : ∀ value ∈ values, ∃ entry ∈ entries, entry.2 = value) (distinct : values.Nodup) :
    (oneOfList entries).Restores [] values := by
  refine ⟨_, rfl, ?_⟩
  split
  · rename_i absent
    cases values with
    | nil => rfl
    | cons value rest =>
        obtain ⟨entry, member, rfl⟩ := known value (List.mem_cons_self ..)
        rw [List.flatMap_cons, filter_value named member] at absent
        cases absent
  · show Decoded.mk _ _ = _
    rw [decodeNames_names named known (by simpa using distinct)]
    rfl

end Names

/-- No separator of two dots is in a text, also if another text follows. -/
def Undivided (part : Text) : Prop :=
  ∀ rest first others, splitAtDots rest = first :: others →
    splitAtDots (part ++ rest) = (part ++ first) :: others

theorem undivided_nil : Undivided [] :=
  fun _ _ _ split => split

theorem Undivided.append {part other : Text} (undivided : Undivided part)
    (follows : Undivided other) : Undivided (part ++ other) := by
  intro rest first others found
  rw [List.append_assoc, List.append_assoc]
  exact undivided _ _ _ (follows rest first others found)

theorem splitAtDots_cons {c : Char} {rest first : Text} {others : List Text}
    (noSeparator : c ≠ '.' ∨ rest.head? ≠ some '.') (found : splitAtDots rest = first :: others) :
    splitAtDots (c :: rest) = (c :: first) :: others := by
  rw [splitAtDots, found]
  rintro more rfl rfl
  obtain other | other := noSeparator
  · exact other rfl
  · exact other rfl

theorem undivided_of_no_dot {part : Text} (noDot : ∀ c ∈ part, c ≠ '.') : Undivided part := by
  induction part with
  | nil => exact undivided_nil
  | cons c part ih =>
      intro rest first others found
      have later := ih (fun c member => noDot c (List.mem_cons_of_mem _ member)) _ _ _ found
      exact splitAtDots_cons (.inl (noDot c (List.mem_cons_self ..))) later

/-- A dot is no separator if something else follows. -/
theorem undivided_dot {c : Char} {part : Text} (other : c ≠ '.') (undivided : Undivided (c :: part)) :
    Undivided ('.' :: c :: part) := by
  intro rest first others found
  refine splitAtDots_cons (.inr ?_) (undivided rest first others found)
  exact fun same => other (Option.some.inj same)

/-- The texts around two dots. -/
theorem splitAtDots_pair {start stop : Text} (before : Undivided start) (after : Undivided stop) :
    splitAtDots (start ++ "..".toList ++ stop) = [start, stop] := by
  have second : splitAtDots stop = [stop] := by
    have alone := after [] [] [] rfl
    rwa [List.append_nil] at alone
  have separator : splitAtDots ("..".toList ++ stop) = [] :: [stop] := by
    show [] :: splitAtDots stop = _
    rw [second]
  have both := before _ _ _ separator
  rwa [← List.append_assoc, List.append_nil] at both

theorem replaceFirst_append {pattern replacement head tail : Text}
    (noDot : ∀ c ∈ head, c ≠ '.') :
    replaceFirst ('.' :: pattern) replacement (head ++ tail) =
      head ++ replaceFirst ('.' :: pattern) replacement tail := by
  induction head with
  | nil => rfl
  | cons c head ih =>
      have other := noDot c (List.mem_cons_self ..)
      have unmatched : ('.' :: pattern).isPrefixOf (c :: (head ++ tail)) = false := by
        simp [List.isPrefixOf, other.symm]
      rw [List.cons_append, replaceFirst, unmatched, if_neg Bool.false_ne_true,
        ih fun c member => noDot c (List.mem_cons_of_mem _ member)]
      rfl

theorem replaceFirst_of_no_dot {pattern replacement text : Text} (noDot : ∀ c ∈ text, c ≠ '.') :
    replaceFirst ('.' :: pattern) replacement text = text := by
  have same : replaceFirst ('.' :: pattern) replacement (text ++ []) =
      text ++ replaceFirst ('.' :: pattern) replacement [] := replaceFirst_append noDot
  rwa [List.append_nil, replaceFirst, List.append_nil] at same

/-- The fraction of a second in a query, which ends in the time zone. -/
structure Fraction (millis : Int) (text : Text) : Prop where
  read : takeMillis text = some ((millis % 1000).toNat, ['Z'])
  undivided : Undivided text

theorem fraction_zone {millis : Int} (whole : (millis % 1000).toNat = 0) : Fraction millis ['Z'] :=
  ⟨by rw [whole]; rfl, undivided_of_no_dot (by simp)⟩

theorem no_dot_millis (n : Nat) : ∀ c ∈ fixedDigits 3 n ++ ['Z'], c ≠ '.' := by
  rintro c member rfl
  obtain digit | zone := List.mem_append.mp member
  · exact absurd (isDigit_of_mem_fixedDigits digit) (by decide)
  · exact absurd (List.mem_singleton.mp zone) (by decide)

theorem fraction_millis (millis : Int) :
    Fraction millis ('.' :: fixedDigits 3 (millis % 1000).toNat ++ ['Z']) := by
  refine ⟨takeMillis_fixedDigits millis, ?_⟩
  have noDot := no_dot_millis (millis % 1000).toNat
  cases digits : fixedDigits 3 (millis % 1000).toNat ++ ['Z'] with
  | nil => exact absurd digits (List.append_ne_nil_of_right_ne_nil _ (List.cons_ne_nil _ _))
  | cons c rest =>
      rw [digits] at noDot
      rw [List.cons_append, digits]
      exact undivided_dot (noDot c (List.mem_cons_self ..)) (undivided_of_no_dot noDot)

/-- Milliseconds are left out of a timestamp if there are none. -/
theorem replaceFirst_millis (millis : Int) : ∃ fraction, Fraction millis fraction ∧
    replaceFirst ".000Z".toList "Z".toList
      ('.' :: fixedDigits 3 (millis % 1000).toNat ++ ['Z']) = fraction := by
  by_cases whole : (millis % 1000).toNat = 0
  · refine ⟨['Z'], fraction_zone whole, ?_⟩
    rw [whole]
    rfl
  · refine ⟨_, fraction_millis millis, ?_⟩
    have fits : (millis % 1000).toNat < Nat.pow 10 3 := by
      show (millis % 1000).toNat < 1000
      omega
    generalize (millis % 1000).toNat = n at *
    have unmatched : ".000Z".toList.isPrefixOf ('.' :: fixedDigits 3 n ++ ['Z']) = false := by
      rw [Bool.eq_false_iff]
      intro matched
      have same := (List.isPrefixOf_iff_prefix.mp matched).eq_of_length (by simp)
      have digits : fixedDigits 3 n = "000".toList :=
        (List.append_cancel_right (List.cons.inj same).2).symm
      have read := ofDigitChars_fixedDigits fits
      rw [digits] at read
      exact whole read.symm
    rw [List.cons_append] at unmatched ⊢
    rw [replaceFirst, unmatched, if_neg Bool.false_ne_true]
    exact congrArg _ (replaceFirst_of_no_dot (no_dot_millis n))

/-- A time, if there is one, is read back and is not divided. -/
theorem formatIsoTimestamp_restores {js : Conversions} (lawful : js.Lawful)
    {bound : Option Timestamp} (whole : ∀ ts, bound = some ts → WholeMillis ts) :
    ∃ text, formatIsoTimestamp js bound = some text ∧
      parseIsoTimestamp js text = some bound ∧ Undivided text := by
  cases bound with
  | none => exact ⟨[], rfl, rfl, undivided_nil⟩
  | some ts =>
      have valid := (whole ts rfl).valid
      obtain ⟨fraction, ⟨read, undivided⟩, shortened⟩ := replaceFirst_millis (millisOf ts)
      refine ⟨isoSeconds (millisOf ts) ++ fraction, ?_, ?_, ?_⟩
      · rw [formatIsoTimestamp, lawful.timestampDate ts (whole ts rfl), toISOString, if_pos valid,
          Option.map_some, List.append_assoc]
        refine congrArg some ?_
        rw [← shortened]
        exact replaceFirst_append fun c member => not_dot_of_mem_isoSeconds member
      · have nonempty : (isoSeconds (millisOf ts) ++ fraction).isEmpty = false := by
          rw [List.isEmpty_eq_false_iff]
          simp [isoSeconds]
        rw [parseIsoTimestamp, nonempty, if_neg Bool.false_ne_true, dateOf,
          parseIso_isoSeconds valid read]
        simp only [Option.or, Option.map_some]
        rw [lawful.timestampFromDate _ valid, timestamp_of_millis (whole ts rfl)]
      · exact (undivided_of_no_dot fun c member => not_dot_of_mem_isoSeconds member).append undivided

/-- A range with a bound of whole milliseconds. -/
structure Bounded (range : TimeRange) : Prop where
  some : range.start.isSome = true ∨ range.stop.isSome = true
  start : ∀ ts, range.start = .some ts → WholeMillis ts
  stop : ∀ ts, range.stop = .some ts → WholeMillis ts

theorem timeRange_restores {js : Conversions} (lawful : js.Lawful) {range : Option TimeRange}
    (bounded : ∀ given, range = some given → Bounded given) :
    (timeRange js).Restores none range := by
  cases range with
  | none => exact ⟨[], rfl, rfl⟩
  | some range =>
      obtain ⟨present, start, stop⟩ := bounded range rfl
      obtain ⟨first, shown, read, before⟩ := formatIsoTimestamp_restores lawful start
      obtain ⟨last, shownLast, readLast, after⟩ := formatIsoTimestamp_restores lawful stop
      have either : (range.start.isSome || range.stop.isSome) = true := Bool.or_eq_true_iff.mpr present
      refine ⟨[first ++ "..".toList ++ last], ?_, ?_⟩
      · simp only [timeRange, either, if_true, shown, shownLast, Option.bind_some, Option.map_some]
      · show (timeRange js).decode _ = _
        simp only [timeRange, decodeFirst, splitAtDots_pair before after, read, readLast, either,
          if_true]

/-- A label filter whose text is read back: neither `=` nor white space is taken
from the key, and a value is there after trimming the text. -/
structure Linkable (label : LabelFilter) : Prop where
  key : label.key ≠ ""
  separator : '=' ∉ label.key.toList
  trimmed : TrimmedBy isWhiteSpace label.key.toList
  value : ∀ value, label.value = some value → value ≠ "" ∧
    ∀ c ∈ value.toList.getLast?, isWhiteSpace c = false

theorem trim_eq (text : List Char) : trim text = trimBy isWhiteSpace text :=
  rfl

theorem splitAtSeparator_key {key : Text} (separator : '=' ∉ key) :
    splitAtSeparator key = (key, none) := by
  have none : (key.dropWhile fun c => c != '=') = [] :=
    List.dropWhile_eq_nil_iff.mpr fun c member =>
      bne_iff_ne.mpr fun same => separator (same ▸ member)
  rw [splitAtSeparator, none]

theorem splitAtSeparator_pair {key : Text} (separator : '=' ∉ key) (value : Text) :
    splitAtSeparator (key ++ '=' :: value) = (key, some value) := by
  have others : ∀ c ∈ key, (c != '=') = true := fun c member =>
    bne_iff_ne.mpr fun same => separator (same ▸ member)
  have after : ((key ++ '=' :: value).dropWhile fun c => c != '=') = '=' :: value := by
    rw [List.dropWhile_append_of_pos others]
    rfl
  have before : ((key ++ '=' :: value).takeWhile fun c => c != '=') = key := by
    rw [List.takeWhile_append_of_pos others]
    exact List.append_nil key
  rw [splitAtSeparator, after, before]

/-- The text is the key and, after the first `=`, the value. -/
theorem splitAtSeparator_spec (text : Text) : '=' ∉ (splitAtSeparator text).1 ∧
    ∀ value, (splitAtSeparator text).2 = some value →
      text = (splitAtSeparator text).1 ++ '=' :: value := by
  unfold splitAtSeparator
  cases rest : text.dropWhile fun c => c != '=' with
  | nil =>
      refine ⟨fun separator => ?_, nofun⟩
      simpa using List.dropWhile_eq_nil_iff.mp rest _ separator
  | cons c value =>
      have separator : c = '=' := by
        have kept := List.head?_dropWhile_not (fun c => c != '=') text
        rw [rest] at kept
        simpa using kept
      refine ⟨fun taken => ?_, fun given same => ?_⟩
      · simpa using List.mem_takeWhile_imp taken
      · cases same
        have whole := List.takeWhile_append_dropWhile (p := fun c => c != '=') (l := text)
        rw [rest, separator] at whole
        exact whole.symm

theorem trimmed_pair {key value : Text} (trimmed : TrimmedBy isWhiteSpace key) (nonempty : key ≠ [])
    (present : value ≠ []) (last : ∀ c ∈ value.getLast?, isWhiteSpace c = false) :
    TrimmedBy isWhiteSpace (key ++ '=' :: value) := by
  constructor
  · intro c first
    rw [List.head?_append_of_ne_nil _ nonempty] at first
    exact trimmed.first c first
  · intro c ending
    rw [List.getLast?_append_of_ne_nil _ (List.cons_ne_nil _ _),
      List.getLast?_cons_of_ne_nil present] at ending
    exact last c ending

theorem parseLabel_formatLabel {label : LabelFilter} (linkable : Linkable label) :
    (parseLabel (formatLabel label)).map rowToLabelFilter = some label := by
  obtain ⟨key, value⟩ := label
  obtain ⟨present, separator, trimmed, ending⟩ := linkable
  have nonempty : key.toList ≠ [] := by simpa using present
  have keyTrim : trim key.toList = key.toList := trimmed.trimBy_eq
  cases value with
  | none =>
      simp only [parseLabel, formatLabel, keyTrim, splitAtSeparator_key separator]
      rw [if_neg nonempty, String.ofList_toList]
      rfl
  | some value =>
      obtain ⟨filled, last⟩ := ending value rfl
      have given : value.toList ≠ [] := by simpa using filled
      have whole : trim (key.toList ++ '=' :: value.toList) = key.toList ++ '=' :: value.toList :=
        (trimmed_pair trimmed nonempty given last).trimBy_eq
      simp only [parseLabel, formatLabel, whole, splitAtSeparator_pair separator, keyTrim]
      rw [if_neg nonempty, Option.map_some, Option.getD_some, String.ofList_toList,
        String.ofList_toList, rowToLabelFilter, if_neg filled]

/-- Only linkable label filters are read back. -/
theorem linkable_of_parseLabel {label : LabelFilter}
    (read : (parseLabel (formatLabel label)).map rowToLabelFilter = some label) :
    Linkable label := by
  obtain ⟨row, parsed, same⟩ := Option.map_eq_some_iff.mp read
  unfold parseLabel at parsed
  simp only at parsed
  split at parsed
  · cases parsed
  · rename_i nonempty
    cases parsed
    obtain ⟨separator, whole⟩ := splitAtSeparator_spec (trim (formatLabel label))
    generalize splitAtSeparator (trim (formatLabel label)) = parts at *
    have key : label.key.toList = trim parts.1 := by
      rw [← same]
      exact String.toList_ofList
    refine ⟨?_, ?_, ?_, fun value given => ?_⟩
    · intro empty
      rw [empty] at key
      exact nonempty key.symm
    · rw [key]
      intro member
      exact separator ((List.dropWhile_sublist _).subset
        ((List.rdropWhile_prefix _ _).subset member))
    · rw [key]
      exact trimBy_trimmed
    · have written : (if String.ofList (parts.2.getD []) = "" then none
          else some (String.ofList (parts.2.getD []))) = some value :=
        (congrArg LabelFilter.value same).trans given
      split at written
      · cases written
      · rename_i filled
        cases written
        refine ⟨filled, fun c last => ?_⟩
        cases rest : parts.2 with
        | none =>
            rw [rest] at filled
            exact absurd rfl filled
        | some text =>
            rw [rest, Option.getD_some, String.toList_ofList] at last
            have trimmed : TrimmedBy isWhiteSpace (trim (formatLabel label)) := trimBy_trimmed
            refine trimmed.last c ?_
            rw [whole text rest, List.getLast?_append_of_ne_nil _ (List.cons_ne_nil _ _)]
            exact List.mem_getLast?_cons last

theorem parseLabel_formatLabel_iff (label : LabelFilter) :
    (parseLabel (formatLabel label)).map rowToLabelFilter = some label ↔ Linkable label :=
  ⟨linkable_of_parseLabel, parseLabel_formatLabel⟩

theorem decodeLabels_labels {labels : List LabelFilter}
    (linkable : ∀ label ∈ labels, Linkable label) :
    decodeLabels (labels.map formatLabel) = (labels, []) := by
  induction labels with
  | nil => rfl
  | cons label rest ih =>
      obtain ⟨row, parsed, same⟩ := Option.map_eq_some_iff.mp
        (parseLabel_formatLabel (linkable label (List.mem_cons_self ..)))
      have others := ih fun other member => linkable other (List.mem_cons_of_mem _ member)
      rw [List.map_cons, decodeLabels, others]
      simp only [parsed, same]

theorem labelFilters_restores {labels : List LabelFilter}
    (linkable : ∀ label ∈ labels, Linkable label) : labelFilters.Restores [] labels := by
  refine ⟨labels.map formatLabel, rfl, ?_⟩
  split
  · rename_i absent
    simpa using absent
  · show Decoded.mk _ _ = _
    rw [decodeLabels_labels linkable]
    rfl

end Param

end Ora.Ui
