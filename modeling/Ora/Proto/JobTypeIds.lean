import Ora.Library.JoinedWords
import Ora.Proto.Filters

/-!
# Job type ids

`JobTypeId::validate` of the client library (`ora/src/job_type.rs`), which scans
bytes, and of the backend (`ora-backend/src/jobs.rs`), which splits at the dots.
An ID is made up of segments separated by dots, each a letter followed by
letters, digits or underscores.
-/

namespace Ora.Proto

open Ora.Library

/-- `str::as_bytes` -/
def asBytes (text : List Char) : List UInt8 :=
  text.flatMap String.utf8EncodeChar

theorem asBytes_toList (text : String) : asBytes text.toList = text.toUTF8.data.toList := by
  rw [String.toUTF8_eq_toByteArray, ← String.utf8Encode_toList, List.utf8Encode,
    List.toList_data_toByteArray]
  rfl

def isAsciiAlphabetic (c : UInt8) : Bool :=
  0x41 ≤ c && c ≤ 0x5A || 0x61 ≤ c && c ≤ 0x7A

def isAsciiAlphanumeric (c : UInt8) : Bool :=
  isAsciiAlphabetic c || 0x30 ≤ c && c ≤ 0x39

def dot : UInt8 := 0x2E

def underscore : UInt8 := 0x5F

namespace Client

/-- The loop over the bytes, with the flag for the start of a segment. -/
def scanSegments : Bool → List UInt8 → Bool
  | segmentStart, [] => if segmentStart then false else true
  | segmentStart, c :: rest =>
      if c = dot then
        if segmentStart then false else scanSegments true rest
      else if segmentStart then
        if !(0x41 ≤ c && c ≤ 0x5A || 0x61 ≤ c && c ≤ 0x7A) then false else scanSegments false rest
      else if !(isAsciiAlphanumeric c || c == underscore) then
        false
      else
        scanSegments false rest

/-- `JobTypeId::validate` -/
def validate (s : String) : Bool :=
  if s.toList.isEmpty then false else scanSegments true (asBytes s.toList)

/-- `JobTypeId::new` -/
def newJobTypeId (s : String) : Except String Backend.JobTypeId :=
  if !validate s then .error ("invalid job type ID: \"" ++ s ++ "\"") else .ok s

end Client

namespace Server

/-- One segment: its first byte, then the others. -/
def segmentBytes (segment : List UInt8) : Bool :=
  match segment with
  | [] => false
  | c :: chars =>
      isAsciiAlphabetic c && chars.all fun c => isAsciiAlphanumeric c || c == underscore

/-- `JobTypeId::validate`, on the bytes of each segment. -/
def validateBytes (s : String) : Bool :=
  if s.toList.isEmpty then
    false
  else
    (s.toList.splitOn '.').all fun segment => segmentBytes (asBytes segment)

end Server

def idChars : Alphabet Char where
  separator := '.'
  first c := c.isAlpha
  later c := c.isAlphanum || c == '_'
  first_separator := by decide
  later_separator := by decide

def idBytes : Alphabet UInt8 where
  separator := dot
  first := isAsciiAlphabetic
  later c := isAsciiAlphanumeric c || c == underscore
  first_separator := by decide
  later_separator := by decide

theorem isAlpha_iff (c : Char) :
    c.isAlpha = true ↔ 0x41 ≤ c.toNat ∧ c.toNat ≤ 0x5A ∨ 0x61 ≤ c.toNat ∧ c.toNat ≤ 0x7A := by
  have letters : c.isAlpha = (decide (c.val ≥ 'A'.val ∧ c.val ≤ 'Z'.val) ||
      (decide (c.val ≥ 'a'.val) && decide (c.val ≤ 'z'.val))) := rfl
  rw [letters]
  simp [UInt32.le_iff_toNat_le]

theorem isAlphanum_iff (c : Char) :
    c.isAlphanum = true ↔ c.isAlpha = true ∨ 0x30 ≤ c.toNat ∧ c.toNat ≤ 0x39 := by
  simp [Char.isAlphanum, Char.isDigit, UInt32.le_iff_toNat_le]

theorem isAsciiAlphabetic_iff (c : UInt8) :
    isAsciiAlphabetic c = true ↔
      0x41 ≤ c.toNat ∧ c.toNat ≤ 0x5A ∨ 0x61 ≤ c.toNat ∧ c.toNat ≤ 0x7A := by
  simp [isAsciiAlphabetic, UInt8.le_iff_toNat_le]

theorem isAsciiAlphanumeric_iff (c : UInt8) :
    isAsciiAlphanumeric c = true ↔
      isAsciiAlphabetic c = true ∨ 0x30 ≤ c.toNat ∧ c.toNat ≤ 0x39 := by
  simp [isAsciiAlphanumeric, UInt8.le_iff_toNat_le]

/-- ASCII characters are one byte, the others start with a byte that is not ASCII. -/
theorem utf8EncodeChar_cases (c : Char) :
    (c.toNat < 0x80 ∧ ∃ byte : UInt8, String.utf8EncodeChar c = [byte] ∧ byte.toNat = c.toNat) ∨
    (0x80 ≤ c.toNat ∧ ∃ byte rest, String.utf8EncodeChar c = byte :: rest ∧
      0x80 ≤ byte.toNat) := by
  have lead : ∀ payload marker, 0x80 ≤ marker → payload + marker < 0x100 →
      0x80 ≤ (UInt8.ofNat (payload + marker)).toNat := by
    intro payload marker high fits
    rw [UInt8.toNat_ofNat', Nat.mod_eq_of_lt fits]
    omega
  unfold String.utf8EncodeChar
  by_cases ascii : c.val.toNat ≤ 0x7F
  · refine .inl ⟨Nat.lt_succ_of_le ascii, UInt8.ofNat c.val.toNat, if_pos ascii, ?_⟩
    rw [UInt8.toNat_ofNat', Nat.mod_eq_of_lt (by omega)]
    rfl
  · refine .inr ⟨Nat.lt_of_not_le ascii, ?_⟩
    simp only [ascii, if_false]
    split
    · exact ⟨_, _, rfl, lead _ _ (by decide) (by omega)⟩
    · split
      · exact ⟨_, _, rfl, lead _ _ (by decide) (by omega)⟩
      · exact ⟨_, _, rfl, lead _ _ (by decide) (by omega)⟩

/-- A byte with the number of a character is of the same kind. -/
theorem idBytes_of_toNat {c : Char} {byte : UInt8} (same : byte.toNat = c.toNat) :
    (byte = dot ↔ c = '.') ∧ idBytes.first byte = idChars.first c ∧
      idBytes.later byte = idChars.later c := by
  have equal : ∀ (other : UInt8) (char : Char), other.toNat = char.toNat →
      (byte = other ↔ c = char) := by
    intro other char number
    rw [← UInt8.toNat_inj, same, number]
    exact ⟨fun code => Char.toNat_inj.mp code, congrArg Char.toNat⟩
  have first : idBytes.first byte = idChars.first c := by
    show isAsciiAlphabetic byte = c.isAlpha
    rw [Bool.eq_iff_iff, isAsciiAlphabetic_iff, isAlpha_iff, same]
  refine ⟨equal dot '.' rfl, first, ?_⟩
  show (isAsciiAlphanumeric byte || byte == underscore) = (c.isAlphanum || c == '_')
  rw [Bool.eq_iff_iff, Bool.or_eq_true, Bool.or_eq_true, isAsciiAlphanumeric_iff, isAlphanum_iff,
    beq_iff_eq, beq_iff_eq, equal underscore '_' rfl, same]
  rw [show isAsciiAlphabetic byte = c.isAlpha from first]

/-- A byte that is not ASCII is not part of an ID, nor is such a character. -/
theorem idBytes_foreign {byte : UInt8} (foreign : 0x80 ≤ byte.toNat) :
    byte ≠ dot ∧ idBytes.first byte = false ∧ idBytes.later byte = false := by
  have first : isAsciiAlphabetic byte = false := by
    rw [← Bool.not_eq_true, isAsciiAlphabetic_iff]
    omega
  have later : isAsciiAlphanumeric byte = false := by
    rw [← Bool.not_eq_true, isAsciiAlphanumeric_iff, first]
    simp only [Bool.false_eq_true, false_or]
    omega
  have other : ∀ ascii : UInt8, ascii.toNat < 0x80 → byte ≠ ascii := by
    rintro ascii small rfl
    exact absurd foreign (Nat.not_le.mpr small)
  refine ⟨other dot (by decide), first, ?_⟩
  show (isAsciiAlphanumeric byte || byte == underscore) = false
  rw [later, Bool.false_or]
  exact beq_eq_false_iff_ne.mpr (other underscore (by decide))

theorem idChars_foreign {c : Char} (foreign : 0x80 ≤ c.toNat) :
    c ≠ '.' ∧ idChars.first c = false ∧ idChars.later c = false := by
  have first : c.isAlpha = false := by
    rw [← Bool.not_eq_true, isAlpha_iff]
    omega
  have later : c.isAlphanum = false := by
    rw [← Bool.not_eq_true, isAlphanum_iff, first]
    simp only [Bool.false_eq_true, false_or]
    omega
  have other : ∀ ascii : Char, ascii.toNat < 0x80 → c ≠ ascii := by
    rintro ascii small rfl
    exact absurd foreign (Nat.not_le.mpr small)
  refine ⟨other '.' (by decide), first, ?_⟩
  show (c.isAlphanum || c == '_') = false
  rw [later, Bool.false_or]
  exact beq_eq_false_iff_ne.mpr (other '_' (by decide))

theorem idBytes_encodes : Alphabet.Encodes idChars idBytes String.utf8EncodeChar where
  symbol c := by
    obtain ⟨_, byte, encoded, same⟩ | ⟨foreign, byte, rest, encoded, high⟩ := utf8EncodeChar_cases c
    · exact .inl ⟨byte, encoded, idBytes_of_toNat same⟩
    · obtain ⟨separator, first, later⟩ := idChars_foreign foreign
      exact .inr ⟨separator, first, later, byte, rest, encoded, idBytes_foreign high⟩

theorem scanSegments_eq (segmentStart : Bool) (bytes : List UInt8) :
    Client.scanSegments segmentStart bytes = idBytes.scan segmentStart bytes := by
  induction bytes generalizing segmentStart with
  | nil => cases segmentStart <;> rfl
  | cons c rest ih =>
      cases segmentStart with
      | true =>
          show (if c = dot then false else if !isAsciiAlphabetic c then false else
            Client.scanSegments false rest) = if c = dot then false else
              isAsciiAlphabetic c && idBytes.scan false rest
          rw [ih]
          cases isAsciiAlphabetic c <;> rfl
      | false =>
          show (if c = dot then Client.scanSegments true rest else
            if !(isAsciiAlphanumeric c || c == underscore) then false else
              Client.scanSegments false rest) = if c = dot then true && idBytes.scan true rest else
                (isAsciiAlphanumeric c || c == underscore) && idBytes.scan false rest
          rw [ih, ih, Bool.true_and]
          cases isAsciiAlphanumeric c || c == underscore <;> rfl

theorem segmentBytes_eq (segment : List UInt8) :
    Server.segmentBytes segment = idBytes.isWord segment := by
  cases segment <;> rfl

/-- An empty string is no joined word. -/
theorem scan_of_nonempty (s : String) :
    (if s.toList.isEmpty then false else idChars.scan true s.toList) =
      idChars.scan true s.toList := by
  cases s.toList <;> rfl

theorem client_validate_eq (s : String) :
    Client.validate s = idChars.scan true s.toList := by
  rw [Client.validate, scanSegments_eq, asBytes, idBytes_encodes.scan_flatMap, scan_of_nonempty]

theorem server_validateBytes_eq (s : String) :
    Server.validateBytes s = idChars.scan true s.toList := by
  have segments : (fun segment => Server.segmentBytes (asBytes segment)) = idChars.isWord :=
    funext fun segment => by rw [segmentBytes_eq, asBytes, idBytes_encodes.isWord_flatMap]
  rw [Server.validateBytes, segments, ← scan_of_nonempty, (Alphabet.scan_eq_splitOn s.toList).1]
  rfl

/-- The check of the filters is the same. -/
theorem server_validate_eq (s : String) : Server.validate s = Server.validateBytes s := by
  have segments : Server.validSegment = idChars.isWord :=
    funext fun segment => by cases segment <;> rfl
  rw [server_validateBytes_eq, ← scan_of_nonempty, Server.validate, segments,
    (Alphabet.scan_eq_splitOn s.toList).1]
  cases s.toList.isEmpty <;> rfl

def IsLetter (c : Char) : Prop :=
  'A' ≤ c ∧ c ≤ 'Z' ∨ 'a' ≤ c ∧ c ≤ 'z'

def IsDigit (c : Char) : Prop :=
  '0' ≤ c ∧ c ≤ '9'

/-- A letter followed by letters, digits or underscores. -/
def IsSegment (segment : List Char) : Prop :=
  ∃ first rest, segment = first :: rest ∧ IsLetter first ∧
    ∀ c ∈ rest, IsLetter c ∨ IsDigit c ∨ c = '_'

/-- The rules of the documentation: segments separated by single dots. -/
def IsJobTypeId (s : String) : Prop :=
  ∃ segments : List (List Char), segments ≠ [] ∧ (∀ segment ∈ segments, IsSegment segment) ∧
    s.toList = ['.'].intercalate segments

theorem isAlpha_iff_isLetter (c : Char) : c.isAlpha = true ↔ IsLetter c := by
  rw [isAlpha_iff]
  rfl

theorem isWord_iff_isSegment (segment : List Char) :
    idChars.isWord segment = true ↔ IsSegment segment := by
  have later : ∀ c, idChars.later c = true ↔ IsLetter c ∨ IsDigit c ∨ c = '_' := by
    intro c
    show (c.isAlphanum || c == '_') = true ↔ _
    rw [Bool.or_eq_true, isAlphanum_iff, isAlpha_iff_isLetter, beq_iff_eq, or_assoc]
    rfl
  cases segment with
  | nil => exact iff_of_false Bool.false_ne_true fun ⟨_, _, same, _⟩ => nomatch same
  | cons c rest =>
      show (c.isAlpha && rest.all idChars.later) = true ↔ _
      rw [Bool.and_eq_true, isAlpha_iff_isLetter, List.all_eq_true]
      simp only [later]
      constructor
      · rintro ⟨first, others⟩
        exact ⟨c, rest, rfl, first, others⟩
      · rintro ⟨_, _, same, first, others⟩
        cases same
        exact ⟨first, others⟩

theorem joined_iff_isJobTypeId (s : String) : idChars.Joined s.toList ↔ IsJobTypeId s := by
  unfold Alphabet.Joined IsJobTypeId
  simp only [isWord_iff_isSegment]
  rfl

/-- Both validators accept the job type ids of the documentation and nothing
else, so an ID made by the client is one for the server and the other way round. -/
theorem job_type_id_validators_agree (s : String) :
    Client.validate s = Server.validateBytes s ∧
      (Client.validate s = true ↔ IsJobTypeId s) ∧
      Client.newJobTypeId s = Server.jobTypeId s := by
  have same : Client.validate s = Server.validateBytes s := by
    rw [client_validate_eq, server_validateBytes_eq]
  refine ⟨same, ?_, ?_⟩
  · rw [client_validate_eq, Alphabet.scan_iff_joined, joined_iff_isJobTypeId]
  · unfold Client.newJobTypeId Server.jobTypeId
    rw [server_validate_eq, same]
    cases Server.validateBytes s <;> rfl

end Ora.Proto
