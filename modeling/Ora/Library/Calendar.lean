import Ora.Library.Decimal

/-!
# The calendar

Days since 1970 as dates of the proleptic Gregorian calendar, and milliseconds
since then as ISO 8601 timestamps.
-/

namespace Ora.Library

/-- The span a position lies in and the offset in it, of spans that follow each other. -/
def spanAt : List Nat → Nat → Option (Nat × Nat)
  | [], _ => none
  | length :: rest, position =>
      if position < length then
        some (0, position)
      else
        (spanAt rest (position - length)).map fun found => (found.1 + 1, found.2)

def spanStart : List Nat → Nat → Nat
  | length :: rest, index + 1 => length + spanStart rest index
  | _, _ => 0

def spanTotal : List Nat → Nat
  | [] => 0
  | length :: rest => length + spanTotal rest

/-- A position before the end of the spans is in one of them. -/
theorem spanAt_of_lt {lengths : List Nat} {position : Nat} (inside : position < spanTotal lengths) :
    ∃ index offset length, spanAt lengths position = some (index, offset) ∧
      lengths[index]? = some length ∧ offset < length ∧
      spanStart lengths index + offset = position := by
  induction lengths generalizing position with
  | nil => cases inside
  | cons first rest ih =>
      by_cases within : position < first
      · exact ⟨0, position, first, if_pos within, rfl, within, Nat.zero_add _⟩
      · have later : position - first < spanTotal rest := by
          unfold spanTotal at inside
          omega
        obtain ⟨index, offset, length, found, span, bound, start⟩ := ih later
        refine ⟨index + 1, offset, length, ?_, span, bound, ?_⟩
        · rw [spanAt, if_neg within, found]
          rfl
        · rw [spanStart]
          omega

def leapYear (year : Int) : Bool :=
  year % 4 == 0 && (year % 100 != 0 || year % 400 == 0)

def monthLengths (leap : Bool) : List Nat :=
  [31, if leap then 29 else 28, 31, 30, 31, 30, 31, 31, 30, 31, 30, 31]

def yearLength (leap : Bool) : Nat :=
  if leap then 366 else 365

theorem spanTotal_monthLengths (leap : Bool) : spanTotal (monthLengths leap) = yearLength leap := by
  cases leap <;> rfl

/-- The first day of a year. -/
def dayFromYear (year : Int) : Int :=
  365 * (year - 1970) + (year - 1969) / 4 - (year - 1901) / 100 + (year - 1601) / 400

theorem dayFromYear_succ (year : Int) :
    dayFromYear (year + 1) = dayFromYear year + yearLength (leapYear year) := by
  unfold dayFromYear
  by_cases leap : leapYear year = true
  · have shape : year % 4 = 0 ∧ (¬ year % 100 = 0 ∨ year % 400 = 0) := by
      simpa [leapYear] using leap
    rw [leap]
    simp only [yearLength, if_true]
    omega
  · have shape : ¬ (year % 4 = 0 ∧ (¬ year % 100 = 0 ∨ year % 400 = 0)) := by
      simpa [leapYear] using leap
    rw [Bool.not_eq_true] at leap
    rw [leap]
    simp only [yearLength, Bool.false_eq_true, if_false]
    omega

/-- The year of a day, at most one away from what the mean length of a year gives. -/
def yearFromDay (day : Int) : Int :=
  let guess := 1970 + 400 * day / 146097
  if dayFromYear (guess + 1) ≤ day then guess + 1
  else if day < dayFromYear guess then guess - 1
  else guess

theorem yearFromDay_bounds (day : Int) :
    dayFromYear (yearFromDay day) ≤ day ∧ day < dayFromYear (yearFromDay day + 1) := by
  have below : dayFromYear (1970 + 400 * day / 146097 - 1) ≤ day := by
    unfold dayFromYear
    omega
  have above : day < dayFromYear (1970 + 400 * day / 146097 + 1 + 1) := by
    unfold dayFromYear
    omega
  unfold yearFromDay
  simp only
  split
  · rename_i next
    exact ⟨next, above⟩
  · rename_i notNext
    split
    · rename_i previous
      rw [Int.sub_add_cancel]
      exact ⟨below, previous⟩
    · rename_i notPrevious
      exact ⟨Int.not_lt.mp notPrevious, Int.not_le.mp notNext⟩

/-- A date, the first month and the first day of a month are 1. -/
structure CivilDate where
  year : Int
  month : Nat
  day : Nat
  deriving DecidableEq, Repr

def civilFromDay (day : Int) : CivilDate :=
  let year := yearFromDay day
  let found := (spanAt (monthLengths (leapYear year)) (day - dayFromYear year).toNat).getD (0, 0)
  ⟨year, found.1 + 1, found.2 + 1⟩

/-- The day of a date, none if its month has no such day. -/
def dayFromCivil (date : CivilDate) : Option Int :=
  let lengths := monthLengths (leapYear date.year)
  match date.month, date.day with
  | month + 1, day + 1 =>
      lengths[month]?.bind fun length =>
        if day < length then
          some (dayFromYear date.year + (spanStart lengths month + day : Nat))
        else
          none
  | _, _ => none

/-- The month and the day of a date have two digits. -/
structure CivilDate.Short (date : CivilDate) : Prop where
  month : date.month < 100
  day : date.day < 100

theorem civilFromDay_spec (day : Int) :
    dayFromCivil (civilFromDay day) = some day ∧ (civilFromDay day).Short := by
  obtain ⟨first, next⟩ := yearFromDay_bounds day
  rw [dayFromYear_succ] at next
  have inside : (day - dayFromYear (yearFromDay day)).toNat <
      spanTotal (monthLengths (leapYear (yearFromDay day))) := by
    rw [spanTotal_monthLengths]
    omega
  obtain ⟨month, offset, length, found, span, bound, start⟩ := spanAt_of_lt inside
  have date : civilFromDay day = ⟨yearFromDay day, month + 1, offset + 1⟩ := by
    simp only [civilFromDay, found, Option.getD_some]
  rw [date]
  constructor
  · simp only [dayFromCivil, span, Option.bind_some, if_pos bound]
    rw [start]
    exact congrArg some (by omega)
  · have months : month < 12 := by
      obtain ⟨month, _⟩ := List.getElem?_eq_some_iff.mp span
      exact month
    have longest : length ≤ 31 := by
      have member := List.mem_of_getElem? span
      simp only [monthLengths, List.mem_cons, List.not_mem_nil, or_false] at member
      split at member <;> omega
    exact ⟨by show month + 1 < 100; omega, by show offset + 1 < 100; omega⟩

/-- The last digits of a number, padded with zeros. -/
def fixedDigits : Nat → Nat → List Char
  | 0, _ => []
  | count + 1, n => fixedDigits count (n / 10) ++ [Nat.digitChar (n % 10)]

/-- A number of exactly so many digits at the start of a text, and the rest. -/
def takeDigits (count : Nat) (text : List Char) : Option (Nat × List Char) :=
  if count ≤ text.length ∧ (text.take count).all Char.isDigit then
    some (Nat.ofDigitChars 10 (text.take count) 0, text.drop count)
  else
    none

@[simp] theorem fixedDigits_length (count n : Nat) : (fixedDigits count n).length = count := by
  induction count generalizing n with
  | zero => rfl
  | succ count ih => rw [fixedDigits, List.length_append, ih]; rfl

theorem isDigit_of_mem_fixedDigits {count n : Nat} {c : Char} (member : c ∈ fixedDigits count n) :
    c.isDigit = true := by
  induction count generalizing n with
  | zero => cases member
  | succ count ih =>
      obtain before | last := List.mem_append.mp member
      · exact ih before
      · rw [List.mem_singleton.mp last, Nat.isDigit_digitChar]
        exact decide_eq_true (Nat.mod_lt _ (by decide))

theorem ofDigitChars_fixedDigits {count n : Nat} (fits : n < Nat.pow 10 count) :
    Nat.ofDigitChars 10 (fixedDigits count n) 0 = n := by
  induction count generalizing n with
  | zero =>
      have zero : n = 0 := Nat.lt_one_iff.mp fits
      rw [zero]
      rfl
  | succ count ih =>
      have shorter : n / 10 < Nat.pow 10 count :=
        (Nat.div_lt_iff_lt_mul (by decide)).mpr fits
      rw [fixedDigits, Nat.ofDigitChars_append, ih shorter,
        Nat.ofDigitChars_cons_digitChar_of_lt_ten (Nat.mod_lt _ (by decide)),
        Nat.ofDigitChars_nil]
      exact Nat.div_add_mod n 10

theorem takeDigits_fixedDigits {count n : Nat} (fits : n < Nat.pow 10 count) (rest : List Char) :
    takeDigits count (fixedDigits count n ++ rest) = some (n, rest) := by
  have digits : (fixedDigits count n ++ rest).take count = fixedDigits count n :=
    List.take_left' (fixedDigits_length count n)
  have after : (fixedDigits count n ++ rest).drop count = rest :=
    List.drop_left' (fixedDigits_length count n)
  have all : (fixedDigits count n).all Char.isDigit = true :=
    List.all_eq_true.mpr fun _ member => isDigit_of_mem_fixedDigits member
  rw [takeDigits, digits, after, if_pos, ofDigitChars_fixedDigits fits]
  refine ⟨?_, all⟩
  rw [List.length_append, fixedDigits_length]
  exact Nat.le_add_right _ _

def millisPerDay : Int := 86400000

/-- The greatest number of milliseconds of a date, before and after 1970. -/
def maxMillis : Nat := 8640000000000000

/-- A year of four digits, or of six after its sign. -/
def isoYear (year : Int) : List Char :=
  if 0 ≤ year ∧ year ≤ 9999 then fixedDigits 4 year.toNat
  else (if 0 ≤ year then '+' else '-') :: fixedDigits 6 year.natAbs

def isoDate (day : Int) : List Char :=
  let date := civilFromDay day
  isoYear date.year ++ '-' :: fixedDigits 2 date.month ++ '-' :: fixedDigits 2 date.day

/-- A time of the day in seconds. -/
def isoTime (seconds : Nat) : List Char :=
  fixedDigits 2 (seconds / 3600) ++ ':' :: fixedDigits 2 (seconds / 60 % 60) ++
    ':' :: fixedDigits 2 (seconds % 60)

/-- The date and the time down to the second. -/
def isoSeconds (millis : Int) : List Char :=
  isoDate (millis / millisPerDay) ++ 'T' :: isoTime (millis % millisPerDay / 1000).toNat

/-- `Date.prototype.toISOString`, an invalid date is none. -/
def toISOString (millis : Int) : Option (List Char) :=
  if millis.natAbs ≤ maxMillis then
    some (isoSeconds millis ++ '.' :: fixedDigits 3 (millis % 1000).toNat ++ ['Z'])
  else
    none

def expect (c : Char) : List Char → Option (List Char)
  | first :: rest => if first = c then some rest else none
  | [] => none

def takeYear : List Char → Option (Int × List Char)
  | '+' :: text => (takeDigits 6 text).map fun found => (Int.ofNat found.1, found.2)
  | '-' :: text => (takeDigits 6 text).bind fun found =>
      if found.1 = 0 then none else some (-Int.ofNat found.1, found.2)
  | text => (takeDigits 4 text).map fun found => (Int.ofNat found.1, found.2)

def takeDate (text : List Char) : Option (Int × List Char) :=
  (takeYear text).bind fun year =>
    (expect '-' year.2).bind fun text =>
      (takeDigits 2 text).bind fun month =>
        (expect '-' month.2).bind fun text =>
          (takeDigits 2 text).bind fun day =>
            (dayFromCivil ⟨year.1, month.1, day.1⟩).map fun found => (found, day.2)

def takeTime (text : List Char) : Option (Nat × List Char) :=
  (takeDigits 2 text).bind fun hour =>
    (expect ':' hour.2).bind fun text =>
      (takeDigits 2 text).bind fun minute =>
        (expect ':' minute.2).bind fun text =>
          (takeDigits 2 text).bind fun second =>
            if hour.1 < 24 ∧ minute.1 < 60 ∧ second.1 < 60 then
              some ((hour.1 * 60 + minute.1) * 60 + second.1, second.2)
            else
              none

/-- The milliseconds, which may be left out. -/
def takeMillis : List Char → Option (Nat × List Char)
  | '.' :: text => takeDigits 3 text
  | text => some (0, text)

/-- The milliseconds since 1970 of a timestamp in UTC. -/
def parseIso (text : List Char) : Option Int :=
  (takeDate text).bind fun date =>
    (expect 'T' date.2).bind fun text =>
      (takeTime text).bind fun time =>
        (takeMillis time.2).bind fun millis =>
          let value := date.1 * millisPerDay + time.1 * 1000 + millis.1
          if millis.2 = ['Z'] ∧ value.natAbs ≤ maxMillis then some value else none

theorem expect_cons (c : Char) (rest : List Char) : expect c (c :: rest) = some rest :=
  if_pos rfl

/-- A digit is no sign. -/
theorem takeYear_of_isDigit {c : Char} (digit : c.isDigit = true) (rest : List Char) :
    takeYear (c :: rest) =
      (takeDigits 4 (c :: rest)).map fun found => (Int.ofNat found.1, found.2) := by
  have plus : c ≠ '+' := by
    rintro rfl
    cases digit
  have minus : c ≠ '-' := by
    rintro rfl
    cases digit
  unfold takeYear
  split
  · rename_i same
    exact absurd (List.cons.inj same).1 plus
  · rename_i same
    exact absurd (List.cons.inj same).1 minus
  · rfl

theorem takeYear_isoYear {year : Int} (fits : year.natAbs < 1000000) (rest : List Char) :
    takeYear (isoYear year ++ rest) = some (year, rest) := by
  unfold isoYear
  split
  · rename_i short
    have read := takeDigits_fixedDigits (show year.toNat < Nat.pow 10 4 by
      show year.toNat < 10000
      omega) rest
    cases digits : fixedDigits 4 year.toNat with
    | nil =>
        have length := fixedDigits_length 4 year.toNat
        rw [digits] at length
        cases length
    | cons c more =>
        have digit : c.isDigit = true :=
          isDigit_of_mem_fixedDigits (digits ▸ List.mem_cons_self ..)
        rw [digits] at read
        rw [List.cons_append, takeYear_of_isDigit digit, ← List.cons_append, read]
        exact congrArg (fun year => some (year, rest)) (Int.toNat_of_nonneg short.1)
  · rename_i long
    have read := takeDigits_fixedDigits (show year.natAbs < Nat.pow 10 6 from fits) rest
    split
    · rename_i positive
      show (takeDigits 6 (fixedDigits 6 year.natAbs ++ rest)).map _ = _
      rw [read]
      exact congrArg (fun year => some (year, rest)) (Int.natAbs_of_nonneg positive)
    · rename_i negative
      show (takeDigits 6 (fixedDigits 6 year.natAbs ++ rest)).bind _ = _
      rw [read]
      simp only [Option.bind_some]
      rw [if_neg (by omega)]
      exact congrArg (fun year => some (year, rest))
        (show -(year.natAbs : Int) = year by omega)

/-- A valid date is read back from its text. -/
theorem takeDate_isoDate {day : Int} (fits : (civilFromDay day).year.natAbs < 1000000)
    (rest : List Char) : takeDate (isoDate day ++ rest) = some (day, rest) := by
  obtain ⟨date, short⟩ := civilFromDay_spec day
  simp only [takeDate, isoDate, List.append_assoc, List.cons_append, takeYear_isoYear fits,
    Option.bind_some, expect_cons, takeDigits_fixedDigits (show _ < Nat.pow 10 2 from short.month),
    takeDigits_fixedDigits (show _ < Nat.pow 10 2 from short.day)]
  rw [date]
  rfl

theorem takeTime_isoTime {seconds : Nat} (fits : seconds < 86400) (rest : List Char) :
    takeTime (isoTime seconds ++ rest) = some (seconds, rest) := by
  have hour : seconds / 3600 < 24 := by omega
  have minute : seconds / 60 % 60 < 60 := Nat.mod_lt _ (by decide)
  have second : seconds % 60 < 60 := Nat.mod_lt _ (by decide)
  have two : ∀ n, n < 60 → n < Nat.pow 10 2 := fun n small => Nat.lt_trans small (by decide)
  simp only [takeTime, isoTime, List.append_assoc, List.cons_append, Option.bind_some, expect_cons,
    takeDigits_fixedDigits (two _ (Nat.lt_trans hour (by decide))),
    takeDigits_fixedDigits (two _ minute), takeDigits_fixedDigits (two _ second)]
  rw [if_pos ⟨hour, minute, second⟩]
  exact congrArg (fun time => some (time, rest)) (by omega)

/-- Valid dates have years of at most six digits. -/
theorem year_natAbs_lt {millis : Int} (valid : millis.natAbs ≤ maxMillis) :
    (civilFromDay (millis / millisPerDay)).year.natAbs < 1000000 := by
  obtain ⟨first, next⟩ := yearFromDay_bounds (millis / millisPerDay)
  show (yearFromDay (millis / millisPerDay)).natAbs < 1000000
  generalize yearFromDay (millis / millisPerDay) = year at *
  unfold dayFromYear at first next
  unfold maxMillis at valid
  unfold millisPerDay at first next
  omega

/-- A timestamp is read back, whether or not its milliseconds are written. -/
theorem parseIso_isoSeconds {millis : Int} (valid : millis.natAbs ≤ maxMillis) {text : List Char}
    (fraction : takeMillis text = some ((millis % 1000).toNat, ['Z'])) :
    parseIso (isoSeconds millis ++ text) = some millis := by
  have seconds : (millis % millisPerDay / 1000).toNat < 86400 := by
    unfold millisPerDay
    omega
  have value : millis / millisPerDay * millisPerDay +
      ((millis % millisPerDay / 1000).toNat : Int) * 1000 + ((millis % 1000).toNat : Int) =
        millis := by
    unfold millisPerDay
    omega
  simp only [parseIso, isoSeconds, List.append_assoc, List.cons_append, Option.bind_some,
    takeDate_isoDate (year_natAbs_lt valid), expect_cons, takeTime_isoTime seconds, fraction, value]
  exact if_pos ⟨trivial, valid⟩

theorem takeMillis_fixedDigits (millis : Int) :
    takeMillis ('.' :: fixedDigits 3 (millis % 1000).toNat ++ ['Z']) =
      some ((millis % 1000).toNat, ['Z']) :=
  takeDigits_fixedDigits (show (millis % 1000).toNat < 1000 by omega) ['Z']

/-- What is written before the fraction of a second has no dot. -/
theorem not_dot_of_mem_isoSeconds {millis : Int} {c : Char} (member : c ∈ isoSeconds millis) :
    c ≠ '.' := by
  have digits : ∀ count n, '.' ∉ fixedDigits count n := fun count n dot =>
    absurd (isDigit_of_mem_fixedDigits dot) (by decide)
  rintro rfl
  have year : '.' ∉ isoYear (civilFromDay (millis / millisPerDay)).year := by
    unfold isoYear
    split
    · exact digits _ _
    · split <;> simp [digits]
  simp [isoSeconds, isoDate, isoTime, digits, year] at member

end Ora.Library
