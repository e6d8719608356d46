import Mathlib.Data.List.Basic

/-!
# Words joined by separators

An alphabet tells which symbols start a word and which may follow.  Words
joined by single separators are recognized symbol by symbol, or by splitting at
the separators; an encoding of the symbols keeps what is recognized.
-/

namespace Ora.Library

variable {α β : Type}

structure Alphabet (α : Type) where
  separator : α
  first : α → Bool
  later : α → Bool
  first_separator : first separator = false
  later_separator : later separator = false

namespace Alphabet

variable [DecidableEq α] [DecidableEq β] (alphabet : Alphabet α)

def isWord : List α → Bool
  | [] => false
  | symbol :: rest => alphabet.first symbol && rest.all alphabet.later

/-- At least one word, joined by single separators. -/
def Joined (symbols : List α) : Prop :=
  ∃ words : List (List α), words ≠ [] ∧ (∀ word ∈ words, alphabet.isWord word = true) ∧
    symbols = [alphabet.separator].intercalate words

/-- Recognize symbol by symbol, starting at the first symbol of a word or within one. -/
def scan : Bool → List α → Bool
  | start, [] => !start
  | start, symbol :: rest =>
      if symbol = alphabet.separator then
        !start && scan true rest
      else if start then
        alphabet.first symbol && scan false rest
      else
        alphabet.later symbol && scan false rest

variable {alphabet}

omit [DecidableEq α] in
theorem separator_not_mem_word {word : List α} (valid : alphabet.isWord word = true) :
    alphabet.separator ∉ word := by
  intro member
  cases word with
  | nil => cases member
  | cons symbol rest =>
      obtain ⟨first, later⟩ := Bool.and_eq_true_iff.mp valid
      obtain rfl | inside := List.mem_cons.mp member
      · rw [alphabet.first_separator] at first
        cases first
      · have allowed := List.all_eq_true.mp later _ inside
        rw [alphabet.later_separator] at allowed
        cases allowed

/-- Scanning from the start of a word is splitting at the separators; within a
word, its rest is read up to the next one. -/
theorem scan_eq_splitOn (symbols : List α) :
    alphabet.scan true symbols = (symbols.splitOn alphabet.separator).all alphabet.isWord ∧
      ∀ word words, symbols.splitOn alphabet.separator = word :: words →
        alphabet.scan false symbols =
          (word.all alphabet.later && words.all alphabet.isWord) := by
  induction symbols with
  | nil =>
      refine ⟨rfl, fun word words split => ?_⟩
      cases split
      rfl
  | cons symbol rest ih =>
      obtain ⟨word, words, split⟩ :=
        List.exists_cons_of_ne_nil (List.splitOn_ne_nil alphabet.separator rest)
      have within := ih.2 word words split
      rw [List.splitOn_cons_eq_if_modifyHead]
      by_cases separates : symbol = alphabet.separator
      · simp [scan, separates, ih.1, isWord]
      · simp [scan, separates, within, split, isWord, Bool.and_assoc]

/-- The parts between the separators are words exactly for joined words. -/
theorem splitOn_all_isWord_iff (symbols : List α) :
    (symbols.splitOn alphabet.separator).all alphabet.isWord = true ↔
      alphabet.Joined symbols := by
  rw [List.all_eq_true]
  constructor
  · intro valid
    exact ⟨_, List.splitOn_ne_nil _ _, valid, (List.intercalate_splitOn _).symm⟩
  · rintro ⟨words, nonempty, valid, rfl⟩
    rwa [List.splitOn_intercalate _ (fun word member => separator_not_mem_word (valid word member))
      nonempty]

theorem scan_iff_joined (symbols : List α) :
    alphabet.scan true symbols = true ↔ alphabet.Joined symbols := by
  rw [(scan_eq_splitOn symbols).1, splitOn_all_isWord_iff]

/-- A symbol of the alphabet is one code of the same kind, the code of any other
symbol starts with one that fits nowhere. -/
structure Encodes (alphabet : Alphabet α) (codes : Alphabet β) (encode : α → List β) : Prop where
  symbol : ∀ symbol,
    (∃ code, encode symbol = [code] ∧
      (code = codes.separator ↔ symbol = alphabet.separator) ∧
      codes.first code = alphabet.first symbol ∧ codes.later code = alphabet.later symbol) ∨
    (symbol ≠ alphabet.separator ∧ alphabet.first symbol = false ∧
      alphabet.later symbol = false ∧
      ∃ code rest, encode symbol = code :: rest ∧ code ≠ codes.separator ∧
        codes.first code = false ∧ codes.later code = false)

variable {codes : Alphabet β} {encode : α → List β}

/-- Scanning the codes gives the answer for the symbols. -/
theorem Encodes.scan_flatMap (encodes : Encodes alphabet codes encode) (start : Bool)
    (symbols : List α) :
    codes.scan start (symbols.flatMap encode) = alphabet.scan start symbols := by
  induction symbols generalizing start with
  | nil => rfl
  | cons symbol rest ih =>
      rw [List.flatMap_cons]
      obtain ⟨code, same, separates, first, later⟩ | ⟨other, first, later, code, more, same,
        codeOther, codeFirst, codeLater⟩ := encodes.symbol symbol
      · simp only [same, List.singleton_append, scan, separates, first, later, ih]
      · simp [same, scan, other, first, later, codeOther, codeFirst, codeLater]

omit [DecidableEq α] [DecidableEq β] in
theorem Encodes.all_later (encodes : Encodes alphabet codes encode) (symbols : List α) :
    (symbols.flatMap encode).all codes.later = symbols.all alphabet.later := by
  induction symbols with
  | nil => rfl
  | cons symbol rest ih =>
      rw [List.flatMap_cons, List.all_append, ih, List.all_cons]
      obtain ⟨code, same, _, _, later⟩ | ⟨_, _, later, code, more, same, _, _, codeLater⟩ :=
        encodes.symbol symbol
      · simp [same, later]
      · simp [same, later, codeLater]

omit [DecidableEq α] [DecidableEq β] in
/-- The codes of a word are a word. -/
theorem Encodes.isWord_flatMap (encodes : Encodes alphabet codes encode) (symbols : List α) :
    codes.isWord (symbols.flatMap encode) = alphabet.isWord symbols := by
  cases symbols with
  | nil => rfl
  | cons symbol rest =>
      have tail := encodes.all_later rest
      rw [List.flatMap_cons]
      obtain ⟨code, same, _, first, _⟩ | ⟨_, first, _, code, more, same, _, codeFirst, _⟩ :=
        encodes.symbol symbol
      · simp [same, isWord, first, tail]
      · simp [same, isWord, first, codeFirst]

end Alphabet

end Ora.Library
