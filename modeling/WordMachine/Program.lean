import WordMachine.Fault

/-!
# Programs

A program is a list of words that memory can take: at most `memorySize` of them, and each a valid
word. `Program.ofWords` is the one place where this is checked, the length before the words.
-/

namespace WordMachine

/-- The first word of a list that encodes nothing. -/
def firstInvalid? (words : List Word) : Option Word := words.find? (fun word => !word.isValid)

theorem firstInvalid?_eq_none_iff {words : List Word} :
    firstInvalid? words = none ↔ ∀ word ∈ words, word.isValid = true := by
  simp [firstInvalid?]

theorem isValid_of_firstInvalid? {words : List Word} (h : firstInvalid? words = none) :
    ∀ word ∈ words, word.isValid = true :=
  firstInvalid?_eq_none_iff.1 h

/-- Words that can be loaded at address zero. -/
structure Program where
  words : List Word
  fits : words.length ≤ memorySize
  valid : ∀ word ∈ words, word.isValid = true
  deriving DecidableEq, Repr

namespace Program

/-- The program with the given words, unless there are too many or one of them is invalid. -/
def ofWords (words : List Word) : Except Fault Program :=
  if fits : words.length ≤ memorySize then
    match h : firstInvalid? words with
    | some word => .error (.invalidWord word)
    | none => .ok ⟨words, fits, isValid_of_firstInvalid? h⟩
  else .error (.programTooLarge words.length)

/-- A list of words is a program exactly if it fits and all of its words are valid. -/
theorem ofWords_eq_ok_iff {words : List Word} {program : Program} :
    ofWords words = .ok program ↔ program.words = words := by
  constructor
  · intro h
    simp only [ofWords] at h
    split at h
    · split at h
      · cases h
      · obtain rfl := Except.ok.inj h; rfl
    · cases h
  · rintro rfl
    simp only [ofWords, program.fits, dite_true]
    split
    · next word h =>
      have := firstInvalid?_eq_none_iff.2 program.valid
      simp_all
    · rfl

/-- Each way a list of words fails to be a program: its length, else its first invalid word. -/
theorem ofWords_eq_error_iff {words : List Word} {fault : Fault} :
    ofWords words = .error fault ↔
      (memorySize < words.length ∧ fault = .programTooLarge words.length) ∨
        (words.length ≤ memorySize ∧
          ∃ word, firstInvalid? words = some word ∧ fault = .invalidWord word) := by
  simp only [ofWords]
  split
  · next fits =>
    split
    · next word h => simp [h, fits, eq_comm, Nat.not_lt.2 fits]
    · next h => simp [h, Nat.not_lt.2 fits]
  · next large => simp [large, Nat.lt_of_not_le large, eq_comm]

end Program

end WordMachine
