/-!
# Words and the numbers they hold

The machine moves 16-bit **words** and computes with 15-bit **literals**. A word below `32768` is
a literal, the next eight words name the registers `r0` to `r7`, and every word above those is no
encoding at all. The three classes tile the range: `isValid` is `isLiteral` or `isRegister`, and
no word is both (`isValid_iff`, `not_isLiteral_of_isRegister`).

Literals are `Fin 32768`, so sums and products wrap on their own.
-/

namespace WordMachine

/-- A word as it stands in an image, in memory, on the stack or in the program counter. -/
abbrev Word := UInt16

/-- A number the machine computes with: fifteen bits, arithmetic modulo `32768`. -/
abbrev Literal := Fin 32768

/-- There is a literal zero. -/
instance Literal.neZero : @NeZero Nat Zero.ofOfNat0 32768 := ⟨nofun⟩

/-- The number of memory cells, which is also the modulus of the arithmetic. -/
def memorySize : Nat := 32768

/-- The largest word that encodes anything: register `r7`. -/
def maxWord : Nat := 32775

namespace Word

/-- The word encodes a number. -/
def isLiteral (word : Word) : Bool := word < 32768

/-- The word names a register. -/
def isRegister (word : Word) : Bool := 32768 ≤ word && word ≤ 32775

/-- The word encodes anything at all. -/
def isValid (word : Word) : Bool := word ≤ 32775

/-- The word may stand in the program counter: an address, or one past the last address. -/
def isPc (word : Word) : Bool := word ≤ 32768

/-- The word is an ASCII character the console may print: a graphic character, the blank, or one
of the five control characters from tab to carriage return. -/
def isPrintable (word : Word) : Bool := (0x20 ≤ word && word ≤ 0x7e) || (0x09 ≤ word && word ≤ 0x0d)

/-- The word that names register `index`, if there is such a register. -/
def ofRegister? (index : Nat) : Option Word :=
  if index < 8 then some (UInt16.ofNat (32768 + index)) else none

theorem isLiteral_iff (word : Word) : word.isLiteral = true ↔ word.toNat < 32768 := by
  simp [isLiteral, UInt16.lt_iff_toNat_lt]

theorem isRegister_iff (word : Word) :
    word.isRegister = true ↔ 32768 ≤ word.toNat ∧ word.toNat ≤ 32775 := by
  simp [isRegister, UInt16.le_iff_toNat_le]

theorem isValid_iff_le (word : Word) : word.isValid = true ↔ word.toNat ≤ 32775 := by
  simp [isValid, UInt16.le_iff_toNat_le]

theorem isPc_iff (word : Word) : word.isPc = true ↔ word.toNat ≤ 32768 := by
  simp [isPc, UInt16.le_iff_toNat_le]

/-- A word is printable if it is an ASCII character that shows or leaves space. -/
theorem isPrintable_iff (word : Word) :
    word.isPrintable = true ↔
      (32 ≤ word.toNat ∧ word.toNat ≤ 126) ∨ (9 ≤ word.toNat ∧ word.toNat ≤ 13) := by
  simp only [isPrintable, Bool.or_eq_true, Bool.and_eq_true, decide_eq_true_eq,
    UInt16.le_iff_toNat_le, UInt16.reduceToNat]

/-- A printable word is the code of an ASCII character. -/
theorem lt_of_isPrintable {word : Word} (h : word.isPrintable = true) : word.toNat < 0x7f := by
  rw [isPrintable_iff] at h
  omega

/-- A valid word is a literal or names a register. -/
theorem isValid_iff (word : Word) :
    word.isValid = true ↔ word.isLiteral = true ∨ word.isRegister = true := by
  rw [isValid_iff_le, isLiteral_iff, isRegister_iff]; omega

/-- No word is both a literal and the name of a register. -/
theorem not_isLiteral_of_isRegister {word : Word} (h : word.isRegister = true) :
    word.isLiteral = false := by
  rw [isRegister_iff] at h
  rw [← Bool.not_eq_true, isLiteral_iff]; omega

end Word

/-- A word that encodes something; the only words a memory cell may hold. -/
abbrev ValidWord := { word : Word // word.isValid = true }

namespace Literal

/-- The word that encodes a literal. -/
def toWord (x : Literal) : Word := UInt16.ofNat x.val

/-- The literal a word encodes, if it encodes one. -/
def ofWord? (word : Word) : Option Literal :=
  if h : word.toNat < 32768 then some ⟨word.toNat, h⟩ else none

/-- The literal with the value of a byte. -/
def ofByte (byte : UInt8) : Literal :=
  ⟨byte.toNat, Nat.lt_trans byte.toNat_lt (by decide)⟩

/-- Every bit of `x` turned over. -/
def complement (x : Literal) : Literal := ⟨32767 - x.val, by omega⟩

@[simp] theorem toNat_toWord (x : Literal) : x.toWord.toNat = x.val := by
  simp only [toWord, UInt16.toNat_ofNat']
  omega

theorem isLiteral_toWord (x : Literal) : x.toWord.isLiteral = true := by
  rw [Word.isLiteral_iff, toNat_toWord]; exact x.isLt

theorem isValid_toWord (x : Literal) : x.toWord.isValid = true := by
  rw [Word.isValid_iff_le, toNat_toWord]; omega

/-- Reading back the word of a literal gives the literal. -/
@[simp] theorem ofWord?_toWord (x : Literal) : ofWord? x.toWord = some x := by
  simp [ofWord?]

/-- A word encodes at most one literal, and that literal is written as the word. -/
theorem ofWord?_eq_some_iff {word : Word} {x : Literal} : ofWord? word = some x ↔ word = x.toWord := by
  constructor
  · intro h
    simp only [ofWord?] at h
    split at h
    · next hlt =>
      obtain rfl := Option.some.inj h
      apply UInt16.toNat.inj
      rw [toNat_toWord]
    · cases h
  · rintro rfl; exact ofWord?_toWord x

/-- Exactly the words that are no literals are refused. -/
theorem ofWord?_eq_none_iff {word : Word} : ofWord? word = none ↔ word.isLiteral = false := by
  rw [← Bool.not_eq_true, Word.isLiteral_iff, ofWord?]
  split <;> simp_all

/-- The word of a literal, known to be valid. -/
def toValid (x : Literal) : ValidWord := ⟨x.toWord, isValid_toWord x⟩

end Literal

end WordMachine
