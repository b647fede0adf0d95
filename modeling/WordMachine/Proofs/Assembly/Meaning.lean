import WordMachine.Proofs.Assembly.Addressing

/-!
# The language of the assembler

What the tokens of a text mean, and what can be wrong with them, said without the assembler. A
token means at most one word (`Means`), or offends against the language in at most one way
(`Offends`): a word token is read as a number, as a register, as a label and as a mnemonic, in this
order, and what it could be read as first decides, also where that reading fails.

`read_of_means` and `read_of_offends` say that the assembler reads tokens so, and
`exists_means_or_offends` that no token that should have a word is left out.
-/

namespace WordMachine.Assembly

/-! ## What is what -/

/-- The text can name a label: one or more of the letters, the digits and the underscore. -/
def IsLabelName (text : String) : Prop :=
  text ≠ "" ∧ ∀ c ∈ text.toList,
    ('A' ≤ c ∧ c ≤ 'Z') ∨ ('a' ≤ c ∧ c ≤ 'z') ∨ ('0' ≤ c ∧ c ≤ '9') ∨ c = '_'

/-- The name is defined by one of the tokens. -/
def IsDefined (all : List Token) (name : String) : Prop := IsLabelName name ∧ .label name ∈ all

/-- A token that should have a word means the word, among all the tokens of its text. -/
inductive Means (all : List Token) : Token → Word → Prop where
  /-- Digits only are a number. -/
  | number {text : String} (hne : text ≠ "") (hnumeral : IsNumeral text)
      (hsmall : Nat.ofDigitChars 10 text.toList 0 ≤ 32775) :
      Means all (.word text) (UInt16.ofNat (Nat.ofDigitChars 10 text.toList 0))
  /-- An `r` and digits are a register. -/
  | register {text : String} {digits : List Char} (htext : text.toList = 'r' :: digits)
      (hne : digits ≠ []) (hdigits : ∀ c ∈ digits, Text.Numeral.isDecimalDigit c = true)
      (hsmall : Nat.ofDigitChars 10 digits 0 ≤ 7) :
      Means all (.word text) (UInt16.ofNat (32768 + Nat.ofDigitChars 10 digits 0))
  /-- A defined name is the number of words in front of its first definition, up to the last cell. -/
  | label {name : String} (hnumeral : ¬ IsNumeral name) (hregister : ¬ IsRegisterName name)
      (hdefined : IsDefined all name) :
      Means all (.word name) (UInt16.ofNat (min (wordsBefore name all) 32767))
  /-- A name that is not defined is a mnemonic, in any case. -/
  | mnemonic {name : String} {opcode : Opcode} (hnumeral : ¬ IsNumeral name)
      (hregister : ¬ IsRegisterName name) (hdefined : ¬ IsDefined all name)
      (hopcode : name.toLower = opcode.mnemonic) :
      Means all (.word name) opcode.toWord
  /-- A character is its code point. -/
  | character {value : Char} (hsmall : value.toNat ≤ 32775) :
      Means all (.character value) (UInt16.ofNat value.toNat)

/-- A token that stands behind the tokens `front`, among all the tokens of its text, offends against
the language. -/
inductive Offends (all front : List Token) : Token → Cause → Prop where
  /-- A quoted character that is not closed is no token of the language. -/
  | unclosed (text : String) : Offends all front (.malformed text) (.unclosedCharacter text)
  | badLabel {name : String} (hname : ¬ IsLabelName name) :
      Offends all front (.label name) (.badLabel name)
  /-- The name is defined further in front already. -/
  | duplicateLabel {name : String} (hdefined : IsDefined front name) :
      Offends all front (.label name) (.duplicateLabel name)
  | numberTooLarge {text : String} (hnumeral : IsNumeral text)
      (hlarge : 32775 < Nat.ofDigitChars 10 text.toList 0) :
      Offends all front (.word text) (.numberTooLarge text)
  | noSuchRegister {text : String} {digits : List Char} (htext : text.toList = 'r' :: digits)
      (hne : digits ≠ []) (hdigits : ∀ c ∈ digits, Text.Numeral.isDecimalDigit c = true)
      (hlarge : 7 < Nat.ofDigitChars 10 digits 0) :
      Offends all front (.word text) (.noSuchRegister text)
  | unknownWord {text : String} (hnumeral : ¬ IsNumeral text) (hregister : ¬ IsRegisterName text)
      (hdefined : ¬ IsDefined all text) (hopcode : ∀ opcode : Opcode, text.toLower ≠ opcode.mnemonic) :
      Offends all front (.word text) (.unknownWord text)
  | characterTooLarge {value : Char} (hlarge : 32775 < value.toNat) :
      Offends all front (.character value) (.characterTooLarge value.toNat)

/-! ## The same in the assembler -/

/-- The assembler checks names for letters, digits and underscores. -/
theorem isName_iff {text : String} : isName text = true ↔ IsLabelName text := by
  have hchars (c : Char) : (c.isAlphanum || c == '_') = true ↔
      ('A' ≤ c ∧ c ≤ 'Z') ∨ ('a' ≤ c ∧ c ≤ 'z') ∨ ('0' ≤ c ∧ c ≤ '9') ∨ c = '_' := by
    change (((decide (65 ≤ c.val ∧ c.val ≤ 90) || (97 ≤ c.val && c.val ≤ 122)) ||
      (48 ≤ c.val && c.val ≤ 57)) || c == '_') = true ↔ _
    simp only [Bool.or_eq_true, Bool.and_eq_true, decide_eq_true_eq, beq_iff_eq, or_assoc]
    rfl
  rw [isName, IsLabelName, Bool.and_eq_true, List.all_eq_true]
  simp only [hchars]
  simp

/-- A defined name has an address. -/
theorem Labels.table_of_isDefined {placed : List PlacedToken} {name : String}
    (h : IsDefined (placed.map PlacedToken.token) name) :
    (ofTokens placed).table[name]? =
      some (UInt16.ofNat (min (wordsBefore name (placed.map PlacedToken.token)) 32767)) := by
  rw [table_ofTokens, addressIn?, Nat.zero_add]
  exact if_pos ⟨isName_iff.mpr h.1, h.2⟩

/-- A name that is not defined has none. -/
theorem Labels.table_of_not_isDefined {placed : List PlacedToken} {name : String}
    (h : ¬ IsDefined (placed.map PlacedToken.token) name) :
    (ofTokens placed).table[name]? = none := by
  rw [table_ofTokens, addressIn?]
  exact if_neg fun hdefined => h ⟨isName_iff.mp hdefined.1, hdefined.2⟩

end WordMachine.Assembly

namespace WordMachine.Opcode

/-- The mnemonics are found in any case. -/
theorem ofMnemonic?_eq_some_iff {name : String} {opcode : Opcode} :
    ofMnemonic? name = some opcode ↔ name.toLower = opcode.mnemonic := by
  constructor
  · intro h
    unfold ofMnemonic? at h
    exact (beq_iff_eq.mp (List.find?_some h :)).symm
  · intro h
    rw [ofMnemonic?, h, ← toLower_mnemonic opcode]
    exact ofMnemonic?_mnemonic opcode

end WordMachine.Opcode

namespace WordMachine.Assembly

variable {placed : List PlacedToken} {front : List Token} {token : Token}

/-- What a token means is what it is read as. -/
theorem read_of_means {word : Word} (h : Means (placed.map PlacedToken.token) token word) :
    (Labels.ofTokens placed).read token = some (.ok word) := by
  unfold Labels.read
  induction h with
  | @number text hne hnumeral hsmall =>
    have hnonempty : text.toList ≠ [] := by simpa using hne
    simp only [Labels.word, Spelling.ofText_of_digits hnumeral,
      Text.Numeral.ofDigits?_of_digits hnonempty hnumeral, maxWord, Nat.lt_succ_of_le hsmall, if_pos]
  | @register text digits htext hne hdigits hsmall =>
    obtain ⟨c, rest, rfl⟩ := List.exists_cons_of_ne_nil hne
    obtain rfl : text = String.ofList ('r' :: c :: rest) := by
      rw [← htext, String.ofList_toList]
    have hindex : Nat.ofDigitChars 10 (c :: rest) 0 < 8 := Nat.lt_succ_of_le hsmall
    simp only [Labels.word, Spelling.ofText_of_register hdigits,
      Text.Numeral.ofDigits?_of_digits hne hdigits, Word.ofRegister?, hindex, if_pos,
      Option.bind_some]
  | @label name hnumeral hregister hdefined =>
    simp only [Labels.word_of_table (Spelling.ofText_of_not hnumeral hregister)
      (Labels.table_of_isDefined hdefined)]
  | @mnemonic name opcode hnumeral hregister hdefined hopcode =>
    simp only [Labels.word, Spelling.ofText_of_not hnumeral hregister,
      Labels.table_of_not_isDefined hdefined, Opcode.ofMnemonic?_eq_some_iff.mpr hopcode]
  | character hsmall => exact congrArg some (if_pos hsmall)

/-- A token that should have a word and offends is refused for the same cause. -/
theorem read_of_offends {cause : Cause}
    (h : Offends (placed.map PlacedToken.token) front token cause) (hword : token.hasWord = true) :
    (Labels.ofTokens placed).read token = some (.error cause) := by
  unfold Labels.read
  induction h with
  | unclosed | badLabel | duplicateLabel => cases hword
  | @numberTooLarge text hnumeral hlarge =>
    have hnonempty : text.toList ≠ [] := by
      intro hempty
      rw [hempty] at hlarge
      exact absurd hlarge (by decide)
    simp only [Labels.word, Spelling.ofText_of_digits hnumeral,
      Text.Numeral.ofDigits?_of_digits hnonempty hnumeral, maxWord]
    rw [if_neg (by omega)]
  | @noSuchRegister text digits htext hne hdigits hlarge =>
    obtain ⟨c, rest, rfl⟩ := List.exists_cons_of_ne_nil hne
    obtain rfl : text = String.ofList ('r' :: c :: rest) := by
      rw [← htext, String.ofList_toList]
    simp only [Labels.word, Spelling.ofText_of_register hdigits,
      Text.Numeral.ofDigits?_of_digits hne hdigits]
    rw [if_neg (by omega)]
    rfl
  | @unknownWord text hnumeral hregister hdefined hopcode =>
    have hnone : Opcode.ofMnemonic? text = none :=
      Option.eq_none_iff_forall_ne_some.mpr fun opcode hfound =>
        hopcode opcode (Opcode.ofMnemonic?_eq_some_iff.mp hfound)
    simp only [Labels.word, Spelling.ofText_of_not hnumeral hregister,
      Labels.table_of_not_isDefined hdefined, hnone]
  | characterTooLarge hlarge => exact congrArg some (if_neg (Nat.not_le_of_lt hlarge))

/-- A token that should have a word means one, or offends against the language. -/
theorem exists_means_or_offends (all front : List Token) {token : Token}
    (hword : token.hasWord = true) (hne : token ≠ .word "") :
    (∃ word, Means all token word) ∨ ∃ cause, Offends all front token cause := by
  cases token with
  | label | malformed => cases hword
  | character value =>
    by_cases hsmall : value.toNat ≤ 32775
    · exact .inl ⟨_, .character hsmall⟩
    · exact .inr ⟨_, .characterTooLarge (Nat.lt_of_not_le hsmall)⟩
  | word text =>
    have hnonempty : text ≠ "" := by
      rintro rfl
      exact hne rfl
    by_cases hnumeral : IsNumeral text
    · by_cases hsmall : Nat.ofDigitChars 10 text.toList 0 ≤ 32775
      · exact .inl ⟨_, .number hnonempty hnumeral hsmall⟩
      · exact .inr ⟨_, .numberTooLarge hnumeral (Nat.lt_of_not_le hsmall)⟩
    · by_cases hregister : IsRegisterName text
      · obtain ⟨digits, hdigits, htext, hall⟩ := hregister
        by_cases hsmall : Nat.ofDigitChars 10 digits 0 ≤ 7
        · exact .inl ⟨_, .register htext hdigits hall hsmall⟩
        · exact .inr ⟨_, .noSuchRegister htext hdigits hall (Nat.lt_of_not_le hsmall)⟩
      · by_cases hdefined : IsDefined all text
        · exact .inl ⟨_, .label hnumeral hregister hdefined⟩
        · by_cases hopcode : ∃ opcode : Opcode, text.toLower = opcode.mnemonic
          · obtain ⟨opcode, hopcode⟩ := hopcode
            exact .inl ⟨_, .mnemonic hnumeral hregister hdefined hopcode⟩
          · exact .inr ⟨_, .unknownWord hnumeral hregister hdefined (not_exists.mp hopcode)⟩

end WordMachine.Assembly
