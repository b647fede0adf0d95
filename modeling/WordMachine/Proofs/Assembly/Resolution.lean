import WordMachine.Assembly
import WordMachine.Operand
import WordMachine.Proofs.Assembly.Labelling
import WordMachine.Proofs.Text.Decimal

/-!
# The words of tokens

How word tokens are read: digits as a number (`word_repr`), the text of an operand as the operand
(`word_textOfWord`), a mnemonic that no label hides as its opcode (`word_mnemonic`), and the name
of a label as its address (`word_of_table`).

`result_ofTokens_eq_ok_iff` says when assembling succeeds and with which words, in terms of the
tokens alone.
-/

namespace WordMachine.Assembly

/-! ## Spellings -/

/-- Digits spell a number. -/
theorem Spelling.ofText_of_digits {text : String}
    (h : ∀ c ∈ text.toList, Text.Numeral.isDecimalDigit c = true) :
    Spelling.ofText text = .number (Text.Numeral.ofDigits? (maxWord + 1) 10 text.toList) := by
  rw [Spelling.ofText]
  split
  · next c rest heq =>
    have hr : Text.Numeral.isDecimalDigit 'r' = true := h 'r' (by rw [heq]; exact List.mem_cons_self)
    exact absurd hr (by decide)
  · rw [if_pos (List.all_eq_true.mpr h)]

/-- An `r` and digits spell a register. -/
theorem Spelling.ofText_of_register {c : Char} {rest : List Char}
    (h : ∀ d ∈ c :: rest, Text.Numeral.isDecimalDigit d = true) :
    Spelling.ofText (String.ofList ('r' :: c :: rest)) =
      .register (Text.Numeral.ofDigits? 8 10 (c :: rest)) := by
  rw [Spelling.ofText, String.toList_ofList]
  simp only
  rw [if_pos (List.all_eq_true.mpr h)]

/-- What starts with neither an `r` nor a digit is a name. -/
theorem Spelling.ofText_of_head {c : Char} {rest : List Char} (hr : c ≠ 'r')
    (hdigit : Text.Numeral.isDecimalDigit c = false) :
    Spelling.ofText (String.ofList (c :: rest)) = .name := by
  rw [Spelling.ofText, String.toList_ofList]
  split
  · next d rest' heq => exact absurd (List.cons.inj heq).1 hr
  · rw [if_neg]
    simp [hdigit]

/-- A mnemonic is a name, also where it starts with an `r`. -/
theorem Spelling.ofText_mnemonic (opcode : Opcode) : Spelling.ofText opcode.mnemonic = .name := by
  cases opcode <;> rfl

end WordMachine.Assembly

namespace WordMachine.Opcode

/-- Mnemonics are written in lower case. -/
theorem toLower_mnemonic (opcode : Opcode) : opcode.mnemonic.toLower = opcode.mnemonic := by
  rw [← String.toList_inj]
  change (opcode.mnemonic.map Char.toLower).toList = _
  rw [String.toList_map]
  cases opcode <;> rfl

/-- The mnemonic of an opcode is read as the opcode. -/
theorem ofMnemonic?_mnemonic (opcode : Opcode) : ofMnemonic? opcode.mnemonic = some opcode := by
  rw [ofMnemonic?]
  simp only [toLower_mnemonic]
  cases opcode <;> rfl

/-- An opcode is a valid word. -/
theorem isValid_toWord (opcode : Opcode) : opcode.toWord.isValid = true := by
  have hlt := opcode.code_lt
  rw [Word.isValid_iff_le, toNat_toWord]
  omega

end WordMachine.Opcode

namespace WordMachine.Assembly

/-! ## Words -/

namespace Labels

/-- A printed number is read as the number, unless it is too large for a word. -/
theorem word_repr (labels : Labels) (n : Nat) :
    labels.word n.repr =
      if n ≤ maxWord then .ok (UInt16.ofNat n) else .error (.numberTooLarge n.repr) := by
  rw [word, Spelling.ofText_of_digits fun _ => Text.Numeral.isDecimalDigit_of_mem_repr,
    Text.Numeral.ofDigits?_repr]
  by_cases h : n ≤ maxWord
  · rw [if_pos (Nat.lt_succ_of_le h), if_pos h]
  · rw [if_neg (by omega), if_neg h]

/-- A printed register is read as the register. -/
theorem word_register (labels : Labels) (index : Fin 8) :
    labels.word (Operand.register index).text = .ok (Operand.register index).toWord := by
  have htext : (Operand.register index).text =
      String.ofList ('r' :: Nat.toDigits 10 index.val) := by
    rw [← String.toList_inj, String.toList_ofList]
    change ("r" ++ index.val.repr).toList = _
    rw [String.toList_append, Nat.toList_repr]
    rfl
  obtain ⟨c, rest, hdigits⟩ := List.exists_cons_of_ne_nil (Nat.toDigits_ne_nil (n := index) (b := 10))
  have hall : ∀ d ∈ c :: rest, Text.Numeral.isDecimalDigit d = true := by
    intro d hd
    rw [← hdigits, ← Nat.toList_repr] at hd
    exact Text.Numeral.isDecimalDigit_of_mem_repr hd
  rw [word, htext, hdigits, Spelling.ofText_of_register hall, ← hdigits, ← Nat.toList_repr,
    Text.Numeral.ofDigits?_repr, if_pos index.isLt]
  simp [Word.ofRegister?, Operand.toWord]

/-- A printed operand is read as its word; a word that is no operand is refused. -/
theorem word_textOfWord (labels : Labels) (word : Word) :
    labels.word (Operand.textOfWord word) =
      if word.isValid then .ok word else .error (.numberTooLarge word.toNat.repr) := by
  rw [Operand.textOfWord]
  cases hdecode : Operand.decode word with
  | error fault =>
    have hinvalid := (Operand.decode_eq_error_iff.mp hdecode).1
    have hlarge : ¬ word.toNat ≤ maxWord := by
      rw [maxWord, ← Word.isValid_iff_le, hinvalid]
      decide
    rw [if_neg (by simp [hinvalid])]
    exact (labels.word_repr word.toNat).trans (if_neg hlarge)
  | ok operand =>
    obtain rfl := Operand.decode_eq_ok_iff.mp hdecode
    cases operand with
    | literal value =>
      have hvalid : (Operand.literal value).toWord.isValid = true := value.isValid_toWord
      rw [if_pos hvalid]
      refine (labels.word_repr value.val).trans (if_pos ?_)
      rw [maxWord]
      omega
    | register index =>
      have hvalid : (Operand.register index).toWord.isValid = true := by
        rw [Word.isValid_iff_le, Operand.toNat_toWord_register]
        omega
      rw [if_pos hvalid]
      exact labels.word_register index

/-- A word printed as a number is read as the word, unless it is invalid. -/
theorem word_toString (labels : Labels) (word : Word) :
    labels.word (toString word) =
      if word.isValid then .ok word else .error (.numberTooLarge word.toNat.repr) := by
  have hnumber : labels.word (toString word) = _ := labels.word_repr word.toNat
  rw [hnumber, maxWord]
  simp only [← Word.isValid_iff_le, UInt16.ofNat_toNat]

/-- The name of a label is read as its address. -/
theorem word_of_table {labels : Labels} {name : String} {address : Word}
    (hname : Spelling.ofText name = .name) (htable : labels.table[name]? = some address) :
    labels.word name = .ok address := by
  rw [word, hname]
  simp only [htable]

/-- A mnemonic that is no label is read as its opcode. -/
theorem word_mnemonic {labels : Labels} {opcode : Opcode}
    (htable : labels.table[opcode.mnemonic]? = none) :
    labels.word opcode.mnemonic = .ok opcode.toWord := by
  rw [word, Spelling.ofText_mnemonic]
  simp only [htable, Opcode.ofMnemonic?_mnemonic]

/-- The word of a token that should have one, or why it has none. -/
def read (labels : Labels) : Token → Option (Except Cause Word)
  | .word text => some (labels.word text)
  | .character value => some (characterWord value)
  | .label _ | .malformed _ => none

/-- A placed token is read like the token, and what is wrong with it is on its line. -/
theorem tokenWord?_eq (labels : Labels) (placed : PlacedToken) :
    labels.tokenWord? placed =
      (labels.read placed.token).map fun reading => reading.mapError (⟨placed.line, ·⟩) := by
  obtain ⟨line, token⟩ := placed
  cases token <;> rfl

end Labels

/-! ## Results -/

/-- A better account of what went wrong makes nothing right. -/
theorem mapError_eq_ok_iff {ε ε' α : Type} {f : ε → ε'} {reading : Except ε α} {value : α} :
    reading.mapError f = .ok value ↔ reading = .ok value := by
  cases reading with
  | error cause => exact ⟨nofun, nofun⟩
  | ok word =>
    constructor
    · intro h
      exact congrArg Except.ok (Except.ok.inj h)
    · intro h
      exact congrArg Except.ok (Except.ok.inj h)

/-- Placed tokens are all read as words exactly if the tokens are. -/
theorem filterMap_tokenWord?_eq_iff (labels : Labels) (placed : List PlacedToken)
    (words : List Word) :
    placed.filterMap labels.tokenWord? = words.map Except.ok ↔
      (placed.map PlacedToken.token).filterMap labels.read = words.map Except.ok := by
  induction placed generalizing words with
  | nil => simp
  | cons first placed ih =>
    rw [List.map_cons, List.filterMap_cons, List.filterMap_cons, Labels.tokenWord?_eq]
    cases hread : labels.read first.token with
    | none => exact ih words
    | some reading =>
      cases words with
      | nil => simp
      | cons word words =>
        simp only [Option.map_some, List.map_cons, List.cons.injEq, ih, mapError_eq_ok_iff]

/-- Readings are all words exactly if none of them is refused; the words are then what is read. -/
theorem eq_map_ok_iff {ε α : Type} (readings : List (Except ε α)) (values : List α) :
    readings = values.map Except.ok ↔
      (∀ cause, .error cause ∉ readings) ∧ readings.filterMap Except.toOption = values := by
  induction readings generalizing values with
  | nil => cases values <;> simp
  | cons reading readings ih =>
    cases reading with
    | error cause =>
      refine iff_of_false ?_ fun h => h.1 cause List.mem_cons_self
      cases values <;> simp
    | ok value => cases values <;> simp [ih, Except.toOption, and_left_comm]

/-- No quoted character is reported as unclosed exactly if no token is malformed. -/
theorem filterMap_unclosed?_eq_nil_iff (placed : List PlacedToken) :
    placed.filterMap PlacedToken.unclosed? = [] ↔
      ∀ text, .malformed text ∉ placed.map PlacedToken.token := by
  rw [List.filterMap_eq_nil_iff]
  constructor
  · intro h text htext
    obtain ⟨first, hfirst, heq⟩ := List.mem_map.mp htext
    have hnone := h first hfirst
    simp [PlacedToken.unclosed?, heq] at hnone
  · intro h first hfirst
    have hmem := List.mem_map_of_mem (f := PlacedToken.token) hfirst
    obtain ⟨line, token⟩ := first
    cases token with
    | malformed text => exact absurd hmem (h text)
    | _ => rfl

/-- Assembling succeeds exactly if no token is malformed, no label is refused, every token that
should have a word has one and the words fit into memory. The words are then those of the
tokens. -/
theorem result_ofTokens_eq_ok_iff (placed : List PlacedToken) (words : List Word) :
    (ofTokens placed).result = .ok words ↔
      (∀ text, .malformed text ∉ placed.map PlacedToken.token) ∧
        (Labels.ofTokens placed).faults = [] ∧
        (placed.map PlacedToken.token).filterMap (Labels.ofTokens placed).read =
          words.map Except.ok ∧
        words.length ≤ memorySize := by
  have hdiagnostics : (ofTokens placed).diagnostics = [] ↔
      (((placed.filterMap PlacedToken.unclosed? = [] ∧ (Labels.ofTokens placed).faults = []) ∧
        ∀ cause, .error cause ∉ placed.filterMap (Labels.ofTokens placed).tokenWord?) ∧
        ¬ memorySize < (ofTokens placed).words.length) := by
    rw [← List.length_eq_zero_iff, ofTokens]
    simp only [List.length_mergeSort, List.length_eq_zero_iff, List.append_eq_nil_iff,
      List.reverse_eq_nil_iff, sizeFault]
    refine and_congr (and_congr_right' ?_) ?_
    · rw [List.filterMap_eq_nil_iff]
      constructor
      · intro h cause hcause
        exact nomatch h _ hcause
      · intro h reading hreading
        cases reading with
        | error cause => exact absurd hreading (h cause)
        | ok word => rfl
    · split <;> simp_all
  have hwords : (ofTokens placed).words =
      (placed.filterMap (Labels.ofTokens placed).tokenWord?).filterMap Except.toOption := rfl
  rw [← filterMap_tokenWord?_eq_iff, ← filterMap_unclosed?_eq_nil_iff, eq_map_ok_iff, ← hwords,
    result]
  by_cases hempty : (ofTokens placed).diagnostics = []
  · obtain ⟨⟨⟨hclosed, hfaults⟩, hread⟩, hfits⟩ := hdiagnostics.mp hempty
    rw [if_pos (List.isEmpty_iff.mpr hempty), Except.ok.injEq]
    constructor
    · rintro rfl
      exact ⟨hclosed, hfaults, ⟨hread, rfl⟩, Nat.le_of_not_lt hfits⟩
    · rintro ⟨-, -, ⟨-, heq⟩, -⟩
      exact heq
  · rw [if_neg (by rwa [List.isEmpty_iff])]
    refine iff_of_false (fun h => nomatch h) ?_
    rintro ⟨hclosed, hfaults, ⟨hread, rfl⟩, hfits⟩
    exact hempty (hdiagnostics.mpr ⟨⟨⟨hclosed, hfaults⟩, hread⟩, Nat.not_lt_of_le hfits⟩)

end WordMachine.Assembly
