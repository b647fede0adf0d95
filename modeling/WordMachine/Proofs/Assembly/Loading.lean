import WordMachine.Debugger
import WordMachine.Proofs.Listing.Reassembly

/-!
# What assembling gives can be loaded

Assembling and loading check the same things in different places: the assembler looks at each token
by itself, and a program is checked as a list of words. `Labels.isValid_of_read` goes through the
kinds of tokens, and finds that what is not refused is a valid word.

`assembles_iff_loads` adds the converse, for which a text must be found: the one that disassembling
gives.
-/

namespace WordMachine

/-! ## Valid words -/

/-- A number up to the largest valid word is a valid word. -/
theorem Word.isValid_ofNat {n : Nat} (h : n ≤ maxWord) : Word.isValid (UInt16.ofNat n) = true := by
  rw [maxWord] at h
  rw [Word.isValid_iff_le, UInt16.toNat_ofNat']
  omega

/-- A register is a valid word. -/
theorem Word.isValid_of_ofRegister? {index : Nat} {word : Word}
    (h : Word.ofRegister? index = some word) : word.isValid = true := by
  unfold Word.ofRegister? at h
  split at h
  · obtain rfl := Option.some.inj h
    exact Word.isValid_ofNat (by rw [maxWord]; omega)
  · cases h

namespace Assembly

/-! ## The words of tokens -/

/-- A number that is spelled out is not too large. -/
theorem Spelling.le_of_ofText {text : String} {value : Nat}
    (h : Spelling.ofText text = .number (some value)) : value ≤ maxWord := by
  unfold Spelling.ofText at h
  split at h
  · split at h <;> cases h
  · split at h
    · have hdigits := Spelling.number.inj h
      exact Nat.le_of_lt_succ (Text.Numeral.ofDigits?_lt (Nat.succ_pos _) hdigits)
    · cases h

/-- A character that is not too large is a valid word. -/
theorem isValid_of_characterWord {value : Char} {word : Word}
    (h : characterWord value = .ok word) : word.isValid = true := by
  unfold characterWord at h
  split at h
  · next hsmall =>
    obtain rfl := Except.ok.inj h
    exact Word.isValid_ofNat hsmall
  · cases h

namespace Labels

variable {placed : List PlacedToken} {word : Word}

/-- The address of a label is a valid word, since it is cut off at the last cell. -/
theorem isValid_of_table {name : String} (h : (ofTokens placed).table[name]? = some word) :
    word.isValid = true := by
  rw [table_ofTokens, addressIn?] at h
  split at h
  · obtain rfl := Option.some.inj h
    exact Word.isValid_ofNat (by rw [maxWord, memorySize]; omega)
  · cases h

/-- What a word token stands for is a valid word. -/
theorem isValid_of_word {text : String} (h : (ofTokens placed).word text = .ok word) :
    word.isValid = true := by
  unfold Labels.word at h
  split at h
  · next value hspelling =>
    obtain rfl := Except.ok.inj h
    exact Word.isValid_ofNat (Spelling.le_of_ofText hspelling)
  · cases h
  · split at h
    · next found hregister =>
      obtain rfl := Except.ok.inj h
      obtain ⟨value, -, hvalue⟩ := Option.bind_eq_some_iff.mp hregister
      exact Word.isValid_of_ofRegister? hvalue
    · cases h
  · split at h
    · next address _ htable =>
      obtain rfl := Except.ok.inj h
      exact isValid_of_table htable
    · next opcode _ _ =>
      obtain rfl := Except.ok.inj h
      exact opcode.isValid_toWord
    · cases h

/-- Whatever a token is, the word that it stands for is valid. -/
theorem isValid_of_read {token : Token} (h : (ofTokens placed).read token = some (.ok word)) :
    word.isValid = true := by
  cases token with
  | word text => exact isValid_of_word (Option.some.inj h)
  | character value => exact isValid_of_characterWord (Option.some.inj h)
  | label | malformed => cases h

end Labels

/-! ## Programs -/

/-- What a text assembles to is a program. -/
theorem exists_program_of_assemble {text : String} {words : List Word}
    (h : assemble text = .ok words) : ∃ program : Program, program.words = words := by
  obtain ⟨-, -, hread, hfits⟩ := (result_ofTokens_eq_ok_iff (scan text.toList) words).mp h
  refine ⟨⟨words, hfits, fun word hword => ?_⟩, rfl⟩
  have hok : Except.ok word ∈ words.map (Except.ok (ε := Cause)) := List.mem_map_of_mem hword
  rw [← hread] at hok
  obtain ⟨token, -, htoken⟩ := List.mem_filterMap.mp hok
  exact Labels.isValid_of_read htoken

/-- A list of words is what some text assembles to exactly if it can be loaded. Memory then holds
the words from address zero on and nothing else, whether they are loaded into it or a machine or a
debugger is started with them. -/
theorem assembles_iff_loads (words : List Word) :
    ((∃ text, assemble text = .ok words) ↔ ∃ program, Program.ofWords words = .ok program) ∧
      ∀ program, Program.ofWords words = .ok program →
        (∀ address, (Machine.start program).memory.word? address = words[address]?) ∧
          Memory.empty.loadWords words = .ok (Machine.start program).memory ∧
          ∀ input, (Debugger.start program input).machine = Machine.start program := by
  refine ⟨⟨?_, ?_⟩, ?_⟩
  · rintro ⟨text, htext⟩
    obtain ⟨program, hprogram⟩ := exists_program_of_assemble htext
    exact ⟨program, Program.ofWords_eq_ok_iff.mpr hprogram⟩
  · rintro ⟨program, hprogram⟩
    obtain rfl := Program.ofWords_eq_ok_iff.mp hprogram
    exact ⟨_, (Listing.assemble_disassemble_eq_ok_iff _ _).mpr ⟨rfl, program.fits, program.valid⟩⟩
  · intro program hprogram
    have hload : Memory.empty.loadWords words = .ok (Memory.empty.load program) := by
      rw [Memory.loadWords, hprogram]
      rfl
    obtain rfl := Program.ofWords_eq_ok_iff.mp hprogram
    exact ⟨Memory.word?_ofProgram program, hload, fun _ => rfl⟩

end Assembly

end WordMachine
