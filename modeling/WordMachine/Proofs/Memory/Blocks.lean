import WordMachine.Proofs.Memory.Checked

/-!
# Blocks are written whole or not at all

A block is looked at as a whole before its first word is written. What is written is then what
writing its words one by one gives, and if anything is wrong with the block nothing is written
(`writes_whole_or_nothing`).

The end of a block is computed in sixty-four bits, and a block whose end needs more has no answer at
all, although a single word is refused wherever it should go (`writeBlock_at_last_address`).
-/

namespace WordMachine.Memory

/-- Writes words one by one, from an address on. -/
def writeEach (memory : Memory) (address : Nat) : List Word → Except Fault Memory
  | [] => .ok memory
  | word :: words => do
    let after ← memory.write address word
    after.writeEach (address + 1) words

variable {memory : Memory} {address : Nat} {words : List Word}

/-- Words that fit and are valid can be written one by one. -/
theorem writeEach_of_valid (fits : address + words.length ≤ memorySize)
    (valid : ∀ word ∈ words, word.isValid = true) :
    memory.writeEach address words = .ok (memory.overlay address words valid) := by
  induction words generalizing memory address with
  | nil => rfl
  | cons word words ih =>
    rw [List.length_cons] at fits
    have hword := valid word List.mem_cons_self
    have hwrite : memory.write address word = .ok (memory.put address ⟨word, hword⟩) := by
      rw [write, dif_pos hword, if_pos (by omega)]
    rw [writeEach, hwrite]
    exact ih (by omega) _

/-- A block is written exactly if it fits and its words are valid. -/
theorem writeBlock_eq_ok_iff {after : Memory} :
    memory.writeBlock address words = .ok after ↔
      address + words.length ≤ memorySize ∧
        ∃ valid : ∀ word ∈ words, word.isValid = true,
          memory.overlay address words valid = after := by
  have hresult := memory.writesBlockTo_writeBlock address words
  constructor
  · intro h
    rw [h] at hresult
    cases hresult with
    | writes fits valid => exact ⟨fits, valid, rfl⟩
  · rintro ⟨fits, valid, rfl⟩
    generalize memory.writeBlock address words = result at hresult ⊢
    cases hresult with
    | overflows hsum => exact absurd (Nat.le_trans hsum fits) (by decide)
    | leaves hsum hpast => exact absurd hpast (Nat.not_lt_of_le fits)
    | rejects _ hword =>
      exact absurd (hword.symm.trans (firstInvalid?_eq_none_iff.mpr valid)) nofun
    | writes => rfl

/-- A block has no answer exactly if its end needs more than sixty-four bits. -/
theorem writeBlockChecked_eq_none_iff :
    memory.writeBlockChecked address words = none ↔ UInt64.size ≤ address + words.length := by
  rw [writeBlockChecked_eq]
  have hresult := memory.writesBlockTo_writeBlock address words
  generalize memory.writeBlock address words = result at hresult ⊢
  cases hresult with
  | overflows hsum => exact iff_of_true rfl hsum
  | leaves hsum => exact iff_of_false nofun (Nat.not_le_of_lt hsum)
  | rejects fits | writes fits =>
    exact iff_of_false nofun (Nat.not_le_of_lt (Nat.lt_of_le_of_lt fits (by decide)))

/-- A block is written exactly if it lies in memory and its words are valid, and then as its words
are written one by one. Otherwise memory stays as it is. There is an answer unless the end of the
block needs more than sixty-four bits. -/
theorem writes_whole_or_nothing (memory : Memory) (address : Nat) (words : List Word) :
    (memory.writeBlockChecked address words = none ↔ UInt64.size ≤ address + words.length) ∧
      ((∃ after, memory.writeBlock address words = .ok after) ↔
        address + words.length ≤ 32768 ∧ ∀ word ∈ words, word.toNat ≤ 32775) ∧
      (∀ after, memory.writeBlock address words = .ok after →
        memory.writeEach address words = .ok after ∧
          memory.writeBlockChecked address words = some (.ok (), after)) ∧
      ∀ fault, memory.writeBlock address words = .error (.fault fault) →
        memory.writeBlockChecked address words = some (.error fault, memory) := by
  have hchecked := memory.writeBlockChecked_eq address words
  refine ⟨writeBlockChecked_eq_none_iff, ⟨?_, ?_⟩, ?_, ?_⟩
  · rintro ⟨after, hafter⟩
    obtain ⟨fits, valid, -⟩ := writeBlock_eq_ok_iff.mp hafter
    exact ⟨fits, fun word hword => (Word.isValid_iff_le word).mp (valid word hword)⟩
  · rintro ⟨fits, valid⟩
    have hvalid : ∀ word ∈ words, word.isValid = true := fun word hword =>
      (Word.isValid_iff_le word).mpr (valid word hword)
    exact ⟨_, writeBlock_eq_ok_iff.mpr ⟨fits, hvalid, rfl⟩⟩
  · intro after hafter
    obtain ⟨fits, valid, rfl⟩ := writeBlock_eq_ok_iff.mp hafter
    rw [hafter] at hchecked
    exact ⟨writeEach_of_valid fits valid, hchecked⟩
  · intro fault hfault
    rw [hfault] at hchecked
    exact hchecked

/-- A block of one word at the largest address in sixty-four bits ends behind it and has no answer.
Written by itself the word is refused, and so is a block without words there. -/
theorem writeBlock_at_last_address :
    empty.writeBlockChecked 18446744073709551615 [0] = none ∧
      empty.writeBlock 18446744073709551615 [0] = .error .endOverflow ∧
      empty.write 18446744073709551615 0 = .error (.outOfBounds 18446744073709551615) ∧
      empty.writeBlock 18446744073709551615 [] =
        .error (.fault (.outOfBounds 18446744073709551614)) := by
  refine ⟨?_, ?_, ?_, ?_⟩
  · rfl
  · rfl
  · rfl
  · rfl

end WordMachine.Memory
