import WordMachine.Fault

/-!
# Operands

A valid word read as an operand: a literal, or one of the eight registers. `Operand.decode` and
`Operand.toWord` are inverse on the valid words (`decode_eq_ok_iff`), and every other word is
refused as it stands (`decode_eq_error_iff`).
-/

namespace WordMachine

/-- What an operand word stands for. -/
inductive Operand where
  | literal (value : Literal)
  | register (index : Fin 8)
  deriving DecidableEq, Repr

namespace Operand

/-- Splits a word into a literal or a register. -/
def decode (word : Word) : Except Fault Operand :=
  if h : word.toNat < 32768 then .ok (.literal ⟨word.toNat, h⟩)
  else if h : word.toNat - 32768 < 8 then .ok (.register ⟨word.toNat - 32768, h⟩)
  else .error (.invalidOperand word)

/-- Reads a word as a place to write to, which only a register is. -/
def destination (word : Word) : Except Fault (Fin 8) :=
  match decode word with
  | .ok (.register index) => .ok index
  | .ok (.literal _) => .error (.notARegister word)
  | .error fault => .error fault

/-- The word that encodes an operand. -/
def toWord : Operand → Word
  | .literal value => value.toWord
  | .register index => UInt16.ofNat (32768 + index.val)

/-- An operand as assembly text writes it: a number, or `r` and the register's index. -/
def text : Operand → String
  | .literal value => toString value.val
  | .register index => s!"r{index.val}"

/-- An operand word as assembly text writes it; a word that is no operand is written as a number. -/
def textOfWord (word : Word) : String :=
  match decode word with
  | .ok operand => operand.text
  | .error _ => toString word

theorem toNat_toWord_register (index : Fin 8) :
    (Operand.register index).toWord.toNat = 32768 + index.val := by
  simp only [toWord, UInt16.toNat_ofNat']
  omega

/-- Reading back the word of an operand gives the operand. -/
@[simp] theorem decode_toWord (operand : Operand) : decode operand.toWord = .ok operand := by
  cases operand with
  | literal value => simp [decode, toWord]
  | register index =>
    have h := toNat_toWord_register index
    have low : ¬ (Operand.register index).toWord.toNat < 32768 := by omega
    have high : (Operand.register index).toWord.toNat - 32768 < 8 := by omega
    simp only [decode, low, high, dite_false, dite_true, Except.ok.injEq, register.injEq, Fin.ext_iff]
    omega

/-- Exactly the words of operands are read, each as the operand it encodes. -/
theorem decode_eq_ok_iff {word : Word} {operand : Operand} :
    decode word = .ok operand ↔ word = operand.toWord := by
  constructor
  · intro h
    simp only [decode] at h
    split at h
    · obtain rfl := Except.ok.inj h
      apply UInt16.toNat.inj
      simp [toWord]
    · split at h
      · next hge hlt =>
        obtain rfl := Except.ok.inj h
        apply UInt16.toNat.inj
        have := word.toNat_lt
        simp only [toWord, UInt16.toNat_ofNat']
        omega
      · cases h
  · rintro rfl; exact decode_toWord operand

/-- Exactly the words that encode nothing are refused. -/
theorem decode_eq_error_iff {word : Word} {fault : Fault} :
    decode word = .error fault ↔ word.isValid = false ∧ fault = .invalidOperand word := by
  rw [← Bool.not_eq_true, Word.isValid_iff_le, decode]
  split
  · simp; omega
  · split
    · simp; omega
    · next hlow hhigh =>
      have : ¬ word.toNat ≤ 32775 := by omega
      simp [this, eq_comm]

end Operand

end WordMachine
