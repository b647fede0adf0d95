import WordMachine.Opcode
import WordMachine.Operand

/-!
# Instructions

An opcode with as many operand words as it takes. `Instruction.decode` reads one from any source
of words: it asks for the opcode, then for the operands in order, and for nothing more. Where the
words come from, and what is left behind when the source runs dry, is the source's business:

* **a running machine** hands out the cells from its program counter on and moves the counter;
* **a peek** hands out the same cells and moves nothing but its own cursor;
* **a list** hands out its words (`Instruction.ofWords`).
-/

namespace WordMachine

/-- A computation over a source of words in state `σ`. A fault keeps the state it arose in. -/
abbrev Fetch (σ : Type) := ExceptT Fault (StateM σ)

/-- An opcode and its operand words. -/
structure Instruction where
  opcode : Opcode
  operands : Vector Word opcode.arity
  deriving DecidableEq, Repr

namespace Instruction

variable {m : Type → Type} [Monad m] [MonadExcept Fault m]

/-- Fetches the next words, as many as asked for. -/
@[specialize] def fetchWords (next : m Word) : (count : Nat) → m (Vector Word count)
  | 0 => pure #v[]
  | count + 1 => do
    let words ← fetchWords next count
    return words.push (← next)

/-- Decodes the instruction at `address` from the words that `next` hands out. -/
@[specialize] def decode (next : m Word) (address : Word) : m Instruction := do
  let word ← next
  match Opcode.ofWord? word with
  | none => throw (.invalidOpcode word address)
  | some opcode => return ⟨opcode, ← fetchWords next opcode.arity⟩

/-- A list of words being read, and the address of the first of them. -/
structure Reading where
  address : Nat
  rest : List Word

/-- Hands out the first word of a list. Past its end there is no memory. -/
def Reading.next : Fetch Reading Word := fun reading =>
  match reading.rest with
  | [] => (.error (.outOfBounds reading.address), reading)
  | word :: rest => (.ok word, ⟨reading.address + 1, rest⟩)

/-- The instruction that a list of words starts with, when the list lies at `address`. -/
def ofWords (address : Nat) (words : List Word) : Except Fault Instruction :=
  ((decode Reading.next (UInt16.ofNat address)).run ⟨address, words⟩).1

/-- The number of words the instruction takes up. -/
def width (instruction : Instruction) : Nat := instruction.opcode.arity + 1

/-- The words of the instruction as they stand in memory. -/
def toWords (instruction : Instruction) : List Word :=
  instruction.opcode.toWord :: instruction.operands.toList

theorem length_toWords (instruction : Instruction) :
    instruction.toWords.length = 1 + instruction.opcode.arity := by
  rw [toWords, List.length_cons, Vector.length_toList, Nat.add_comm]

/-- The operand words with their roles. -/
def operandsWithRoles (instruction : Instruction) : List (Role × Word) :=
  instruction.opcode.roles.zip instruction.operands.toList

/-- The operand that holds a memory address, which only `rmem` and `wmem` have. -/
def memoryOperand? : Instruction → Option Word
  | ⟨.rmem, operands⟩ => operands[1]?
  | ⟨.wmem, operands⟩ => operands[0]?
  | _ => none

/-- The instruction as assembly text: the mnemonic and the operands as numbers or registers. -/
def text (instruction : Instruction) : String :=
  String.intercalate " "
    (instruction.opcode.mnemonic :: instruction.operands.toList.map Operand.textOfWord)

end Instruction

end WordMachine
