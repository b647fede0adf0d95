import WordMachine.Instruction
import WordMachine.Memory
import WordMachine.Stack

/-!
# The machine

Program counter, registers, stack and memory, and whether the program is finished. Two decoders
read the instruction at an address: `Machine.fetchInstruction` runs along the program counter and
moves it, `Machine.decodeAt` peeks. Both are `Instruction.decode` over memory.
-/

namespace WordMachine

/-- Why the machine stopped for good. -/
inductive Halt where
  /-- A `halt` instruction was executed. -/
  | instruction
  /-- A `ret` found an empty stack. -/
  | emptyReturn
  /-- An `in` found no more input. -/
  | inputExhausted
  deriving DecidableEq, Repr

/-- The wording of a halt. -/
def Halt.message : Halt → String
  | .instruction => "halted"
  | .emptyReturn => "halted: return with empty stack"
  | .inputExhausted => "halted: input exhausted"

/-- The state of the machine, without its console. -/
structure Machine where
  /-- The address of the next instruction. -/
  pc : Word
  registers : Registers
  stack : Stack
  memory : Memory
  /-- Set once the program is finished. -/
  halted : Option Halt
  deriving DecidableEq

namespace Machine

/-- The machine with a program at address zero, about to execute its first instruction. -/
def start (program : Program) : Machine where
  pc := 0
  registers := .zero
  stack := .empty
  memory := .ofProgram program
  halted := none

/-- Leaves the halted state and touches nothing else. -/
def resume (machine : Machine) : Machine := { machine with halted := none }

/-- Reads the word at the program counter and moves the counter past it. -/
def fetch : Fetch Machine Word := fun machine =>
  match machine.memory.read machine.pc.toNat with
  | .ok word => (.ok word, { machine with pc := machine.pc + 1 })
  | .error fault => (.error fault, machine)

/-- Decodes the instruction at the program counter and moves the counter past the words read. -/
def fetchInstruction (machine : Machine) : Except Fault Instruction × Machine :=
  (Instruction.decode fetch machine.pc).run machine

/-- Reads the word at a cursor and moves the cursor past it. -/
def peek (memory : Memory) : Fetch Nat Word := fun cursor => (memory.read cursor, cursor + 1)

/-- Decodes the instruction at an address without moving the program counter. -/
def decodeAt (machine : Machine) (address : Word) : Except Fault Instruction :=
  ((Instruction.decode (peek machine.memory) address).run address.toNat).1

/-- The opcode stored at an address, if there is one. -/
def opcodeAt? (machine : Machine) (address : Word) : Option Opcode :=
  (machine.memory.word? address.toNat).bind Opcode.ofWord?

end Machine

end WordMachine
