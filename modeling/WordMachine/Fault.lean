import WordMachine.Word

/-!
# Faults

Everything that can go wrong while a program is loaded or executed, as causes. What a fault is
called on screen is decided in one place, `Fault.message`. Halting is not a fault.
-/

namespace WordMachine

/-- Why a program could not be loaded or an instruction could not be executed. -/
inductive Fault where
  /-- More words than there are memory cells. -/
  | programTooLarge (length : Nat)
  /-- A word that encodes nothing. -/
  | invalidWord (word : Word)
  /-- An image with an odd number of bytes. -/
  | truncatedImage (length : Nat)
  /-- A register beyond the eighth. -/
  | invalidRegister (index : Nat)
  /-- A word that is neither a literal nor a register. -/
  | invalidOperand (word : Word)
  /-- A literal where a register is written to. -/
  | notARegister (word : Word)
  /-- A word where only a literal may stand. -/
  | notALiteral (word : Word)
  /-- A character the console does not print. -/
  | unprintable (value : Literal)
  | divisionByZero
  /-- A word that is no opcode, found where an instruction should start. -/
  | invalidOpcode (word address : Word)
  | stackUnderflow
  /-- An address beyond the last cell. -/
  | outOfBounds (address : Nat)
  /-- A cell that was read before it was written. -/
  | unwritten (address : Nat)
  deriving DecidableEq, Repr

/-- The wording of a fault. -/
def Fault.message : Fault → String
  | .programTooLarge length => s!"encoding error: program of {length} words does not fit into memory"
  | .invalidWord word => s!"encoding error: {word} is not a valid word"
  | .truncatedImage length => s!"encoding error: image of {length} bytes ends in half a word"
  | .invalidRegister index => s!"operand error: register {index} does not exist"
  | .invalidOperand word => s!"operand error: {word} is not a valid operand"
  | .notARegister word => s!"operand error: {word} is not a register"
  | .notALiteral word => s!"operand error: {word} is not a literal"
  | .unprintable value => s!"operand error: {value} is not a printable character"
  | .divisionByZero => "operand error: division by zero"
  | .invalidOpcode word address => s!"decode error: {word} at address {address} is not an opcode"
  | .stackUnderflow => "stack underflow"
  | .outOfBounds address => s!"memory fault: address {address} is out of range"
  | .unwritten address => s!"memory fault: address {address} was never written"

end WordMachine
