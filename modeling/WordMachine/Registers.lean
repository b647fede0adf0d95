import WordMachine.Operand

/-!
# Registers

Eight registers, each holding a literal; that they never hold anything else is in the type. Words
from outside are checked on the way in: first that they are literals, then that the register
exists.
-/

namespace WordMachine

/-- The word as a literal, or the fault that it is none. -/
def Literal.ofWord (word : Word) : Except Fault Literal :=
  match Literal.ofWord? word with
  | some value => .ok value
  | none => .error (.notALiteral word)

/-- The register file. -/
structure Registers where
  values : Vector Literal 8
  deriving DecidableEq, Repr

namespace Registers

/-- All registers zero. -/
def zero : Registers := ⟨Vector.replicate 8 0⟩

/-- The register file with the given words, `r0` first, unless one of them is no literal. -/
def ofWords (words : Vector Word 8) : Except Fault Registers :=
  Registers.mk <$> words.mapM Literal.ofWord

/-- The register file as words, `r0` first. -/
def toWords (registers : Registers) : Vector Word 8 := registers.values.map Literal.toWord

/-- The number in register `index`. -/
def get (registers : Registers) (index : Nat) : Except Fault Literal :=
  if h : index < 8 then .ok (registers.values.get ⟨index, h⟩) else .error (.invalidRegister index)

/-- Puts a literal into a register. -/
def assign (registers : Registers) (index : Fin 8) (value : Literal) : Registers :=
  ⟨registers.values.set index.val value index.isLt⟩

/-- Puts a word into register `index`, if it is a literal and the register exists. -/
def set (registers : Registers) (index : Nat) (word : Word) : Except Fault Registers :=
  match Literal.ofWord word with
  | .error fault => .error fault
  | .ok value =>
    if h : index < 8 then .ok (registers.assign ⟨index, h⟩ value) else .error (.invalidRegister index)

/-- The number an operand stands for. -/
def resolve (registers : Registers) : Operand → Literal
  | .literal value => value
  | .register index => registers.values.get index

/-- The number an operand word stands for. -/
def value (registers : Registers) (word : Word) : Except Fault Literal :=
  match Operand.decode word with
  | .ok operand => .ok (registers.resolve operand)
  | .error fault => .error fault

end Registers

end WordMachine
