import WordMachine.Console
import WordMachine.Machine

/-!
# The computer

A machine together with the console it reads from and prints to; the state that execution
transforms.
-/

namespace WordMachine

/-- A machine and its console. -/
structure Computer where
  machine : Machine
  console : Console
  deriving DecidableEq

namespace Computer

/-- The computer with a program loaded and bytes to read. -/
def start (program : Program) (input : List UInt8) : Computer :=
  ⟨.start program, .ofInput input⟩

/-- The computer with its machine replaced. -/
def withMachine (computer : Computer) (machine : Machine) : Computer := { computer with machine }

/-- The computer with the program counter at an address. -/
def goTo (computer : Computer) (address : Word) : Computer :=
  { computer with machine := { computer.machine with pc := address } }

/-- The computer with a literal put into a register. -/
def assign (computer : Computer) (register : Fin 8) (value : Literal) : Computer :=
  { computer with
    machine :=
      { computer.machine with registers := computer.machine.registers.assign register value } }

/-- The computer with a word put on the stack. -/
def push (computer : Computer) (word : Word) : Computer :=
  { computer with machine := { computer.machine with stack := computer.machine.stack.push word } }

/-- The computer without the top of its stack. -/
def dropTop (computer : Computer) : Computer :=
  { computer with machine := { computer.machine with stack := computer.machine.stack.below } }

/-- The computer with a valid word stored at an address. -/
def store (computer : Computer) (address : Nat) (word : ValidWord) : Computer :=
  { computer with machine := { computer.machine with memory := computer.machine.memory.put address word } }

/-- The computer after printing a byte. -/
def print (computer : Computer) (byte : UInt8) : Computer :=
  { computer with console := computer.console.write byte }

/-- The computer without the next byte of its input. -/
def dropInput (computer : Computer) : Computer :=
  { computer with console := computer.console.read.2 }

end Computer

end WordMachine
