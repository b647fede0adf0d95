import WordMachine.Machine

/-!
# Snapshots

Program counter, registers and stack of a machine as plain words. Memory is not part of a
snapshot. Any words make a snapshot; whether a machine can take them is checked when the snapshot
is applied, and then either all three parts change or none does (`Snapshot.apply`).
-/

namespace WordMachine

/-- Program counter, registers and stack as words. -/
structure Snapshot where
  pc : Word
  registers : Vector Word 8
  /-- The stack, bottom first. -/
  stack : List Word
  deriving DecidableEq, Repr

namespace Snapshot

/-- The snapshot of a machine. -/
def capture (machine : Machine) : Snapshot where
  pc := machine.pc
  registers := machine.registers.toWords
  stack := machine.stack.toList

/-- Puts a snapshot into a machine. The program counter is checked first, then the registers, then
the stack; memory and the halted state stay as they are. -/
def apply (snapshot : Snapshot) (machine : Machine) : Except Fault Machine :=
  if snapshot.pc.isPc then do
    let registers ← Registers.ofWords snapshot.registers
    let stack ← Stack.ofList snapshot.stack
    return { machine with pc := snapshot.pc, registers, stack }
  else throw (.outOfBounds snapshot.pc.toNat)

end Snapshot

end WordMachine
