import WordMachine.Computer.Step

/-!
# Stop conditions

Where a debugger stops: at an address, in front of an opcode, or in front of an `rmem` or `wmem`
on a watched address. The conditions look at the instruction that is about to execute, and the
first one that holds, in this order, is the reason that is given.

The three sets are lists without repetition in ascending order (`insertAscending`).
-/

namespace WordMachine

/-- Why a series of steps ended. -/
inductive Stop where
  /-- All steps that were asked for were made. -/
  | stepped
  | breakpoint (address : Word)
  | breakop (opcode : Opcode)
  | watch (address : Word)
  | halted (halt : Halt)
  | faulted (fault : Fault)
  deriving DecidableEq, Repr

/-- The wording of a stop. -/
def Stop.message : Stop → String
  | .stepped => "stepped"
  | .breakpoint address => s!"breakpoint at {address}"
  | .breakop opcode => s!"breakop {opcode.mnemonic}"
  | .watch address => s!"watch {address}"
  | .halted halt => halt.message
  | .faulted fault => fault.message

/-- Puts an item into a list with ascending keys, unless it is there already. -/
def insertAscending {α : Type} (key : α → Nat) (item : α) : List α → List α
  | [] => [item]
  | first :: rest =>
    if key item < key first then item :: first :: rest
    else if key item = key first then first :: rest
    else first :: insertAscending key item rest

/-- Where to stop. -/
structure Stops where
  breakpoints : List Word
  breakops : List Opcode
  watchpoints : List Word
  deriving DecidableEq, Repr

namespace Stops

/-- Nowhere. -/
def nowhere : Stops := ⟨[], [], []⟩

/-- Also stop at an address. -/
def addBreakpoint (stops : Stops) (address : Word) : Stops :=
  { stops with breakpoints := insertAscending UInt16.toNat address stops.breakpoints }

/-- Also stop in front of an opcode. -/
def addBreakop (stops : Stops) (opcode : Opcode) : Stops :=
  { stops with breakops := insertAscending Opcode.code opcode stops.breakops }

/-- Also stop in front of an access to an address. -/
def addWatchpoint (stops : Stops) (address : Word) : Stops :=
  { stops with watchpoints := insertAscending UInt16.toNat address stops.watchpoints }

end Stops

namespace Machine

/-- The address that the instruction at the program counter reads or writes through `rmem` or
`wmem`. -/
def accessedAddress? (machine : Machine) : Option Literal := do
  let instruction ← (machine.decodeAt machine.pc).toOption
  let operand ← instruction.memoryOperand?
  (machine.registers.value operand).toOption

end Machine

namespace Stops

/-- The program counter stands at a breakpoint. -/
def breakpoint? (stops : Stops) (machine : Machine) : Option Stop :=
  if stops.breakpoints.contains machine.pc then some (.breakpoint machine.pc) else none

/-- The program counter stands at an opcode to stop in front of. -/
def breakop? (stops : Stops) (machine : Machine) : Option Stop :=
  ((machine.opcodeAt? machine.pc).filter stops.breakops.contains).map .breakop

/-- The instruction at the program counter accesses a watched address. -/
def watch? (stops : Stops) (machine : Machine) : Option Stop :=
  if stops.watchpoints.isEmpty then none
  else ((machine.accessedAddress?.map Literal.toWord).filter stops.watchpoints.contains).map .watch

/-- The reason to stop in front of the instruction at the program counter. -/
def reason? (stops : Stops) (machine : Machine) : Option Stop :=
  stops.breakpoint? machine <|> stops.breakop? machine <|> stops.watch? machine

end Stops

theorem mem_insertAscending {α : Type} {key : α → Nat} {item other : α} {items : List α} :
    other ∈ insertAscending key item items → other = item ∨ other ∈ items := by
  fun_induction insertAscending key item items <;> grind

end WordMachine
