import WordMachine.Debugger.Stops
import WordMachine.Debugger.Target
import WordMachine.Debugger.View

/-!
# The debugger

Runs a computer step by step, counts the steps and stops where it was told to. What it was told,
the count and the console outlive a reset; the machine does not.

A step on a halted machine makes no progress and is not counted, and neither is a step that faults.
-/

namespace WordMachine

/-- A computer under control. -/
structure Debugger where
  computer : Computer
  /-- What a reset loads. -/
  program : Program
  stops : Stops
  /-- The number of steps made. -/
  cycles : Nat
  deriving DecidableEq

/-- Why something that was asked of a debugger was not done. -/
inductive DebugError where
  | fault (fault : Fault)
  | missingValue (target : Target)
  | wrongValueCount (target : Target) (expected count : Nat)
  | readOnly (target : Target)
  | unexpectedRange (target : Target)
  | emptyRange (first last : Word)
  /-- An address at which nothing can stop, or that is not in memory. -/
  | invalidAddress (address : Word)
  | unwrittenAddress (address : Word)
  | unknownOpcode (name : String)
  deriving DecidableEq, Repr

/-- The wording of a debugger's error. -/
def DebugError.message : DebugError → String
  | .fault cause => cause.message
  | .missingValue target => s!"{target.name} needs a value"
  | .wrongValueCount target expected count => s!"{target.name} takes {expected} values, got {count}"
  | .readOnly target => s!"{target.name} cannot be set"
  | .unexpectedRange target => s!"{target.name} does not take a range"
  | .emptyRange first last => s!"range {first}..={last} is empty"
  | .invalidAddress address => s!"address {address} must lie in 1..32768"
  | .unwrittenAddress address => s!"address {address} has not been written"
  | .unknownOpcode name => s!"unknown opcode `{name}`"

namespace Debugger

/-- A debugger for a program, with bytes to read. -/
def start (program : Program) (input : List UInt8) : Debugger where
  computer := .start program input
  program
  stops := .nowhere
  cycles := 0

/-- The machine under control. -/
def machine (debugger : Debugger) : Machine := debugger.computer.machine

/-- The debugger with its machine replaced. -/
def withMachine (debugger : Debugger) (machine : Machine) : Debugger :=
  { debugger with computer := debugger.computer.withMachine machine }

/-- Loads the program into a new machine. -/
def reset (debugger : Debugger) : Debugger := debugger.withMachine (.start debugger.program)

/-! ## Running -/

/-- Makes one step, and says why to stop behind it, if there is a reason. -/
def advance : Debugger → Option Stop × Debugger
  | ⟨computer, program, stops, cycles⟩ =>
    match computer.machine.halted with
    | some halt => (some (.halted halt), ⟨computer, program, stops, cycles⟩)
    | none =>
      match computer.step with
      | (.continued, after) => (stops.reason? after.machine, ⟨after, program, stops, cycles + 1⟩)
      | (.halted halt, after) => (some (.halted halt), ⟨after, program, stops, cycles + 1⟩)
      | (.faulted fault, after) => (some (.faulted fault), ⟨after, program, stops, cycles⟩)

/-- Makes steps until there is a reason to stop, but at most `count`. -/
def step (debugger : Debugger) : (count : Nat) → Stop × Debugger
  | 0 => (.stepped, debugger)
  | count + 1 =>
    match debugger.advance with
    | (some stop, after) => (stop, after)
    | (none, after) => after.step count

/-- Makes steps until there is a reason to stop. There is no answer if the budget of steps runs out
first. -/
def run (debugger : Debugger) : (budget : Nat) → Option (Stop × Debugger)
  | 0 => none
  | budget + 1 =>
    match debugger.advance with
    | (some stop, after) => some (stop, after)
    | (none, after) => after.run budget

/-- A larger budget gives the same answer. -/
theorem run_add {debugger : Debugger} {budget : Nat} {answer : Stop × Debugger}
    (h : debugger.run budget = some answer) (more : Nat) :
    debugger.run (budget + more) = some answer := by
  induction budget generalizing debugger with
  | zero => cases h
  | succ budget ih =>
    rw [Nat.add_right_comm]
    simp only [run] at h ⊢
    split at h <;> simp_all

/-! ## Showing and setting -/

/-- The number of cells that are shown when no end is given. -/
def memoryWindow : Nat := 8

/-- The memory cells from one address to another. Without a start they are shown from the program
counter, and without an end a window of them is. -/
def viewMemory (debugger : Debugger) (first last : Option Word) : Except DebugError View :=
  let first := first.getD debugger.machine.pc
  if memorySize ≤ first.toNat then .error (.invalidAddress first)
  else
    let last := last.getD (UInt16.ofNat (first.toNat + (memoryWindow - 1)))
    if last < first then .error (.emptyRange first last)
    else .ok (.memory (debugger.machine.memory.range first.toNat last.toNat))

/-- Shows a target, which is not memory. -/
def viewWhole (debugger : Debugger) : Target → View
  | .pc => .pc debugger.machine.pc
  | .registers => .registers debugger.machine.registers
  | .stack => .stack debugger.machine.stack.toList
  | .memory => .memory []
  | .breakpoints => .breakpoints debugger.stops.breakpoints
  | .watchpoints => .watchpoints debugger.stops.watchpoints
  | .breakops => .breakops debugger.stops.breakops
  | .cycles => .cycles debugger.cycles

/-- Shows a target, or program counter, registers and stack if none is given; then a range is
ignored. Only memory takes a range. -/
def view (debugger : Debugger) (target : Option Target) (first last : Option Word) :
    Except DebugError View :=
  match target with
  | none =>
    let machine := debugger.machine
    .ok (.state machine.pc machine.registers machine.stack.toList)
  | some .memory => debugger.viewMemory first last
  | some target =>
    if first.isSome || last.isSome then .error (.unexpectedRange target)
    else .ok (debugger.viewWhole target)

/-- Overwrites a target: the program counter by one value, the registers by eight, the stack by any
number of values, bottom first, and a memory cell by an address and a word. -/
def set (debugger : Debugger) (target : Target) (values : List Word) : Except DebugError Debugger :=
  let machine := debugger.machine
  let checked (result : Except Fault Machine) : Except DebugError Debugger :=
    match result with
    | .ok machine => .ok (debugger.withMachine machine)
    | .error fault => .error (.fault fault)
  match target, values with
  | .pc, [] | .registers, [] | .stack, [] | .memory, [] => .error (.missingValue target)
  | .pc, [pc] =>
    checked (if pc.isPc then .ok { machine with pc } else .error (.outOfBounds pc.toNat))
  | .registers, [r0, r1, r2, r3, r4, r5, r6, r7] =>
    checked ((fun registers => { machine with registers }) <$>
      Registers.ofWords #v[r0, r1, r2, r3, r4, r5, r6, r7])
  | .stack, values => checked ((fun stack => { machine with stack }) <$> Stack.ofList values)
  | .memory, [address, word] =>
    checked ((fun memory => { machine with memory }) <$> machine.memory.write address.toNat word)
  | .pc, values => .error (.wrongValueCount .pc 1 values.length)
  | .registers, values => .error (.wrongValueCount .registers 8 values.length)
  | .memory, values => .error (.wrongValueCount .memory 2 values.length)
  | _, _ => .error (.readOnly target)

/-! ## Stop conditions -/

/-- An address to stop at or to watch must be that of a written cell, and not zero. -/
def checkAddress (debugger : Debugger) (address : Word) : Except DebugError Unit :=
  if address = 0 || memorySize ≤ address.toNat then .error (.invalidAddress address)
  else if debugger.machine.memory.isWritten address.toNat then .ok ()
  else .error (.unwrittenAddress address)

/-- Stops when the program counter comes to an address. -/
def addBreakpoint (debugger : Debugger) (address : Word) : Except DebugError Debugger := do
  debugger.checkAddress address
  return { debugger with stops := debugger.stops.addBreakpoint address }

/-- Stops in front of an access to an address. -/
def addWatchpoint (debugger : Debugger) (address : Word) : Except DebugError Debugger := do
  debugger.checkAddress address
  return { debugger with stops := debugger.stops.addWatchpoint address }

/-- Stops in front of an opcode. -/
def addBreakop (debugger : Debugger) (opcode : Opcode) : Debugger :=
  { debugger with stops := debugger.stops.addBreakop opcode }

/-- The opcode with a name, to stop in front of. -/
def findOpcode (name : String) : Except DebugError Opcode :=
  match Opcode.ofMnemonic? name with
  | some opcode => .ok opcode
  | none => .error (.unknownOpcode name)

end Debugger

end WordMachine
