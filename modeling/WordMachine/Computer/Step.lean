import WordMachine.Computer.Action

/-!
# One step

Fetch, decode, execute. A step that faults puts the program counter back to the start of the
instruction, and so does an `in` that finds no input, so that either can be tried again. A halted
machine answers every further step with its halt and stays as it is.
-/

namespace WordMachine.Computer

/-- Executes an instruction that has already been fetched. -/
def execute (computer : Computer) (instruction : Instruction) : Outcome × Computer :=
  match computer.resolve instruction with
  | .ok action => action.perform computer
  | .error fault => (.faulted fault, computer)

/-- Marks the computer as halted. A halt for lack of input stays at the instruction that waits. -/
def halt (computer : Computer) (start : Word) (halt : Halt) : Computer :=
  let machine := { computer.machine with halted := some halt }
  computer.withMachine (if halt = .inputExhausted then { machine with pc := start } else machine)

/-- Executes the instruction at the program counter. -/
def step (computer : Computer) : Outcome × Computer :=
  match computer.machine.halted with
  | some halt => (.halted halt, computer)
  | none =>
    let start := computer.machine.pc
    let console := computer.console
    match computer.machine.fetchInstruction with
    | (.error fault, machine) => (.faulted fault, ⟨{ machine with pc := start }, console⟩)
    | (.ok instruction, machine) =>
      match execute ⟨machine, console⟩ instruction with
      | (.continued, after) => (.continued, after)
      | (.halted reason, after) => (.halted reason, after.halt start reason)
      | (.faulted fault, after) => (.faulted fault, after.goTo start)

end WordMachine.Computer
