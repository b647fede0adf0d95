/-!
# Targets

The parts of a debugger that can be shown, and some of them set.
-/

namespace WordMachine

/-- A part of the debugger. -/
inductive Target where
  | pc
  | registers
  | stack
  | memory
  | breakpoints
  | watchpoints
  | breakops
  | cycles
  deriving DecidableEq, Repr

namespace Target

/-- Every target. -/
def all : List Target :=
  [pc, registers, stack, memory, breakpoints, watchpoints, breakops, cycles]

/-- The name of a target. -/
def name : Target → String
  | pc => "pc"
  | registers => "registers"
  | stack => "stack"
  | memory => "memory"
  | breakpoints => "breakpoints"
  | watchpoints => "watchpoints"
  | breakops => "breakops"
  | cycles => "cycles"

/-- The target with a name. -/
def ofName? (text : String) : Option Target := all.find? (fun target => target.name == text)

@[simp] theorem ofName?_name (target : Target) : ofName? target.name = some target := by
  cases target <;> decide

/-- A text names at most one target, and is then its name. -/
theorem ofName?_eq_some_iff {text : String} {target : Target} :
    ofName? text = some target ↔ text = target.name := by
  constructor
  · intro h
    have := List.find?_some h
    simpa using (beq_iff_eq.1 this).symm
  · rintro rfl; exact ofName?_name target

end Target

end WordMachine
