import WordMachine.Debugger

/-!
# The count of steps

The count is only shown. A debugger whose count is ahead of another's by some number of steps does
what the other does, however long it runs, and the count stays ahead by that number.
-/

namespace WordMachine

/-- The view, with the count of steps, if it is one, ahead by some steps. -/
def View.ahead (offset : Nat) : View → View
  | .cycles count => .cycles (count + offset)
  | view => view

namespace Debugger

/-- The debugger with its count ahead by some steps. -/
def ahead (offset : Nat) (debugger : Debugger) : Debugger :=
  { debugger with cycles := debugger.cycles + offset }

variable (offset : Nat) (debugger : Debugger)

@[simp] theorem machine_ahead : (debugger.ahead offset).machine = debugger.machine := rfl

/-! ## Running -/

/-- The count has no part in an advance. -/
theorem advance_ahead :
    (debugger.ahead offset).advance = Prod.map id (ahead offset) debugger.advance := by
  obtain ⟨computer, program, stops, cycles⟩ := debugger
  simp only [ahead, advance]
  cases computer.machine.halted with
  | some halt => rfl
  | none =>
    rcases computer.step with ⟨_ | halt | fault, after⟩
    · simp [ahead, Nat.add_right_comm]
    · simp [ahead, Nat.add_right_comm]
    · rfl

theorem step_ahead (count : Nat) :
    (debugger.ahead offset).step count = Prod.map id (ahead offset) (debugger.step count) := by
  induction count generalizing debugger with
  | zero => rfl
  | succ count ih =>
    rw [step, step, advance_ahead]
    rcases debugger.advance with ⟨_ | stop, after⟩
    · exact ih after
    · rfl

theorem run_ahead (budget : Nat) :
    (debugger.ahead offset).run budget =
      (debugger.run budget).map (Prod.map id (ahead offset)) := by
  induction budget generalizing debugger with
  | zero => rfl
  | succ budget ih =>
    rw [run, run, advance_ahead]
    rcases debugger.advance with ⟨_ | stop, after⟩
    · exact ih after
    · rfl

/-! ## Showing, setting and stop conditions -/

/-- Cells are no count. -/
theorem viewMemory_ahead (first last : Option Word) :
    (debugger.ahead offset).viewMemory first last =
      (debugger.viewMemory first last).map (View.ahead offset) := by
  have hsame : (debugger.ahead offset).viewMemory first last = debugger.viewMemory first last := rfl
  rw [hsame]
  unfold viewMemory
  simp only
  split
  · rfl
  · split <;> rfl

/-- What is shown is the same but for the count. -/
theorem view_ahead (target : Option Target) (first last : Option Word) :
    (debugger.ahead offset).view target first last =
      (debugger.view target first last).map (View.ahead offset) := by
  unfold view
  split
  · rfl
  · exact debugger.viewMemory_ahead offset first last
  · next target hmemory =>
    split
    · rfl
    · cases target <;> rfl

/-- A machine that was checked is put in place whatever the count is. -/
theorem checked_ahead (result : Except Fault Machine) :
    (match result with
      | .ok machine => .ok ((debugger.ahead offset).withMachine machine)
      | .error fault => .error (.fault fault) : Except DebugError Debugger) =
    (match result with
      | .ok machine => .ok (debugger.withMachine machine)
      | .error fault => .error (.fault fault) : Except DebugError Debugger).map (ahead offset) := by
  cases result <;> rfl

theorem set_ahead (target : Target) (values : List Word) :
    (debugger.ahead offset).set target values =
      (debugger.set target values).map (ahead offset) := by
  unfold set
  split <;> first | rfl | exact debugger.checked_ahead offset _

theorem checkAddress_ahead (address : Word) :
    (debugger.ahead offset).checkAddress address = debugger.checkAddress address := rfl

theorem addBreakpoint_ahead (address : Word) :
    (debugger.ahead offset).addBreakpoint address =
      (debugger.addBreakpoint address).map (ahead offset) := by
  unfold addBreakpoint
  rw [checkAddress_ahead]
  cases debugger.checkAddress address <;> rfl

theorem addWatchpoint_ahead (address : Word) :
    (debugger.ahead offset).addWatchpoint address =
      (debugger.addWatchpoint address).map (ahead offset) := by
  unfold addWatchpoint
  rw [checkAddress_ahead]
  cases debugger.checkAddress address <;> rfl

end Debugger

end WordMachine
