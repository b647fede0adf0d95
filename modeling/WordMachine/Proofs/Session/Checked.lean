import WordMachine.Proofs.Computer.Checked
import WordMachine.Proofs.Debugger.Running
import WordMachine.Session

/-!
# Sessions with checked arithmetic

The debugger and its commands once more, on top of the checked steps: steps are counted in
sixty-four bits, the stop conditions decode with a checked cursor, and every memory cell that is
shown is looked up by an index that has to exist. The answer is `none` if one of the checks fails.

`executeChecked_eq` says that no check fails as long as the steps that were counted fit into
sixty-four bits, and that the answer is otherwise that of the session.
-/

namespace WordMachine

/-- The reason to stop in front of the instruction at the program counter, which is decoded for the
watchpoints if there are any. -/
def Stops.reasonChecked (stops : Stops) (machine : Machine) : Option (Option Stop) :=
  if stops.watchpoints.isEmpty then some (stops.reason? machine)
  else (machine.decodeAtChecked machine.pc).map fun _ => stops.reason? machine

theorem Stops.reasonChecked_eq (stops : Stops) (machine : Machine) :
    stops.reasonChecked machine = some (stops.reason? machine) := by
  rw [reasonChecked, Machine.decodeAtChecked_eq]
  split <;> rfl

namespace Debugger

variable {debugger after : Debugger}

/-- The number of steps with one more, if it fits. -/
def countChecked (cycles : Nat) : Option Nat :=
  if cycles + 1 < UInt64.size then some (cycles + 1) else none

/-- Makes one step, and says why to stop behind it, if there is a reason. -/
def advanceChecked (debugger : Debugger) : Option (Option Stop × Debugger) :=
  match debugger.computer.machine.halted with
  | some halt => some (some (.halted halt), debugger)
  | none => do
    match ← debugger.computer.stepChecked with
    | (.continued, computer) =>
      let cycles ← countChecked debugger.cycles
      return (← debugger.stops.reasonChecked computer.machine, { debugger with computer, cycles })
    | (.halted halt, computer) =>
      return (some (.halted halt),
        { debugger with computer, cycles := ← countChecked debugger.cycles })
    | (.faulted fault, computer) => return (some (.faulted fault), { debugger with computer })

/-- Makes steps until there is a reason to stop, but at most `count`. -/
def stepChecked (debugger : Debugger) : (count : Nat) → Option (Stop × Debugger)
  | 0 => some (.stepped, debugger)
  | count + 1 => do
    match ← debugger.advanceChecked with
    | (some stop, after) => return (stop, after)
    | (none, after) => after.stepChecked count

/-- Makes steps until there is a reason to stop. The inner answer is missing if the budget of steps
runs out first. -/
def runChecked (debugger : Debugger) : (budget : Nat) → Option (Option (Stop × Debugger))
  | 0 => some none
  | budget + 1 => do
    match ← debugger.advanceChecked with
    | (some stop, after) => return some (stop, after)
    | (none, after) => after.runChecked budget

/-- Shows a target. A cell that is shown has to be one of the memory's. -/
def viewChecked (debugger : Debugger) (target : Option Target) (first last : Option Word) :
    Option (Except DebugError View) :=
  match debugger.view target first last with
  | .ok (.memory cells) =>
    if cells.all fun cell => cell.1 < debugger.machine.memory.cells.size then
      some (.ok (.memory cells))
    else none
  | result => some result

/-- An advance goes through if its step can be counted. -/
theorem advanceChecked_eq {stop : Option Stop} (h : debugger.advance = (stop, after))
    (hcycles : after.cycles < UInt64.size) : debugger.advanceChecked = some (stop, after) := by
  unfold advanceChecked
  cases advancesTo_advance h with
  | stays hhalted => rw [hhalted]
  | continues hrunning hstep =>
    have hcount : countChecked debugger.cycles = some (debugger.cycles + 1) := if_pos hcycles
    rw [hrunning, Computer.stepChecked_eq, hstep]
    simp only [Option.bind_eq_bind, Option.bind_some, hcount, Stops.reasonChecked_eq]
    rfl
  | halts hrunning hstep =>
    have hcount : countChecked debugger.cycles = some (debugger.cycles + 1) := if_pos hcycles
    rw [hrunning, Computer.stepChecked_eq, hstep]
    simp only [Option.bind_eq_bind, Option.bind_some, hcount]
    rfl
  | faults hrunning hstep =>
    rw [hrunning, Computer.stepChecked_eq, hstep]
    rfl

/-- Steps go through if they can be counted. -/
theorem stepChecked_eq {count : Nat} (hcycles : (debugger.step count).2.cycles < UInt64.size) :
    debugger.stepChecked count = some (debugger.step count) := by
  induction count generalizing debugger with
  | zero => rfl
  | succ count ih =>
    rw [stepChecked]
    rw [step] at hcycles ⊢
    rcases hadvance : debugger.advance with ⟨_ | stop, middle⟩
    · simp only [hadvance] at hcycles
      have hmiddle := Nat.lt_of_le_of_lt (middle.cycles_le_step count) hcycles
      simp only [Option.bind_eq_bind, advanceChecked_eq hadvance hmiddle, Option.bind_some]
      exact ih hcycles
    · simp only [hadvance] at hcycles
      simp only [Option.bind_eq_bind, advanceChecked_eq hadvance hcycles, Option.bind_some]
      rfl

/-- A run to a stop goes through if its steps can be counted. -/
theorem runChecked_eq {budget : Nat} {stop : Stop} (hrun : debugger.run budget = some (stop, after))
    (hcycles : after.cycles < UInt64.size) :
    debugger.runChecked budget = some (some (stop, after)) := by
  induction budget generalizing debugger with
  | zero => cases hrun
  | succ budget ih =>
    rw [runChecked]
    rw [run] at hrun
    rcases hadvance : debugger.advance with ⟨_ | reason, middle⟩
    · simp only [hadvance] at hrun
      have hmiddle := Nat.lt_of_le_of_lt (cycles_le_run hrun) hcycles
      simp only [Option.bind_eq_bind, advanceChecked_eq hadvance hmiddle, Option.bind_some]
      exact ih hrun
    · simp only [hadvance] at hrun
      obtain ⟨rfl, rfl⟩ := Prod.mk.inj (Option.some.inj hrun)
      simp only [Option.bind_eq_bind, advanceChecked_eq hadvance hcycles, Option.bind_some]
      rfl

/-- What is shown of memory lies in memory. -/
theorem lt_of_view {target : Option Target} {first last : Option Word}
    {cells : List (Nat × Option Word)} (h : debugger.view target first last = .ok (.memory cells)) :
    ∀ cell ∈ cells, cell.1 < memorySize := by
  unfold view at h
  split at h
  · cases h
  · unfold viewMemory at h
    simp only at h
    split at h
    · cases h
    · split at h
      · cases h
      · obtain rfl := View.memory.inj (Except.ok.inj h)
        intro cell hcell
        obtain ⟨address, haddress, rfl⟩ := List.mem_map.mp hcell
        rw [List.mem_range'_1, memorySize] at haddress
        rw [memorySize]
        omega
  · next other hother =>
    split at h
    · cases h
    · cases other <;> first | exact absurd rfl hother | cases h

/-- Only cells of the memory are shown. -/
theorem viewChecked_eq (debugger : Debugger) (target : Option Target) (first last : Option Word) :
    debugger.viewChecked target first last = some (debugger.view target first last) := by
  unfold viewChecked
  split
  · next cells hview =>
    have hall : (cells.all fun cell => cell.1 < debugger.machine.memory.cells.size) = true :=
      List.all_eq_true.mpr fun cell hcell => decide_eq_true (lt_of_view hview cell hcell)
    rw [if_pos hall, hview]
  · rfl

end Debugger

namespace Session

/-- Carries out a command. The inner answer is missing if the command runs the machine and the
budget of steps runs out first. -/
def executeChecked (session : Session) (budget : Nat) (command : Command) :
    Option (Option (Except SessionError Response × Session)) :=
  match command with
  | .run =>
    (session.debugger.runChecked budget).map
      (Option.map (stopped session.folder session.paths session.host))
  | .step count =>
    (session.debugger.stepChecked count).map
      fun stepped => some (stopped session.folder session.paths session.host stepped)
  | .view target first last =>
    (session.debugger.viewChecked target first last).map fun
      | .ok view => some (.ok (.shown view), session)
      | .error error => some (.error (.debugger error), session)
  | command => some (session.execute budget command)

/-- Every command goes through if the steps that it makes can be counted. -/
theorem executeChecked_eq {session after : Session} {budget : Nat} {command : Command}
    {result : Except SessionError Response}
    (h : session.execute budget command = some (result, after))
    (hcycles : after.debugger.cycles < UInt64.size) :
    session.executeChecked budget command = some (some (result, after)) := by
  unfold executeChecked
  rw [← h]
  cases command with
  | run =>
    obtain ⟨⟨stop, ran⟩, hrun, hstopped⟩ := Option.map_eq_some_iff.mp h
    obtain ⟨rfl, rfl⟩ := Prod.mk.inj hstopped
    rw [Debugger.runChecked_eq hrun hcycles, h]
    rfl
  | step count =>
    obtain ⟨rfl, rfl⟩ := Prod.mk.inj (Option.some.inj h)
    simp only
    rw [Debugger.stepChecked_eq hcycles]
    rfl
  | view target first last =>
    simp only
    rw [Debugger.viewChecked_eq, execute]
    cases session.debugger.view target first last <;> rfl
  | _ => rfl

end Session

end WordMachine
