import WordMachine.Proofs.Computer.Invariant
import WordMachine.Proofs.Debugger.Running
import WordMachine.Proofs.Snapshot.Applying

/-!
# What a debugger preserves

A debugger is in order if its computer is, if it still holds the program it was started with, and
if it stops and watches only where that is possible. Running keeps it in order however long it
goes on (`IsSound.run`), and so does everything that changes the debugger from outside: `set` and
snapshots bring in checked words only, and a reset starts over.
-/

namespace WordMachine

/-- The program can stop at the address or access it. -/
def Word.IsStoppable (address : Word) : Prop := 1 ≤ address.toNat ∧ address.toNat ≤ 32767

/-- All addresses to stop at or to watch are addresses of cells, and none of them is zero. -/
structure Stops.IsSound (stops : Stops) : Prop where
  breakpoints : ∀ address ∈ stops.breakpoints, address.IsStoppable
  watchpoints : ∀ address ∈ stops.watchpoints, address.IsStoppable

/-- The debugger is in order, on the given program. -/
structure Debugger.IsSound (program : Program) (debugger : Debugger) : Prop where
  program_eq : debugger.program = program
  computer : debugger.computer.IsSound program.words.length
  stops : debugger.stops.IsSound

/-- A word that is written is valid and replaces what its cell held, and the cell exists. -/
theorem Memory.exists_put_of_write {memory after : Memory} {address : Nat} {word : Word}
    (h : memory.write address word = .ok after) :
    ∃ valid : ValidWord, valid.val = word ∧ address < memorySize ∧
      after = memory.put address valid := by
  unfold write at h
  split at h
  · next hvalid =>
    split at h
    · next hcell => exact ⟨⟨word, hvalid⟩, rfl, hcell, (Except.ok.inj h).symm⟩
    · cases h
  · cases h

namespace Debugger

/-- What setting a target of a machine comes to when it succeeds. -/
inductive SetsTo (machine : Machine) : Target → List Word → Machine → Prop where
  | pc {pc : Word} (hpc : pc.isPc = true) : SetsTo machine .pc [pc] { machine with pc }
  | registers {r0 r1 r2 r3 r4 r5 r6 r7 : Word} {registers : Registers}
      (hregisters : Registers.ofWords #v[r0, r1, r2, r3, r4, r5, r6, r7] = .ok registers) :
      SetsTo machine .registers [r0, r1, r2, r3, r4, r5, r6, r7] { machine with registers }
  | stack {values : List Word} {stack : Stack} (hstack : Stack.ofList values = .ok stack) :
      SetsTo machine .stack values { machine with stack }
  | memory {address word : Word} {memory : Memory}
      (hmemory : machine.memory.write address.toNat word = .ok memory) :
      SetsTo machine .memory [address, word] { machine with memory }

variable {program : Program} {debugger after : Debugger}

/-- A checked change goes through only if the check gave a value, which is then put in place. -/
theorem exists_of_checked {α : Type} {put : α → Machine} {result : Except Fault α}
    (h : (match put <$> result with
      | .ok machine => .ok (debugger.withMachine machine)
      | .error fault => .error (.fault fault)) = (.ok after : Except DebugError Debugger)) :
    ∃ value, result = .ok value ∧ after = debugger.withMachine (put value) := by
  cases result with
  | error fault => cases h
  | ok value => exact ⟨value, rfl, (Except.ok.inj h).symm⟩

/-- A target that was set is one of the four parts of the machine. -/
theorem exists_of_set {target : Target} {values : List Word}
    (h : debugger.set target values = .ok after) :
    ∃ machine, SetsTo debugger.machine target values machine ∧
      after = debugger.withMachine machine := by
  unfold set at h
  simp only at h
  split at h
  case h_5 pc =>
    cases hpc : pc.isPc with
    | false =>
      simp only [hpc] at h
      cases h
    | true =>
      simp only [hpc] at h
      exact ⟨_, .pc hpc, (Except.ok.inj h).symm⟩
  case h_6 r0 r1 r2 r3 r4 r5 r6 r7 =>
    obtain ⟨registers, hregisters, hafter⟩ := exists_of_checked h
    exact ⟨_, .registers hregisters, hafter⟩
  case h_7 =>
    obtain ⟨stack, hstack, hafter⟩ := exists_of_checked h
    exact ⟨_, .stack hstack, hafter⟩
  case h_8 address word =>
    obtain ⟨memory, hmemory, hafter⟩ := exists_of_checked h
    exact ⟨_, .memory hmemory, hafter⟩
  all_goals cases h

/-- A debugger that was just started is in order. -/
theorem isSound_start (program : Program) (input : List UInt8) :
    (start program input).IsSound program where
  program_eq := rfl
  computer := Computer.isSound_start program input
  stops := ⟨nofun, nofun⟩

/-- An address that passes the check can be stopped at. -/
theorem isStoppable_of_checkAddress {address : Word} (h : debugger.checkAddress address = .ok ()) :
    address.IsStoppable := by
  unfold checkAddress at h
  split at h
  · cases h
  · next hrange =>
    rw [Bool.or_eq_true, not_or, decide_eq_true_eq, decide_eq_true_eq, memorySize] at hrange
    obtain ⟨hzero, hcell⟩ := hrange
    have hpos : address.toNat ≠ 0 := fun heq => hzero (UInt16.toNat.inj heq)
    rw [Word.IsStoppable]
    omega

/-- Of addresses that can be stopped at, one more can be. -/
theorem isStoppable_of_mem_insertAscending {addresses : List Word} {address : Word}
    (hold : ∀ other ∈ addresses, other.IsStoppable) (haddress : address.IsStoppable) :
    ∀ other ∈ insertAscending UInt16.toNat address addresses, Word.IsStoppable other := by
  intro other hother
  rcases mem_insertAscending hother with rfl | hmem
  · exact haddress
  · exact hold other hmem

namespace IsSound

variable (h : debugger.IsSound program)

include h

/-- A computer in order can take the place of the computer. -/
theorem withComputer {computer : Computer} (hcomputer : computer.IsSound program.words.length) :
    IsSound program { debugger with computer } :=
  ⟨h.program_eq, hcomputer, h.stops⟩

/-! ## Running -/

/-- One step keeps the debugger in order, and so does no step on a halted machine. -/
theorem advancesTo {stop : Option Stop} (hadvance : debugger.AdvancesTo stop after) :
    after.IsSound program := by
  cases hadvance with
  | stays hhalted => exact h
  | continues hrunning hstep => exact ⟨h.program_eq, h.computer.step hstep, h.stops⟩
  | halts hrunning hstep => exact ⟨h.program_eq, h.computer.step hstep, h.stops⟩
  | faults hrunning hstep => exact ⟨h.program_eq, h.computer.step hstep, h.stops⟩

/-- Any number of steps keeps the debugger in order. -/
theorem step (count : Nat) : (debugger.step count).2.IsSound program :=
  step_preserves (P := IsSound program) (fun _ _ _ hadvance h => h.advancesTo hadvance) h count

/-- Running to a stop keeps the debugger in order. -/
theorem run {budget : Nat} {stop : Stop} (hrun : debugger.run budget = some (stop, after)) :
    after.IsSound program :=
  run_preserves (P := IsSound program) (fun _ _ _ hadvance h => h.advancesTo hadvance) h hrun

/-! ## Changes from outside -/

/-- A reset puts the debugger back in order, with a new machine and the console as it was. -/
theorem reset : debugger.reset.IsSound program := by
  have hstart := Computer.isSound_start program debugger.computer.console.input
  rw [Debugger.reset, h.program_eq]
  exact h.withComputer
    ⟨hstart.pc_le, hstart.holdsLiterals, hstart.isWritten, h.computer.isPrintable⟩

/-- Setting a part of the machine keeps the debugger in order. -/
theorem set {target : Target} {values : List Word} (hset : debugger.set target values = .ok after) :
    after.IsSound program := by
  obtain ⟨machine, hsets, rfl⟩ := exists_of_set hset
  refine h.withComputer ?_
  cases hsets with
  | pc hpc => exact h.computer.goTo ((Word.isPc_iff _).mp hpc)
  | registers hregisters =>
    exact ⟨h.computer.pc_le, h.computer.holdsLiterals, h.computer.isWritten, h.computer.isPrintable⟩
  | stack hstack =>
    exact ⟨h.computer.pc_le, Stack.holdsLiterals_of_ofList hstack, h.computer.isWritten,
      h.computer.isPrintable⟩
  | memory hmemory =>
    obtain ⟨word, -, -, rfl⟩ := Memory.exists_put_of_write hmemory
    exact h.computer.store _ word

/-- Applying a snapshot keeps the debugger in order, also if it wakes the machine up. -/
theorem apply {snapshot : Snapshot} {machine : Machine}
    (happly : snapshot.apply debugger.machine = .ok machine) :
    (debugger.withMachine machine.resume).IsSound program := by
  obtain ⟨hpc, registers, stack, -, -, hstack, rfl⟩ := Snapshot.apply_eq_ok_iff.mp happly
  exact h.withComputer ⟨hpc, hstack, h.computer.isWritten, h.computer.isPrintable⟩

theorem addBreakpoint {address : Word} (hadd : debugger.addBreakpoint address = .ok after) :
    after.IsSound program := by
  obtain ⟨⟨⟩, hcheck, hadd⟩ := exists_of_bind_eq_ok hadd
  obtain rfl := Except.ok.inj hadd
  have haddress := isStoppable_of_checkAddress hcheck
  exact ⟨h.program_eq, h.computer,
    isStoppable_of_mem_insertAscending h.stops.breakpoints haddress, h.stops.watchpoints⟩

theorem addWatchpoint {address : Word} (hadd : debugger.addWatchpoint address = .ok after) :
    after.IsSound program := by
  obtain ⟨⟨⟩, hcheck, hadd⟩ := exists_of_bind_eq_ok hadd
  obtain rfl := Except.ok.inj hadd
  have haddress := isStoppable_of_checkAddress hcheck
  exact ⟨h.program_eq, h.computer, h.stops.breakpoints,
    isStoppable_of_mem_insertAscending h.stops.watchpoints haddress⟩

theorem addBreakop (opcode : Opcode) : (debugger.addBreakop opcode).IsSound program :=
  ⟨h.program_eq, h.computer, h.stops.breakpoints, h.stops.watchpoints⟩

end IsSound

end Debugger

end WordMachine
