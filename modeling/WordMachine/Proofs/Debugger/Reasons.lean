import Mathlib.Data.Option.Basic
import WordMachine.Proofs.Computer.Peeking

/-!
# Reasons to stop

`Stops.Meets` says of each of the three conditions when it holds of a machine, in terms of what the
machine is about to execute. Several may hold at once, and the reason that is given is the first of
them: `reason?_eq_some_iff` says that the debugger finds exactly this one, and
`reason?_eq_none_iff` that it goes on only where none holds.

To go on is a promise about the next instruction, which keeps clear of everything to stop at
(`spares_of_not_meets`).
-/

namespace WordMachine

/-- The place of a stop in the order in which the conditions are looked at. -/
def Stop.precedence : Stop → Nat
  | .breakpoint _ => 0
  | .breakop _ => 1
  | .watch _ => 2
  | .stepped | .halted _ | .faulted _ => 3

namespace Stops

/-- The stop is called for in front of the instruction at the program counter. -/
inductive Meets (stops : Stops) (machine : Machine) : Stop → Prop where
  | breakpoint (hstop : machine.pc ∈ stops.breakpoints) :
      Meets stops machine (.breakpoint machine.pc)
  | breakop {opcode : Opcode}
      (hcell : machine.memory.word? machine.pc.toNat = some opcode.toWord)
      (hstop : opcode ∈ stops.breakops) : Meets stops machine (.breakop opcode)
  | watch {instruction : Instruction} {address : Literal}
      (hdecode : machine.decodeAt machine.pc = .ok instruction)
      (haccess : instruction.Accesses machine.registers address)
      (hstop : address.toWord ∈ stops.watchpoints) : Meets stops machine (.watch address.toWord)

/-- The stop is called for, and none that comes before it in the order is. -/
def IsReason (stops : Stops) (machine : Machine) (stop : Stop) : Prop :=
  stops.Meets machine stop ∧ ∀ other, stops.Meets machine other → stop.precedence ≤ other.precedence

variable {stops : Stops} {machine : Machine} {stop : Stop}

/-! ## One condition -/

theorem breakpoint?_eq_some_iff :
    stops.breakpoint? machine = some stop ↔ stops.Meets machine stop ∧ stop.precedence = 0 := by
  rw [breakpoint?]
  constructor
  · intro h
    split at h
    · next hstop =>
      obtain rfl := Option.some.inj h
      exact ⟨.breakpoint (List.contains_iff_mem.mp hstop), rfl⟩
    · cases h
  · rintro ⟨hmeets, hfirst⟩
    cases hmeets with
    | breakpoint hstop => rw [if_pos (List.contains_iff_mem.mpr hstop)]
    | breakop | watch => cases hfirst

theorem breakop?_eq_some_iff :
    stops.breakop? machine = some stop ↔ stops.Meets machine stop ∧ stop.precedence = 1 := by
  rw [breakop?, Machine.opcodeAt?]
  constructor
  · intro h
    obtain ⟨opcode, hfilter, rfl⟩ := Option.map_eq_some_iff.mp h
    obtain ⟨hopcode, hstop⟩ := Option.filter_eq_some_iff.mp hfilter
    obtain ⟨word, hcell, hword⟩ := Option.bind_eq_some_iff.mp hopcode
    rw [Opcode.ofWord?_eq_some_iff.mp hword] at hcell
    exact ⟨.breakop hcell (List.contains_iff_mem.mp hstop), rfl⟩
  · rintro ⟨hmeets, hsecond⟩
    cases hmeets with
    | @breakop opcode hcell hstop =>
      rw [hcell, Option.bind_some, Opcode.ofWord?_toWord, Option.filter_some_pos
        (List.contains_iff_mem.mpr hstop), Option.map_some]
    | breakpoint | watch => cases hsecond

theorem watch?_eq_some_iff :
    stops.watch? machine = some stop ↔ stops.Meets machine stop ∧ stop.precedence = 2 := by
  rw [watch?]
  constructor
  · intro h
    split at h
    · cases h
    · obtain ⟨word, hfilter, rfl⟩ := Option.map_eq_some_iff.mp h
      obtain ⟨haddress, hstop⟩ := Option.filter_eq_some_iff.mp hfilter
      obtain ⟨address, haccessed, rfl⟩ := Option.map_eq_some_iff.mp haddress
      obtain ⟨instruction, hdecode, haccess⟩ := Machine.accessedAddress?_eq_some_iff.mp haccessed
      exact ⟨.watch hdecode haccess (List.contains_iff_mem.mp hstop), rfl⟩
  · rintro ⟨hmeets, hthird⟩
    cases hmeets with
    | @watch instruction address hdecode haccess hstop =>
      have hsome : stops.watchpoints.isEmpty = false := by
        rw [List.isEmpty_eq_false_iff]
        exact List.ne_nil_of_mem hstop
      have haccessed : machine.accessedAddress? = some address :=
        Machine.accessedAddress?_eq_some_iff.mpr ⟨instruction, hdecode, haccess⟩
      rw [hsome, if_neg Bool.false_ne_true, haccessed, Option.map_some, Option.filter_some_pos
        (List.contains_iff_mem.mpr hstop), Option.map_some]
    | breakpoint | breakop => cases hthird

/-! ## All conditions -/

/-- There are three conditions. -/
theorem Meets.precedence_le (h : stops.Meets machine stop) : stop.precedence ≤ 2 := by
  cases h with
  | breakpoint => exact Nat.zero_le 2
  | breakop => exact Nat.le_succ 1
  | watch => exact Nat.le_refl 2

/-- Of the conditions that hold, the debugger finds the first. -/
theorem reason?_eq_some_iff : stops.reason? machine = some stop ↔ stops.IsReason machine stop := by
  simp only [reason?, Option.orElse_eq_some, Option.eq_none_iff_forall_ne_some, ne_eq,
    breakpoint?_eq_some_iff, breakop?_eq_some_iff, watch?_eq_some_iff, not_and]
  constructor
  · rintro (⟨hmeets, hplace⟩ | ⟨hfirst, ⟨hmeets, hplace⟩ | ⟨hsecond, hmeets, hplace⟩⟩)
    all_goals
      refine ⟨hmeets, fun other hother => ?_⟩
    · omega
    · have := hfirst other hother
      omega
    · have := hfirst other hother
      have := hsecond other hother
      omega
  · rintro ⟨hmeets, hleast⟩
    have hplace := hmeets.precedence_le
    have hnone : ∀ place < stop.precedence, ∀ other, stops.Meets machine other →
        ¬ other.precedence = place := by
      intro place hlt other hother heq
      have := hleast other hother
      omega
    obtain hplace | hplace | hplace :
        stop.precedence = 0 ∨ stop.precedence = 1 ∨ stop.precedence = 2 := by omega
    · exact .inl ⟨hmeets, hplace⟩
    · exact .inr ⟨hnone 0 (by omega), .inl ⟨hmeets, hplace⟩⟩
    · exact .inr ⟨hnone 0 (by omega), .inr ⟨hnone 1 (by omega), hmeets, hplace⟩⟩

/-- The debugger goes on exactly if no condition holds. -/
theorem reason?_eq_none_iff :
    stops.reason? machine = none ↔ ∀ stop, ¬ stops.Meets machine stop := by
  rw [reason?, Option.orElse_eq_none, Option.orElse_eq_none]
  simp only [Option.eq_none_iff_forall_ne_some, ne_eq, breakpoint?_eq_some_iff,
    breakop?_eq_some_iff, watch?_eq_some_iff, not_and]
  constructor
  · rintro ⟨hfirst, hsecond, hthird⟩ stop hmeets
    have := hmeets.precedence_le
    have := hfirst stop hmeets
    have := hsecond stop hmeets
    have := hthird stop hmeets
    omega
  · intro hnone
    exact ⟨fun stop hmeets => absurd hmeets (hnone stop),
      fun stop hmeets => absurd hmeets (hnone stop), fun stop hmeets => absurd hmeets (hnone stop)⟩

/-! ## What the next instruction does -/

/-- The instruction that the computer executes next does not stand at a breakpoint, its opcode is
none to stop in front of, and it does not read or write a watched cell. -/
structure Spares (stops : Stops) (computer : Computer) : Prop where
  pc : computer.machine.pc ∉ stops.breakpoints
  opcode : ∀ instruction machine, computer.machine.fetchInstruction = (.ok instruction, machine) →
    instruction.opcode ∉ stops.breakops
  access : ∀ instruction machine action address,
    computer.machine.fetchInstruction = (.ok instruction, machine) →
      Computer.resolve ⟨machine, computer.console⟩ instruction = .ok action →
        action.address? = some address → address.toWord ∉ stops.watchpoints

/-- Where no condition holds, the next instruction keeps clear of everything to stop at. -/
theorem spares_of_not_meets {computer : Computer}
    (hnone : ∀ stop, ¬ stops.Meets computer.machine stop) : stops.Spares computer where
  pc hstop := hnone _ (.breakpoint hstop)
  opcode instruction machine hfetch hstop := by
    obtain ⟨word, hcell, hword⟩ :=
      Option.bind_eq_some_iff.mp (Machine.opcodeAt?_of_fetchInstruction hfetch)
    rw [Opcode.ofWord?_eq_some_iff.mp hword] at hcell
    exact hnone _ (.breakop hcell hstop)
  access instruction machine action address hfetch hresolve haddress hstop := by
    have hdecode : computer.machine.decodeAt computer.machine.pc = .ok instruction := by
      rw [Machine.decodeAt_pc, hfetch]
    have haccess := Computer.accesses_of_resolve hresolve haddress
    have hregisters : machine.registers = computer.machine.registers :=
      congrArg (fun computer : Computer => computer.machine.registers)
        (Computer.goTo_of_fetchInstruction hfetch)
    rw [hregisters] at haccess
    exact hnone _ (.watch hdecode haccess hstop)

end Stops

end WordMachine
