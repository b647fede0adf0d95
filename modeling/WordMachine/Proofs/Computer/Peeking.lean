import WordMachine.Debugger.Stops
import WordMachine.Proofs.Computer.Faulting
import WordMachine.Proofs.Instruction.Breaking

/-!
# Looking ahead

A debugger looks at the instruction at the program counter before the machine executes it, with a
cursor of its own. `decodeAt_pc` says that it sees what the machine is about to fetch: the counter
does not wrap behind a word that was read, so that counter and cursor go through the same cells.

What is seen tells what will be done. The opcode at the program counter is the one executed
(`opcodeAt?_of_fetchInstruction`), and the address seen for an `rmem` or `wmem` is the one it reads
or writes (`accesses_of_resolve`).
-/

namespace WordMachine

namespace Machine

variable {machine : Machine}

/-- What is seen at the program counter is what the machine is about to fetch. -/
theorem decodeAt_pc (machine : Machine) :
    machine.decodeAt machine.pc = machine.fetchInstruction.1 :=
  (reads_peek machine.memory).decode_eq_decode rfl machine.reads_fetch ⟨rfl, rfl⟩ machine.pc

/-- The opcode that is seen at an address is the one of the instruction there. -/
theorem opcodeAt?_of_decodeAt {address : Word} {instruction : Instruction}
    (h : machine.decodeAt address = .ok instruction) :
    machine.opcodeAt? address = some instruction.opcode := by
  obtain ⟨hread, -⟩ := Fetch.holds_cons.mp (decodeAt_eq_ok_iff.mp h)
  rw [opcodeAt?, Memory.read_eq_ok_iff.mp hread, Option.bind_some, Opcode.ofWord?_toWord]

/-- The opcode at the program counter is that of the instruction the machine fetches. -/
theorem opcodeAt?_of_fetchInstruction {instruction : Instruction} {fetched : Machine}
    (h : machine.fetchInstruction = (.ok instruction, fetched)) :
    machine.opcodeAt? machine.pc = some instruction.opcode :=
  opcodeAt?_of_decodeAt (by rw [decodeAt_pc, h])

end Machine

/-! ## Accesses to memory -/

/-- The instruction reads or writes the cell at an address, if the registers hold what they do. -/
inductive Instruction.Accesses (registers : Registers) : Instruction → Literal → Prop where
  | reads {operands : Vector Word (Opcode.arity .rmem)} {address : Literal}
      (haddress : registers.value operands[1] = .ok address) :
      Accesses registers ⟨.rmem, operands⟩ address
  | writes {operands : Vector Word (Opcode.arity .wmem)} {address : Literal}
      (haddress : registers.value operands[0] = .ok address) :
      Accesses registers ⟨.wmem, operands⟩ address

/-- The address of the cell that the action reads or writes. -/
def Action.address? : Action → Option Literal
  | .load _ address _ | .store address _ => some address
  | _ => none

/-- An instruction accesses an address exactly if its memory operand stands for the address. -/
theorem Instruction.accesses_iff {registers : Registers} {instruction : Instruction}
    {address : Literal} :
    instruction.Accesses registers address ↔
      ∃ operand, instruction.memoryOperand? = some operand ∧
        registers.value operand = .ok address := by
  constructor
  · intro h
    cases h with
    | reads haddress => exact ⟨_, rfl, haddress⟩
    | writes haddress => exact ⟨_, rfl, haddress⟩
  · rintro ⟨operand, hoperand, haddress⟩
    obtain ⟨opcode, operands⟩ := instruction
    cases opcode with
    | rmem =>
      obtain rfl := Option.some.inj hoperand
      exact .reads haddress
    | wmem =>
      obtain rfl := Option.some.inj hoperand
      exact .writes haddress
    | _ => cases hoperand

/-- The address that a debugger sees accessed is the one the instruction accesses. -/
theorem Machine.accessedAddress?_eq_some_iff {machine : Machine} {address : Literal} :
    machine.accessedAddress? = some address ↔
      ∃ instruction, machine.decodeAt machine.pc = .ok instruction ∧
        instruction.Accesses machine.registers address := by
  have htoOption : ∀ {ε α : Type} (result : Except ε α) (value : α),
      result.toOption = some value ↔ result = .ok value := by
    intro ε α result value
    cases result <;> simp [Except.toOption]
  simp only [accessedAddress?, Option.bind_eq_bind, Option.bind_eq_some_iff, htoOption,
    Instruction.accesses_iff]

namespace Computer

variable {computer : Computer} {action : Action} {address : Literal}

/-- A binary operation has nothing to do with memory. -/
theorem address?_resolveOperation {operation : Operation} {operands : Vector Word 3}
    (h : computer.resolveOperation operation operands = .ok action) : action.address? = none := by
  obtain ⟨register, -, h⟩ := exists_of_bind_eq_ok h
  obtain ⟨x, -, h⟩ := exists_of_bind_eq_ok h
  obtain ⟨y, -, h⟩ := exists_of_bind_eq_ok h
  obtain ⟨result, -, h⟩ := exists_of_bind_eq_ok h
  obtain rfl := Except.ok.inj h
  rfl

/-- An instruction whose action reads or writes a cell accesses the address of the cell. -/
theorem accesses_of_resolve {instruction : Instruction}
    (h : computer.resolve instruction = .ok action) (haddress : action.address? = some address) :
    instruction.Accesses computer.machine.registers address := by
  obtain ⟨opcode, operands⟩ := instruction
  cases opcode with
  | rmem =>
    obtain ⟨register, -, h⟩ := exists_of_bind_eq_ok h
    obtain ⟨read, hread, h⟩ := exists_of_bind_eq_ok h
    obtain ⟨word, -, h⟩ := exists_of_bind_eq_ok h
    obtain ⟨value, -, h⟩ := exists_of_bind_eq_ok h
    obtain rfl := Except.ok.inj h
    obtain rfl := Option.some.inj haddress
    exact .reads hread
  | wmem =>
    obtain ⟨written, hwritten, h⟩ := exists_of_bind_eq_ok h
    obtain ⟨value, -, h⟩ := exists_of_bind_eq_ok h
    obtain rfl := Except.ok.inj h
    obtain rfl := Option.some.inj haddress
    exact .writes hwritten
  | eq | gt | add | mult | mod | and | or =>
    rw [address?_resolveOperation h] at haddress
    cases haddress
  | halt | noop =>
    obtain rfl := Except.ok.inj h
    cases haddress
  | push | jmp =>
    obtain ⟨value, -, h⟩ := exists_of_bind_eq_ok h
    obtain rfl := Except.ok.inj h
    cases haddress
  | set | pop | not | jt | jf =>
    obtain ⟨first, -, h⟩ := exists_of_bind_eq_ok h
    obtain ⟨second, -, h⟩ := exists_of_bind_eq_ok h
    obtain rfl := Except.ok.inj h
    cases haddress
  | call | out =>
    obtain ⟨value, -, h⟩ := exists_of_bind_eq_ok h
    split at h
    · obtain rfl := Except.ok.inj h
      cases haddress
    · cases h
  | ret =>
    obtain rfl := Except.ok.inj h
    cases htop : computer.machine.stack.top? with
    | none =>
      rw [htop] at haddress
      cases haddress
    | some target =>
      rw [htop] at haddress
      cases haddress
  | inp =>
    obtain ⟨register, -, h⟩ := exists_of_bind_eq_ok h
    obtain rfl := Except.ok.inj h
    cases hinput : computer.console.input with
    | nil =>
      rw [hinput] at haddress
      cases haddress
    | cons byte rest =>
      rw [hinput] at haddress
      cases haddress

end Computer

end WordMachine
