import WordMachine.Proofs.Computer.Table
import WordMachine.Proofs.Instruction.Reading

/-!
# The instruction at the program counter

What a machine faces in the sense of the instruction table is what it fetches (`Machine.faces_iff`),
and what a peek sees there. In a machine that a program has been loaded into, it is an instruction
whose words the program goes on with (`Machine.faces_of_prefix`).
-/

namespace WordMachine

/-- An instruction with its operands as a list. -/
def Instruction.ofOperands (opcode : Opcode) (operands : List Word)
    (hlength : operands.length = opcode.arity) : Instruction :=
  ⟨opcode, ⟨operands.toArray, hlength⟩⟩

theorem Opcode.toNat_toWord_eq_number (opcode : Opcode) : opcode.toWord.toNat = opcode.number := by
  cases opcode <;> rfl

namespace Machine

variable {machine fetched : Machine} {opcode : Opcode} {operands : List Word} {next : Word}
  {instruction : Instruction}

/-- The machine faces an instruction if memory holds the words of the instruction at the program
counter. -/
theorem faces_iff_holds :
    machine.Faces opcode operands next ↔ operands.length = opcode.arity ∧
      Fetch.Holds machine.memory.read machine.pc.toNat (opcode.toWord :: operands) ∧
      next.toNat = machine.pc.toNat + 1 + opcode.arity := by
  constructor
  · rintro ⟨hlength, ⟨word, hcell, hnumber⟩, hoperands, hnext⟩
    obtain rfl : word = opcode.toWord :=
      UInt16.toNat.inj (hnumber.trans opcode.toNat_toWord_eq_number.symm)
    rw [hlength] at hnext
    refine ⟨hlength, Fetch.holds_cons.mpr ⟨Memory.read_eq_ok_iff.mpr hcell, ?_⟩, hnext⟩
    exact fun index word hword => Memory.read_eq_ok_iff.mpr (hoperands index word hword)
  · rintro ⟨hlength, hholds, hnext⟩
    obtain ⟨hcell, hoperands⟩ := Fetch.holds_cons.mp hholds
    refine ⟨hlength, ⟨_, Memory.read_eq_ok_iff.mp hcell, opcode.toNat_toWord_eq_number⟩, ?_,
      by rw [hlength, hnext]⟩
    exact fun index word hword => Memory.read_eq_ok_iff.mp (hoperands index word hword)

theorem Faces.holds (h : machine.Faces opcode operands next) :
    Fetch.Holds machine.memory.read machine.pc.toNat (opcode.toWord :: operands) :=
  (faces_iff_holds.mp h).2.1

/-- An instruction that the words of the program go on with, as long as memory holds the program and
no more. -/
theorem faces_of_prefix {program : Program} (hmemory : machine.memory = .ofProgram program)
    (hlength : operands.length = opcode.arity)
    (hwords : opcode.toWord :: operands <+: program.words.drop machine.pc.toNat)
    (hnext : next.toNat = machine.pc.toNat + 1 + opcode.arity) :
    machine.Faces opcode operands next := by
  refine faces_iff_holds.mpr ⟨hlength, ?_, hnext⟩
  rw [hmemory]
  exact Instruction.holds_ofProgram.mpr (Instruction.holds_cellsOf_iff.mpr hwords)

/-- Fetching gives the instruction at the program counter and moves the counter behind it. -/
theorem faces_iff :
    machine.Faces opcode operands next ↔
      ∃ hlength, machine.fetchInstruction =
        (.ok (.ofOperands opcode operands hlength), { machine with pc := next }) := by
  have hreads := machine.reads_fetch
  have hwidth : machine.pc.toNat + (opcode.arity + 1) = machine.pc.toNat + 1 + opcode.arity := by
    omega
  rw [faces_iff_holds]
  constructor
  · rintro ⟨hlength, hholds, hnext⟩
    have hfound : machine.fetchInstruction.1 = .ok (.ofOperands opcode operands hlength) :=
      (hreads.decode_eq_ok_iff ⟨rfl, rfl⟩).mpr hholds
    rcases hfetch : machine.fetchInstruction with ⟨found, fetched⟩
    rw [hfetch] at hfound
    obtain rfl := hfound
    obtain ⟨-, hfetched, hpc⟩ := hreads.of_decode ⟨rfl, rfl⟩ hfetch
    have hplace : fetched.pc = next := UInt16.toNat.inj (hpc.trans (hwidth.trans hnext.symm))
    rw [hplace] at hfetched
    exact ⟨hlength, by rw [hfetched]⟩
  · rintro ⟨hlength, hfetch⟩
    obtain ⟨hholds, -, hpc⟩ := hreads.of_decode ⟨rfl, rfl⟩ hfetch
    exact ⟨hlength, hholds, hpc.trans hwidth⟩

/-- An instruction that was fetched is the one that the machine faces. -/
theorem faces_of_fetchInstruction (hfetch : machine.fetchInstruction = (.ok instruction, fetched)) :
    fetched = { machine with pc := fetched.pc } ∧
      machine.Faces instruction.opcode instruction.operands.toList fetched.pc := by
  obtain ⟨opcode, ⟨operands⟩, hsize⟩ := instruction
  obtain ⟨-, hfetched, -⟩ := machine.reads_fetch.of_decode ⟨rfl, rfl⟩ hfetch
  rw [hfetched] at hfetch
  exact ⟨hfetched, faces_iff.mpr ⟨hsize, hfetch⟩⟩

/-- The instruction at the program counter is the one that is seen there. -/
theorem Faces.decodeAt_eq (h : machine.Faces opcode operands next) :
    machine.decodeAt machine.pc = .ok (.ofOperands opcode operands h.length_eq) :=
  decodeAt_eq_ok_iff.mpr h.holds

end Machine

end WordMachine
