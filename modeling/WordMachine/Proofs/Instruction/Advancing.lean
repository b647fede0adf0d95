import WordMachine.Proofs.Computer.Failing
import WordMachine.Proofs.Computer.Peeking

/-!
# How far decoding gets

What a machine hands out while it decodes are the cells that its program counter passes, one for
each word (`eq_of_handsOut`), and a call that finds no word moves nothing (`handsOut_of_decodes`). So
the counter tells how many words were read, whatever came of them.

A peek at the program counter sees the same instruction or the same fault, and what it sees depends
on the cells of the instruction alone (`decodeAt_congr`). `peeks_as_it_fetches` puts this together.
-/

namespace WordMachine

namespace Machine

open Fetch (HandsOut Decodes)

variable {machine after : Machine} {read : List Word} {fault : Fault}

/-- A machine that finds no word stays as it is. -/
theorem of_runFrom_fetch_eq_error (h : Fetch.runFrom fetch machine = (.error fault, after)) :
    after = machine ∧ machine.memory.read machine.pc.toNat = .error fault := by
  rw [runFrom_fetch] at h
  cases hread : machine.memory.read machine.pc.toNat with
  | error found =>
    rw [hread] at h
    obtain ⟨hfault, rfl⟩ := Prod.mk.inj h
    exact ⟨rfl, hfault⟩
  | ok word =>
    rw [hread] at h
    cases h

/-- For each word that a machine hands out its program counter has moved on by one, and it has never
wrapped around. Nothing else has changed. -/
theorem eq_of_handsOut (h : HandsOut fetch machine read after) :
    after = { machine with pc := after.pc } ∧
      after.pc.toNat = machine.pc.toNat + read.length := by
  obtain ⟨-, hrest, hpc⟩ := machine.reads_fetch.of_handsOut ⟨rfl, rfl⟩ h
  exact ⟨hrest, hpc⟩

/-- Whatever decoding comes to, a machine is left behind where the words that were read have brought
it. -/
theorem handsOut_of_decodes {address : Word} {found : Except Fault Instruction}
    (h : Decodes fetch address machine read found after) : HandsOut fetch machine read after := by
  cases h with
  | complete hread => exact hread
  | invalidOpcode hread => exact hread
  | atOpcode hnext =>
    obtain ⟨rfl, -⟩ := of_runFrom_fetch_eq_error hnext
    exact .nil
  | atOperand hread hlength hnext =>
    obtain ⟨rfl, -⟩ := of_runFrom_fetch_eq_error hnext
    exact hread

/-- A fault of memory is about an address, and not about a word that is there. -/
theorem runFrom_fetch_ne_invalidOpcode {word address : Word} :
    Fetch.runFrom fetch machine ≠ (.error (.invalidOpcode word address), after) := by
  intro h
  cases Memory.read_eq_error_iff.mp (of_runFrom_fetch_eq_error h).2

/-- Behind an invalid opcode nothing more is read. -/
theorem eq_singleton_of_invalidOpcode {address address' : Word} {word : Word}
    (h : Decodes fetch address machine read (.error (.invalidOpcode word address')) after) :
    read = [word] := by
  cases h with
  | invalidOpcode hread hopcode => rfl
  | atOpcode hnext => exact absurd hnext runFrom_fetch_ne_invalidOpcode
  | atOperand hread hlength hnext => exact absurd hnext runFrom_fetch_ne_invalidOpcode

/-- An instruction is decoded alike wherever the cells that it takes up are the same. -/
theorem decodeAt_congr {other : Machine} {address : Word} {instruction : Instruction}
    (h : machine.decodeAt address = .ok instruction)
    (hcells : ∀ index < instruction.width, other.memory.word? (address.toNat + index) =
      machine.memory.word? (address.toNat + index)) : other.decodeAt address = .ok instruction := by
  rw [decodeAt_eq_ok_iff] at h ⊢
  intro index word hword
  have hindex : index < instruction.width := by
    have hlt := (List.getElem?_eq_some_iff.mp hword).1
    rwa [Instruction.length_toWords, Nat.add_comm] at hlt
  rw [Memory.read_eq_ok_iff, hcells index hindex, ← Memory.read_eq_ok_iff]
  exact h index word hword

/-- Peeking and fetching decode alike. A machine that fetches the instruction at its program counter
finds what a peek there finds, an instruction or a fault. The counter moves on by as many words as
could be read, without wrapping around, and nothing else changes: by the width of the instruction,
if one is found, and by one for a word that is no opcode.

An instruction that is seen at an address shows its opcode to a look at the opcode alone, and the
cells that it takes up are all that matters: over the same cells any other machine decodes it, too. -/
theorem peeks_as_it_fetches (machine : Machine) :
    (∃ found after read, machine.fetchInstruction = (found, after) ∧
      machine.decodeAt machine.pc = found ∧
      Decodes fetch machine.pc machine read found after ∧
      after = { machine with pc := after.pc } ∧
      after.pc.toNat = machine.pc.toNat + read.length ∧
      (∀ instruction, found = .ok instruction → read.length = instruction.width) ∧
      ∀ word address, found = .error (.invalidOpcode word address) → read.length = 1) ∧
    ∀ address instruction, machine.decodeAt address = .ok instruction →
      machine.opcodeAt? address = some instruction.opcode ∧
      ∀ other : Machine,
        (∀ index < instruction.width, other.memory.word? (address.toNat + index) =
          machine.memory.word? (address.toNat + index)) →
        other.decodeAt address = .ok instruction := by
  refine ⟨?_, fun address instruction hdecode =>
    ⟨opcodeAt?_of_decodeAt hdecode, fun other hcells => decodeAt_congr hdecode hcells⟩⟩
  rcases hfetch : machine.fetchInstruction with ⟨found, after⟩
  have hseen : machine.decodeAt machine.pc = found := by rw [decodeAt_pc, hfetch]
  obtain ⟨read, hdecodes⟩ := Fetch.runFrom_decode_eq_iff.mp hfetch
  obtain ⟨hrest, hpc⟩ := eq_of_handsOut (handsOut_of_decodes hdecodes)
  refine ⟨found, after, read, rfl, hseen, hdecodes, hrest, hpc, ?_, ?_⟩
  · rintro instruction rfl
    cases hdecodes
    rw [Instruction.length_toWords, Nat.add_comm]
    rfl
  · rintro word address rfl
    rw [eq_singleton_of_invalidOpcode hdecodes]
    rfl

/-- A machine that stands at the instruction `out 65` in the last two cells of its memory. -/
def atTheEnd : Machine where
  pc := 32766
  registers := .zero
  stack := .empty
  memory := (Memory.empty.put 32766 ⟨19, rfl⟩).put 32767 ⟨65, rfl⟩
  halted := none

/-- The instruction in the last cells is decoded whatever stands in the first one. -/
theorem peeks_as_it_fetches_at_the_end :
    atTheEnd.decodeAt 32766 = .ok ⟨.out, #v[65]⟩ ∧
      atTheEnd.opcodeAt? 32766 = some .out ∧
      Machine.decodeAt { atTheEnd with memory := atTheEnd.memory.put 0 ⟨21, rfl⟩ } 32766 =
        .ok ⟨.out, #v[65]⟩ := by
  have hdecode : atTheEnd.decodeAt 32766 = .ok ⟨.out, #v[65]⟩ := by
    rw [decodeAt_eq_ok_iff]
    refine Fetch.holds_cons.mpr ⟨?_, Fetch.holds_cons.mpr ⟨?_, Fetch.holds_nil⟩⟩
    all_goals
      rw [Memory.read_eq_ok_iff, atTheEnd, Memory.word?_put, Memory.word?_put]
      rfl
  obtain ⟨hopcode, hother⟩ := (peeks_as_it_fetches atTheEnd).2 32766 _ hdecode
  refine ⟨hdecode, hopcode, hother _ fun index _ => ?_⟩
  rw [Memory.word?_put, if_neg]
  exact fun h => absurd h.1 (Nat.ne_of_lt (Nat.add_pos_left (by decide) index))

end Machine

end WordMachine
