import WordMachine.Proofs.Instruction.Reading

/-!
# Instructions that break off

A source may have no word where decoding asks for one, or a word there that is no opcode.
`Instruction.Breaks` says at which of the words that happens and with which fault, in terms of the
cells alone, and `Reads.decode_eq_error_iff` that decoding faults exactly so. Since words are asked
for one after the other, it is always the first missing word that counts: the cells hold everything
in front of it.

What is decoded and where decoding faults is thereby said of the cells and not of the source, so
that two sources of the same cells decode alike (`Reads.decode_eq_decode`).
-/

namespace WordMachine

variable {σ τ : Type} {fault : Fault}

/-- Where decoding an instruction breaks off, and with which fault, if the instruction is to be read
from a position on and is known by its address. -/
inductive Instruction.Breaks (cells : Nat → Except Fault Word) (position : Nat) (address : Word) :
    Fault → Prop where
  | atOpcode {fault : Fault} (hcell : cells position = .error fault) :
      Breaks cells position address fault
  | invalidOpcode {word : Word} (hcell : cells position = .ok word)
      (hopcode : Opcode.ofWord? word = none) :
      Breaks cells position address (.invalidOpcode word address)
  /-- Some operands are there, but not the next one. -/
  | atOperand {opcode : Opcode} {operands : List Word} {fault : Fault}
      (hholds : Fetch.Holds cells position (opcode.toWord :: operands))
      (hlength : operands.length < opcode.arity)
      (hcell : cells (position + 1 + operands.length) = .error fault) :
      Breaks cells position address fault

namespace Fetch

namespace Reads

open Instruction

variable {next : Fetch σ Word} {cells : Nat → Except Fault Word} {At : σ → Nat → Prop}
  (h : Reads next cells At) {state : σ} {position : Nat} (hat : At state position)

include h hat

/-- A call to the source fails as its cell does. -/
theorem runFrom_next_eq_error_iff :
    (∃ after, runFrom next state = (.error fault, after)) ↔ cells position = .error fault := by
  obtain ⟨after, hnext, -⟩ := h state position hat
  rw [hnext]
  simp

/-- Decoding faults exactly where the instruction breaks off. -/
theorem decode_eq_error_iff {address : Word} :
    (runFrom (decode next address) state).1 = .error fault ↔
      Breaks cells position address fault := by
  constructor
  · intro hdecode
    obtain ⟨read, hdecodes⟩ := runFrom_decode_eq_error_iff.mp (Prod.ext hdecode rfl)
    cases hdecodes with
    | atOpcode hnext => exact .atOpcode ((h.runFrom_next_eq_error_iff hat).mp ⟨_, hnext⟩)
    | invalidOpcode hread hopcode =>
      exact .invalidOpcode (holds_cons.mp (h.of_handsOut hat hread).1).1 hopcode
    | atOperand hread hlength hnext =>
      obtain ⟨hholds, hmiddle⟩ := h.of_handsOut hat hread
      have hcell := (h.runFrom_next_eq_error_iff hmiddle).mp ⟨_, hnext⟩
      rw [List.length_cons, Nat.add_comm _ 1, ← Nat.add_assoc] at hcell
      exact .atOperand hholds hlength hcell
  · intro hbreaks
    obtain ⟨read, after, hdecodes⟩ :
        ∃ read after, Decodes next address state read (.error fault) after := by
      cases hbreaks with
      | atOpcode hcell =>
        obtain ⟨after, hnext⟩ := (h.runFrom_next_eq_error_iff hat).mpr hcell
        exact ⟨_, after, .atOpcode hnext⟩
      | invalidOpcode hcell hopcode =>
        obtain ⟨after, hread⟩ := h.exists_handsOut hat (holds_cons.mpr ⟨hcell, holds_nil⟩)
        exact ⟨_, after, .invalidOpcode hread hopcode⟩
      | atOperand hholds hlength hcell =>
        obtain ⟨middle, hread⟩ := h.exists_handsOut hat hholds
        have hmiddle := (h.of_handsOut hat hread).2
        rw [List.length_cons, Nat.add_comm _ 1, ← Nat.add_assoc] at hmiddle
        obtain ⟨after, hnext⟩ := (h.runFrom_next_eq_error_iff hmiddle).mpr hcell
        exact ⟨_, after, .atOperand hread hlength hnext⟩
    rw [runFrom_decode_eq_error_iff.mpr ⟨read, hdecodes⟩]

/-- Two sources that hand out the same cells decode alike, however they keep their places. -/
theorem decode_eq_decode {next' : Fetch τ Word} {At' : τ → Nat → Prop} (h' : Reads next' cells At')
    {state' : τ} (hat' : At' state' position) (address : Word) :
    (runFrom (decode next address) state).1 = (runFrom (decode next' address) state').1 := by
  cases hfound : (runFrom (decode next address) state).1 with
  | error fault =>
    exact ((h'.decode_eq_error_iff hat').mpr ((h.decode_eq_error_iff hat).mp hfound)).symm
  | ok instruction =>
    exact ((h'.decode_eq_ok_iff hat').mpr ((h.decode_eq_ok_iff hat).mp hfound)).symm

end Reads

end Fetch

end WordMachine
