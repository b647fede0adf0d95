import WordMachine.Proofs.Instruction.Fetching

/-!
# Instructions in place

Every source that instructions are decoded from hands out cells one after the other: a running
machine and a peek those of memory, a list its words. `Fetch.Reads` says this of a source. What is
decoded from such a source is then no matter of how it keeps its place: it is the instruction whose
words the cells hold from the position on (`Reads.decode_eq_ok_iff`), and the source stands behind
these words afterwards (`Reads.of_decode`).

So two sources decode alike wherever their cells are the same, and what lies behind an instruction
has no part in it.
-/

namespace WordMachine

variable {σ : Type}

namespace Fetch

/-- The cells hold the words, from a position on. -/
def Holds (cells : Nat → Except Fault Word) (position : Nat) (words : List Word) : Prop :=
  ∀ index word, words[index]? = some word → cells (position + index) = .ok word

/-- A source that hands out cells one after the other. In a state that stands at a position it gives
what the cell there gives, and behind a word it stands at the next position. -/
def Reads (next : Fetch σ Word) (cells : Nat → Except Fault Word) (At : σ → Nat → Prop) : Prop :=
  ∀ state position, At state position → ∃ after, runFrom next state = (cells position, after) ∧
    ∀ word, cells position = .ok word → At after (position + 1)

variable {cells cells' : Nat → Except Fault Word} {position : Nat} {words : List Word}

theorem holds_nil : Holds cells position [] := nofun

theorem holds_cons {word : Word} :
    Holds cells position (word :: words) ↔
      cells position = .ok word ∧ Holds cells (position + 1) words := by
  constructor
  · intro h
    refine ⟨h 0 word rfl, fun index found hfound => ?_⟩
    rw [Nat.add_assoc, Nat.add_comm 1]
    exact h (index + 1) found hfound
  · rintro ⟨hfirst, hrest⟩ index found hfound
    cases index with
    | zero =>
      obtain rfl := Option.some.inj hfound
      exact hfirst
    | succ index =>
      rw [Nat.add_comm index, ← Nat.add_assoc]
      exact hrest index found hfound

/-- Whether words are held depends on the words in the cells, and not on how a cell without one
fails. -/
theorem holds_congr (h : ∀ position word, cells position = .ok word ↔ cells' position = .ok word) :
    Holds cells position words ↔ Holds cells' position words :=
  forall₃_congr fun index word _ => h (position + index) word

namespace Reads

open Instruction

variable {next : Fetch σ Word} {At : σ → Nat → Prop} (h : Reads next cells At) {state after : σ}

include h

/-- Behind a word the source stands at the next position. -/
theorem of_next (hat : At state position) {word : Word}
    (hnext : runFrom next state = (.ok word, after)) :
    cells position = .ok word ∧ At after (position + 1) := by
  obtain ⟨found, hfound, hstands⟩ := h state position hat
  obtain ⟨hcell, rfl⟩ := Prod.mk.inj (hnext.symm.trans hfound)
  exact ⟨hcell.symm, hstands word hcell.symm⟩

/-- Words that are handed out are held by the cells, and the source stands behind them. -/
theorem of_handsOut (hat : At state position) (hread : HandsOut next state words after) :
    Holds cells position words ∧ At after (position + words.length) := by
  induction hread generalizing position with
  | nil => exact ⟨holds_nil, hat⟩
  | @cons state middle after word words hnext hrest ih =>
    obtain ⟨hcell, hmiddle⟩ := h.of_next hat hnext
    obtain ⟨hheld, hstands⟩ := ih hmiddle
    refine ⟨holds_cons.mpr ⟨hcell, hheld⟩, ?_⟩
    rwa [List.length_cons, Nat.add_comm words.length, ← Nat.add_assoc]

/-- Words that the cells hold are handed out. -/
theorem exists_handsOut (hat : At state position) (hheld : Holds cells position words) :
    ∃ after, HandsOut next state words after := by
  induction words generalizing state position with
  | nil => exact ⟨state, .nil⟩
  | cons word words ih =>
    obtain ⟨hcell, hrest⟩ := holds_cons.mp hheld
    obtain ⟨middle, hnext, hstands⟩ := h state position hat
    rw [hcell] at hnext
    obtain ⟨after, hread⟩ := ih (hstands word hcell) hrest
    exact ⟨after, .cons hnext hread⟩

variable (hat : At state position)

include hat

/-- An instruction that is decoded is held by the cells, and the source stands behind it. -/
theorem of_decode {address : Word} {instruction : Instruction}
    (hdecode : runFrom (decode next address) state = (.ok instruction, after)) :
    Holds cells position instruction.toWords ∧ At after (position + instruction.width) := by
  have hread := h.of_handsOut hat (runFrom_decode_eq_ok_iff.mp hdecode)
  rwa [length_toWords, Nat.add_comm 1] at hread

/-- What is decoded is the instruction whose words the cells hold. -/
theorem decode_eq_ok_iff {address : Word} {instruction : Instruction} :
    (runFrom (decode next address) state).1 = .ok instruction ↔
      Holds cells position instruction.toWords := by
  constructor
  · intro hdecode
    exact (h.of_decode hat (Prod.ext hdecode rfl)).1
  · intro hheld
    obtain ⟨after, hread⟩ := h.exists_handsOut hat hheld
    rw [runFrom_decode_eq_ok_iff.mpr hread]

end Reads

end Fetch

/-! ## The sources -/

namespace Machine

/-- A cursor hands out the cells of memory. -/
theorem reads_peek (memory : Memory) :
    Fetch.Reads (peek memory) memory.read fun cursor position => cursor = position := by
  rintro cursor position rfl
  exact ⟨cursor + 1, rfl, fun _ _ => rfl⟩

/-- A machine hands out the cells of its memory, and only its program counter moves. -/
theorem reads_fetch (machine : Machine) :
    Fetch.Reads fetch machine.memory.read fun state position =>
      state = { machine with pc := state.pc } ∧ state.pc.toNat = position := by
  rintro state position ⟨hstate, rfl⟩
  have hmemory : machine.memory = state.memory := by rw [hstate]
  rw [runFrom_fetch, hmemory]
  cases hread : state.memory.read state.pc.toNat with
  | error fault => exact ⟨state, rfl, nofun⟩
  | ok word =>
    exact ⟨{ state with pc := state.pc + 1 }, rfl,
      fun _ _ => ⟨by rw [hstate], Memory.toNat_add_one_of_read hread⟩⟩

/-- The instruction seen at an address is the one whose words memory holds there. -/
theorem decodeAt_eq_ok_iff {machine : Machine} {address : Word} {instruction : Instruction} :
    machine.decodeAt address = .ok instruction ↔
      Fetch.Holds machine.memory.read address.toNat instruction.toWords :=
  (reads_peek machine.memory).decode_eq_ok_iff rfl

end Machine

namespace Instruction

/-- The words of a list as cells, the first one at address zero. -/
def cellsOf (words : List Word) (position : Nat) : Except Fault Word :=
  match words[position]? with
  | some word => .ok word
  | none => .error (.outOfBounds position)

theorem cellsOf_eq_ok_iff {words : List Word} {position : Nat} {word : Word} :
    cellsOf words position = .ok word ↔ words[position]? = some word := by
  unfold cellsOf
  cases words[position]? <;> simp

/-- What the words of a list hold is what the list goes on with. -/
theorem holds_cellsOf_iff {words held : List Word} {position : Nat} :
    Fetch.Holds (cellsOf words) position held ↔ held <+: words.drop position := by
  rw [List.prefix_iff_getElem?]
  constructor
  · intro h index hlt
    rw [List.getElem?_drop]
    exact cellsOf_eq_ok_iff.mp (h index held[index] (List.getElem?_eq_getElem hlt))
  · intro h index word hword
    obtain ⟨hlt, rfl⟩ := List.getElem?_eq_some_iff.mp hword
    rw [cellsOf_eq_ok_iff, ← List.getElem?_drop]
    exact h index hlt

/-- A list hands out its words. -/
theorem reads_next (words : List Word) :
    Fetch.Reads Reading.next (cellsOf words) fun reading position =>
      reading = ⟨position, words.drop position⟩ := by
  rintro reading position rfl
  by_cases hlt : position < words.length
  · rw [List.drop_eq_getElem_cons hlt, cellsOf, List.getElem?_eq_getElem hlt]
    exact ⟨⟨position + 1, words.drop (position + 1)⟩, rfl, fun _ _ => rfl⟩
  · rw [List.drop_eq_nil_of_le (by omega), cellsOf, List.getElem?_eq_none (by omega)]
    exact ⟨⟨position, []⟩, rfl, nofun⟩

/-- The instruction that a list starts with behind its first words is the one whose words the list
holds there. -/
theorem ofWords_drop_eq_ok_iff {address : Nat} {words : List Word} {instruction : Instruction} :
    ofWords address (words.drop address) = .ok instruction ↔
      Fetch.Holds (cellsOf words) address instruction.toWords :=
  (reads_next words).decode_eq_ok_iff rfl

/-- The memory of a program holds what the words of the program do. -/
theorem holds_ofProgram {program : Program} {position : Nat} {words : List Word} :
    Fetch.Holds (Memory.ofProgram program).read position words ↔
      Fetch.Holds (cellsOf program.words) position words :=
  Fetch.holds_congr fun address word => by
    rw [Memory.read_eq_ok_iff, Memory.word?_ofProgram, cellsOf_eq_ok_iff]

end Instruction

end WordMachine
