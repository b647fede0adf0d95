import WordMachine.Proofs.Memory.Viewing

/-!
# Loading the compact words of a memory

The compact words of a memory are always a program (`exists_program_compact`). The memory of that
program holds them from address zero on, so that it is the memory they were taken from if and only
if no cell in front of a written one is unwritten (`ofProgram_eq_iff_isGapless`).
-/

namespace WordMachine.Memory

variable {memory : Memory} {program : Program} {size : Nat}

/-- The written cells are those in front of some address. -/
def IsGapless (memory : Memory) : Prop :=
  ∃ size, ∀ address, memory.isWritten address = true ↔ address < size

/-- The compact words can always be loaded: there are no more of them than cells, and memory holds
none that is not valid. -/
theorem exists_program_compact (memory : Memory) :
    ∃ program, Program.ofWords memory.compact = .ok program := by
  have hfits : memory.compact.length ≤ memorySize := by
    rw [compact_eq]
    exact Nat.le_trans (List.length_filterMap_le _ _) (Nat.le_of_eq List.length_range)
  have hvalid : ∀ word ∈ memory.compact, word.isValid = true := by
    intro word hword
    rw [compact_eq, List.mem_filterMap] at hword
    obtain ⟨address, -, hword⟩ := hword
    exact isValid_of_word? hword
  cases hwords : Program.ofWords memory.compact with
  | ok program => exact ⟨program, rfl⟩
  | error fault =>
    obtain ⟨hlarge, -⟩ | ⟨-, word, hword, -⟩ := Program.ofWords_eq_error_iff.mp hwords
    · exact absurd hfits (Nat.not_le_of_lt hlarge)
    · rw [firstInvalid?_eq_none_iff.mpr hvalid] at hword
      cases hword

/-- The compact words are loaded in the order of the written cells, from address zero on. -/
theorem word?_ofProgram_compact (hprogram : Program.ofWords memory.compact = .ok program)
    (address : Nat) :
    (ofProgram program).word? address = memory.written[address]?.map Prod.snd := by
  rw [word?_ofProgram, Program.ofWords_eq_ok_iff.mp hprogram, compact, List.getElem?_map]

/-! ## Memory without a gap -/

/-- What lies behind the written cells holds no word. -/
theorem word?_eq_none_of_gapless (h : ∀ address, memory.isWritten address = true ↔ address < size)
    {address : Nat} (hle : size ≤ address) : memory.word? address = none := by
  have hunwritten : ¬ memory.isWritten address = true := by
    rw [h]
    exact Nat.not_lt_of_le hle
  rwa [isWritten, Option.not_isSome_iff_eq_none] at hunwritten

/-- What lies in front of it holds one. -/
theorem exists_word?_of_gapless (h : ∀ address, memory.isWritten address = true ↔ address < size)
    {address : Nat} (hlt : address < size) : ∃ word, memory.word? address = some word :=
  Option.isSome_iff_exists.mp ((h address).mpr hlt)

/-- Without a gap the compact words are those of the first cells, none left out. -/
theorem compact_eq_of_gapless (h : ∀ address, memory.isWritten address = true ↔ address < size) :
    memory.compact = (List.range size).map fun address => (memory.word? address).getD 0 := by
  have hle : size ≤ memorySize := by
    refine Nat.le_of_not_lt fun hlarge => ?_
    obtain ⟨word, hword⟩ := exists_word?_of_gapless h hlarge
    exact Nat.lt_irrefl memorySize (lt_of_word? hword)
  -- All of memory is the cells up to the gapless end and a rest that shows nothing.
  obtain ⟨rest, hrest⟩ := Nat.exists_eq_add_of_le hle
  have hfront : (List.range size).filterMap memory.word? =
      (List.range size).map fun address => (memory.word? address).getD 0 := by
    rw [← List.filterMap_eq_map]
    refine List.filterMap_congr fun address haddress => ?_
    obtain ⟨word, hword⟩ := exists_word?_of_gapless h (List.mem_range.mp haddress)
    rw [Function.comp_apply, hword, Option.getD_some]
  have hback : ((List.range rest).map (size + ·)).filterMap memory.word? = [] := by
    rw [List.filterMap_eq_nil_iff]
    intro address haddress
    obtain ⟨offset, -, rfl⟩ := List.mem_map.mp haddress
    exact word?_eq_none_of_gapless h (Nat.le_add_right size offset)
  rw [compact_eq, hrest, List.range_add, List.filterMap_append, hfront, hback, List.append_nil]

/-- Without a gap each compact word stands at its own address. -/
theorem IsGapless.getElem?_compact (h : memory.IsGapless) (address : Nat) :
    memory.compact[address]? = memory.word? address := by
  obtain ⟨size, hsize⟩ := h
  rw [compact_eq_of_gapless hsize, List.getElem?_map]
  by_cases haddress : address < size
  · obtain ⟨word, hword⟩ := exists_word?_of_gapless hsize haddress
    rw [List.getElem?_range haddress, Option.map_some, hword, Option.getD_some]
  · have hle : size ≤ address := Nat.le_of_not_lt haddress
    rw [List.getElem?_eq_none (by rwa [List.length_range]), Option.map_none,
      word?_eq_none_of_gapless hsize hle]

/-- Loading the compact words brings the memory back if and only if it has no gap. -/
theorem ofProgram_eq_iff_isGapless (hprogram : Program.ofWords memory.compact = .ok program) :
    ofProgram program = memory ↔ memory.IsGapless := by
  constructor
  · rintro rfl
    refine ⟨program.words.length, fun address => ?_⟩
    rw [isWritten, word?_ofProgram, isSome_getElem?]
  · intro hgapless
    apply ext_word?
    intro address
    rw [word?_ofProgram, Program.ofWords_eq_ok_iff.mp hprogram, hgapless.getElem?_compact]

end WordMachine.Memory
