import Mathlib.Data.List.Basic
import WordMachine.Memory

/-!
# What memory shows

Memory is the partial map `word?` and nothing else (`ext_word?`), and whatever is read of it is that
map again: the written cells are its pairs in the order of their addresses, the compact words are
its words in that order, and a range is a piece of it, cut off at the last cell.
-/

namespace WordMachine.Memory

variable {memory other : Memory} {address first last : Nat} {word : Word}

/-- Two memories that hold the same words are the same. -/
theorem ext_word? (h : ∀ address, memory.word? address = other.word? address) : memory = other := by
  obtain ⟨cells⟩ := memory
  obtain ⟨others⟩ := other
  congr 1
  apply Vector.ext
  intro index hindex
  have hcell := h index
  simp only [word?, Vector.getElem?_eq_getElem hindex, Option.join_some] at hcell
  exact Option.map_injective Subtype.val_injective hcell

/-! ## The written cells -/

/-- The written cells are the pairs of the map. -/
theorem mem_written_iff : (address, word) ∈ memory.written ↔ memory.word? address = some word := by
  rw [written, List.mem_filterMap]
  constructor
  · rintro ⟨seen, -, hseen⟩
    obtain ⟨found, hfound, hpair⟩ := Option.map_eq_some_iff.mp hseen
    obtain ⟨rfl, rfl⟩ := Prod.mk.inj hpair
    exact hfound
  · intro hword
    exact ⟨address, List.mem_range.mpr (lt_of_word? hword), by rw [hword, Option.map_some]⟩

/-- The written cells come in the order of their addresses. -/
theorem pairwise_written (memory : Memory) :
    memory.written.Pairwise fun first second => first.1 < second.1 := by
  refine List.pairwise_lt_range.filterMap _ fun address next hlt pair hpair other hother => ?_
  obtain ⟨word, -, rfl⟩ := Option.map_eq_some_iff.mp hpair
  obtain ⟨word, -, rfl⟩ := Option.map_eq_some_iff.mp hother
  exact hlt

/-- The compact words are the words of the cells in order. -/
theorem compact_eq (memory : Memory) :
    memory.compact = (List.range memorySize).filterMap memory.word? := by
  rw [compact, written, List.map_filterMap]
  congr 1
  funext address
  rw [Option.map_map]
  exact Option.map_id'

/-! ## Ranges -/

/-- A range holds the cells from its first address to its last, or to the end of memory. -/
theorem mem_range_iff {cell : Option Word} :
    (address, cell) ∈ memory.range first last ↔
      first ≤ address ∧ address ≤ min last 32767 ∧ cell = memory.word? address := by
  rw [range, List.mem_map]
  constructor
  · rintro ⟨seen, hseen, hpair⟩
    obtain ⟨rfl, rfl⟩ := Prod.mk.inj hpair
    rw [List.mem_range'_1, memorySize] at hseen
    exact ⟨hseen.1, by omega, rfl⟩
  · rintro ⟨hfirst, hlast, rfl⟩
    refine ⟨address, ?_, rfl⟩
    rw [List.mem_range'_1, memorySize]
    omega

/-- The cells of a range come in order. -/
theorem pairwise_range (memory : Memory) (first last : Nat) :
    (memory.range first last).Pairwise fun cell next => cell.1 < next.1 := by
  rw [range, List.pairwise_map]
  exact List.pairwise_lt_range'

/-- A range is empty if it ends before it starts. -/
theorem range_eq_nil_iff : memory.range first last = [] ↔ min last 32767 < first := by
  rw [range, List.map_eq_nil_iff, List.range'_eq_nil_iff, memorySize]
  omega

end WordMachine.Memory
