import WordMachine.Program

/-!
# Memory

`memorySize` cells, each unwritten or holding a valid word. The view is the partial map `word?`
from addresses to words; `put` and `overlay` change it at the addresses they cover and nowhere
else (`word?_put`, `word?_overlay`), and every read is that map with a fault for a missing word.

A read or write that fails leaves memory as it was: it returns a fault and no memory.
-/

namespace WordMachine

/-- The memory cells. -/
structure Memory where
  cells : Vector (Option ValidWord) 32768
  deriving DecidableEq

namespace Memory

/-- The memory in which no cell is written. -/
def empty : Memory := ⟨Vector.replicate 32768 none⟩

/-- The word at an address, if the address is a cell's and the cell is written. -/
def word? (memory : Memory) (address : Nat) : Option Word :=
  memory.cells[address]?.join.map Subtype.val

/-- Reads the word at an address. -/
def read (memory : Memory) (address : Nat) : Except Fault Word :=
  match memory.word? address with
  | some word => .ok word
  | none => .error (if address < memorySize then .unwritten address else .outOfBounds address)

/-- Puts a valid word at an address; an address beyond the last cell changes nothing. -/
def put (memory : Memory) (address : Nat) (word : ValidWord) : Memory :=
  ⟨memory.cells.setIfInBounds address (some word)⟩

/-- Writes a word to an address: first the word is checked, then the address. -/
def write (memory : Memory) (address : Nat) (word : Word) : Except Fault Memory :=
  if valid : word.isValid then
    if address < memorySize then .ok (memory.put address ⟨word, valid⟩)
    else .error (.outOfBounds address)
  else .error (.invalidWord word)

/-- Puts valid words at an address and the addresses after it. -/
def overlay (memory : Memory) (address : Nat) :
    (words : List Word) → (∀ word ∈ words, word.isValid = true) → Memory
  | [], _ => memory
  | word :: words, valid =>
    (memory.put address ⟨word, valid word List.mem_cons_self⟩).overlay (address + 1) words
      fun other member => valid other (List.mem_cons_of_mem _ member)

/-- Puts a program at address zero. Cells beyond it keep what they hold. -/
def load (memory : Memory) (program : Program) : Memory :=
  memory.overlay 0 program.words program.valid

/-- The memory that holds a program and nothing else. -/
def ofProgram (program : Program) : Memory := empty.load program

/-- Puts words at address zero, unless they are no program. -/
def loadWords (memory : Memory) (words : List Word) : Except Fault Memory :=
  memory.load <$> Program.ofWords words

/-- Why a block of words was not written. -/
inductive BlockError where
  | fault (fault : Fault)
  /-- The address after the block's last word needs more than 64 bits. -/
  | endOverflow
  deriving DecidableEq, Repr

/-- Writes words to an address and the addresses after it, all of them or none. First the end of
the block is checked, then its words. -/
def writeBlock (memory : Memory) (address : Nat) (words : List Word) : Except BlockError Memory :=
  if UInt64.size ≤ address + words.length then .error .endOverflow
  else if memorySize < address + words.length then
    .error (.fault (.outOfBounds (address + words.length - 1)))
  else
    match h : firstInvalid? words with
    | some word => .error (.fault (.invalidWord word))
    | none => .ok (memory.overlay address words (isValid_of_firstInvalid? h))

/-- The cell at an address has been written. -/
def isWritten (memory : Memory) (address : Nat) : Bool := (memory.word? address).isSome

/-- The written cells with their addresses, in address order. -/
def written (memory : Memory) : List (Nat × Word) :=
  (List.range memorySize).filterMap fun address =>
    (memory.word? address).map fun word => (address, word)

/-- The number of written cells. -/
def writtenCount (memory : Memory) : Nat := memory.written.length

/-- The written words in address order, without their addresses. Gaps close up. -/
def compact (memory : Memory) : List Word := memory.written.map Prod.snd

/-- The cells from one address to another, both included and cut off at the last cell. -/
def range (memory : Memory) (first last : Nat) : List (Nat × Option Word) :=
  (List.range' first (min last (memorySize - 1) + 1 - first)).map fun address =>
    (address, memory.word? address)

@[simp] theorem word?_empty (address : Nat) : empty.word? address = none := by
  simp only [word?, empty, Vector.getElem?_replicate]
  split <;> rfl

/-- A put is seen at its address if that is a cell's, and nowhere else. -/
theorem word?_put (memory : Memory) (address other : Nat) (word : ValidWord) :
    (memory.put address word).word? other =
      if address = other ∧ other < memorySize then some word.val else memory.word? other := by
  simp only [word?, put, memorySize, Vector.getElem?_setIfInBounds]
  by_cases here : address = other
  · subst here
    by_cases inside : address < 32768
    · simp [inside]
    · simp [inside]
  · simp [here]

/-- A word that memory holds is valid. -/
theorem isValid_of_word? {memory : Memory} {address : Nat} {word : Word}
    (h : memory.word? address = some word) : word.isValid = true := by
  simp only [word?, Option.map_eq_some_iff] at h
  obtain ⟨valid, _, rfl⟩ := h
  exact valid.property

/-- What is read is what memory holds. -/
theorem read_eq_ok_iff {memory : Memory} {address : Nat} {word : Word} :
    memory.read address = .ok word ↔ memory.word? address = some word := by
  unfold read
  cases memory.word? address <;> simp

/-- Only the addresses of cells are written. -/
theorem lt_of_word? {memory : Memory} {address : Nat} {word : Word}
    (h : memory.word? address = some word) : address < memorySize := by
  simp only [word?, Option.map_eq_some_iff, Option.join_eq_some_iff] at h
  obtain ⟨_, hcell, _⟩ := h
  exact (Vector.getElem?_eq_some_iff.1 hcell).1

/-- An overlay is seen at the addresses it covers, and nowhere else. -/
theorem word?_overlay (memory : Memory) (address : Nat) (words : List Word)
    (valid : ∀ word ∈ words, word.isValid = true) (fits : address + words.length ≤ memorySize)
    (other : Nat) :
    (memory.overlay address words valid).word? other =
      if address ≤ other ∧ other < address + words.length then words[other - address]?
      else memory.word? other := by
  induction words generalizing memory address with
  | nil => simp only [overlay, List.length_nil]; rw [if_neg (by omega)]
  | cons word words ih =>
    simp only [List.length_cons] at fits
    simp only [overlay, List.length_cons]
    rw [ih _ _ _ (by omega), word?_put]
    by_cases here : address = other
    · subst here
      rw [if_neg (by omega), if_pos ⟨rfl, by omega⟩, if_pos (by omega)]
      simp
    · by_cases covered : address + 1 ≤ other ∧ other < address + 1 + words.length
      · rw [if_pos covered, if_pos (by omega)]
        have : other - address = (other - (address + 1)) + 1 := by omega
        rw [this, List.getElem?_cons_succ]
      · rw [if_neg covered, if_neg (by omega), if_neg (by omega)]

/-- The memory of a program is the program: word by word at its addresses, unwritten elsewhere. -/
theorem word?_ofProgram (program : Program) (address : Nat) :
    (ofProgram program).word? address = program.words[address]? := by
  rw [ofProgram, load, word?_overlay _ _ _ _ (by simpa using program.fits)]
  split
  · simp
  · next h => rw [word?_empty, List.getElem?_eq_none (by omega)]

end Memory

end WordMachine
