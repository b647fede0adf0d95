import WordMachine.Proofs.Memory.Viewing

/-!
# Memory with checked arithmetic

The calls that change memory once more, carried out in place: each answers with a fault or not, and
memory is what it has become in either case. Cells are overwritten one after the other, addresses
are added and subtracted in sixty-four bits, and every cell that is looked up has to exist; the
answer is `none` if one of these checks fails.

A load, a write and a range always go through, and a call that ends in a fault has changed nothing.
A block goes through unless its end needs more than sixty-four bits (`writeBlockChecked_eq`).
-/

namespace WordMachine

/-- The sum of two addresses, if it fits into sixty-four bits. -/
def Memory.sumChecked (x y : Nat) : Option Nat := if x + y < UInt64.size then some (x + y) else none

/-- The difference of two addresses, if the second is not the larger one. -/
def Memory.differenceChecked (x y : Nat) : Option Nat := if y ≤ x then some (x - y) else none

namespace Memory

/-- Looks at a cell, which has to exist. -/
def cellChecked (memory : Memory) (address : Nat) : Option (Option Word) :=
  if inside : address < memory.cells.size then some (memory.cells[address].map Subtype.val)
  else none

/-- Overwrites a cell, which has to exist, with a word that it can hold. -/
def storeChecked (memory : Memory) (address : Nat) (word : Word) : Option Memory :=
  if valid : word.isValid = true then
    if inside : address < memory.cells.size then
      some ⟨memory.cells.set address (some ⟨word, valid⟩) inside⟩
    else none
  else none

/-- Overwrites the cells from an address on, one after the other. -/
def storeEachChecked (memory : Memory) (address : Nat) : List Word → Option Memory
  | [] => some memory
  | word :: words => do
    let after ← memory.storeChecked address word
    after.storeEachChecked (address + 1) words

/-- Puts words at address zero. -/
def loadChecked (memory : Memory) (words : List Word) : Option (Except Fault Unit × Memory) :=
  if memory.cells.size < words.length then
    some (.error (.programTooLarge words.length), memory)
  else
    match firstInvalid? words with
    | some word => some (.error (.invalidWord word), memory)
    | none => do return (.ok (), ← memory.storeEachChecked 0 words)

/-- Puts a word at an address. -/
def writeChecked (memory : Memory) (address : Nat) (word : Word) :
    Option (Except Fault Unit × Memory) :=
  if word.isValid then
    if address < memory.cells.size then do return (.ok (), ← memory.storeChecked address word)
    else some (.error (.outOfBounds address), memory)
  else some (.error (.invalidWord word), memory)

/-- Puts words at an address and those after it. The cells are cut out of memory first. -/
def writeBlockChecked (memory : Memory) (address : Nat) (words : List Word) :
    Option (Except Fault Unit × Memory) := do
  let past ← sumChecked address words.length
  if memory.cells.size < past then
    let last ← differenceChecked past 1
    return (.error (.outOfBounds last), memory)
  else
    match firstInvalid? words with
    | some word => return (.error (.invalidWord word), memory)
    | none =>
      let count ← differenceChecked past address
      return (.ok (), ← memory.storeEachChecked address (words.take count))

/-- The cells from one address to another, cut off at the last cell. -/
def rangeChecked (memory : Memory) (first last : Nat) : Option (List (Nat × Option Word)) := do
  let last := min last (← differenceChecked memory.cells.size 1)
  (List.range' first (last + 1 - first)).mapM fun address => do
    return (address, ← memory.cellChecked address)

/-- What a call answers and the memory behind it: the one that it gives, or else the one before. -/
def settled (memory : Memory) : Except Fault Memory → Except Fault Unit × Memory
  | .ok after => (.ok (), after)
  | .error fault => (.error fault, memory)

variable {memory : Memory} {address first last : Nat} {word : Word} {words : List Word}

/-! ## Cells -/

/-- A cell that exists shows its word. -/
theorem cellChecked_eq (h : address < memorySize) :
    memory.cellChecked address = some (memory.word? address) := by
  have inside : address < memory.cells.size := h
  rw [cellChecked, dif_pos inside, word?, Vector.getElem?_eq_getElem inside, Option.join_some]

/-- A cell that exists takes a valid word. -/
theorem storeChecked_eq (valid : word.isValid = true) (h : address < memorySize) :
    memory.storeChecked address word = some (memory.put address ⟨word, valid⟩) := by
  have inside : address < memory.cells.size := h
  rw [storeChecked, dif_pos valid, dif_pos inside, put]
  congr 2
  apply Vector.ext
  intro index hindex
  rw [Vector.getElem_set, Vector.getElem_setIfInBounds]

/-- Cells that exist take valid words. -/
theorem storeEachChecked_eq (valid : ∀ word ∈ words, word.isValid = true)
    (h : address + words.length ≤ memorySize) :
    memory.storeEachChecked address words = some (memory.overlay address words valid) := by
  induction words generalizing memory address with
  | nil => rfl
  | cons word words ih =>
    rw [List.length_cons] at h
    rw [storeEachChecked, storeChecked_eq (valid word List.mem_cons_self) (by omega),
      Option.bind_eq_bind, Option.bind_some, ih _ (by omega), overlay]

/-- Where every item has an answer, the items have answers. -/
theorem mapM_eq_some_map {α β : Type} {items : List α} {ask : α → Option β} {answer : α → β}
    (h : ∀ item ∈ items, ask item = some (answer item)) :
    items.mapM ask = some (items.map answer) := by
  induction items with
  | nil => rfl
  | cons item items ih =>
    rw [List.mapM_cons, h item List.mem_cons_self,
      ih fun other hother => h other (List.mem_cons_of_mem item hother)]
    rfl

/-! ## Calls -/

/-- A load goes through. -/
theorem loadChecked_eq (memory : Memory) (words : List Word) :
    memory.loadChecked words = some (memory.settled (memory.loadWords words)) := by
  rw [loadChecked, loadWords]
  by_cases large : memory.cells.size < words.length
  · have hlarge := Program.ofWords_eq_error_iff.mpr (.inl ⟨large, rfl⟩)
    rw [if_pos large, hlarge]
    rfl
  · have fits := Nat.le_of_not_lt large
    rw [if_neg large]
    split
    · next word hword =>
      have hinvalid := Program.ofWords_eq_error_iff.mpr (.inr ⟨fits, word, hword, rfl⟩)
      rw [hinvalid]
      rfl
    · next hvalid =>
      have valid := isValid_of_firstInvalid? hvalid
      have hprogram : Program.ofWords words = .ok ⟨words, fits, valid⟩ :=
        Program.ofWords_eq_ok_iff.mpr rfl
      rw [hprogram, storeEachChecked_eq valid (by rw [Nat.zero_add]; exact fits)]
      rfl

/-- A write goes through. -/
theorem writeChecked_eq (memory : Memory) (address : Nat) (word : Word) :
    memory.writeChecked address word = some (memory.settled (memory.write address word)) := by
  rw [writeChecked, write]
  by_cases valid : word.isValid = true
  · rw [if_pos valid, dif_pos valid]
    by_cases inside : address < memory.cells.size
    · have hput : address < memorySize := inside
      rw [if_pos inside, if_pos hput, storeChecked_eq valid hput]
      rfl
    · have hout : ¬ address < memorySize := inside
      rw [if_neg inside, if_neg hout]
      rfl
  · rw [if_neg valid, dif_neg valid]
    rfl

/-- What writing a block can come to. -/
inductive WritesBlockTo (memory : Memory) (address : Nat) (words : List Word) :
    Except BlockError Memory → Prop where
  | overflows (hsum : UInt64.size ≤ address + words.length) :
      WritesBlockTo memory address words (.error .endOverflow)
  | leaves (hsum : address + words.length < UInt64.size)
      (hpast : memorySize < address + words.length) :
      WritesBlockTo memory address words
        (.error (.fault (.outOfBounds (address + words.length - 1))))
  | rejects {word : Word} (fits : address + words.length ≤ memorySize)
      (hword : firstInvalid? words = some word) :
      WritesBlockTo memory address words (.error (.fault (.invalidWord word)))
  | writes (fits : address + words.length ≤ memorySize)
      (valid : ∀ word ∈ words, word.isValid = true) :
      WritesBlockTo memory address words (.ok (memory.overlay address words valid))

/-- Writing a block comes to one of the cases. -/
theorem writesBlockTo_writeBlock (memory : Memory) (address : Nat) (words : List Word) :
    memory.WritesBlockTo address words (memory.writeBlock address words) := by
  unfold writeBlock
  split
  · next hsum => exact .overflows hsum
  · next hsum =>
    split
    · next hpast => exact .leaves (Nat.lt_of_not_le hsum) hpast
    · next hpast =>
      have fits := Nat.le_of_not_lt hpast
      split
      · next word hword => exact .rejects fits hword
      · next hvalid => exact .writes fits (isValid_of_firstInvalid? hvalid)

/-- A block that lies in memory ends well below the limit of sixty-four bits. -/
theorem sumChecked_of_le (fits : address + words.length ≤ memorySize) :
    sumChecked address words.length = some (address + words.length) :=
  if_pos (Nat.lt_of_le_of_lt fits (by decide))

/-- A block goes through unless its end needs more than sixty-four bits. -/
theorem writeBlockChecked_eq (memory : Memory) (address : Nat) (words : List Word) :
    memory.writeBlockChecked address words =
      match memory.writeBlock address words with
      | .ok after => some (.ok (), after)
      | .error (.fault fault) => some (.error fault, memory)
      | .error .endOverflow => none := by
  have hresult := memory.writesBlockTo_writeBlock address words
  generalize memory.writeBlock address words = result at hresult ⊢
  rw [writeBlockChecked]
  cases hresult with
  | overflows hsum =>
    rw [sumChecked, if_neg (Nat.not_lt_of_le hsum)]
    rfl
  | leaves hsum hpast =>
    have hend : memory.cells.size < address + words.length := hpast
    have hlast : differenceChecked (address + words.length) 1 =
        some (address + words.length - 1) := if_pos (Nat.zero_lt_of_lt hpast)
    rw [sumChecked, if_pos hsum, Option.bind_eq_bind, Option.bind_some, if_pos hend, hlast]
    rfl
  | rejects fits hword =>
    have hend : ¬ memory.cells.size < address + words.length := Nat.not_lt_of_le fits
    rw [sumChecked_of_le fits, Option.bind_eq_bind, Option.bind_some, if_neg hend, hword]
    rfl
  | writes fits valid =>
    have hend : ¬ memory.cells.size < address + words.length := Nat.not_lt_of_le fits
    have hcount : differenceChecked (address + words.length) address = some words.length := by
      rw [differenceChecked, if_pos (Nat.le_add_right _ _), Nat.add_sub_cancel_left]
    rw [sumChecked_of_le fits, Option.bind_eq_bind, Option.bind_some, if_neg hend,
      firstInvalid?_eq_none_iff.mpr valid]
    simp only [hcount, Option.bind_some, List.take_length, storeEachChecked_eq valid fits]
    rfl

/-- Every cell of a range exists. -/
theorem rangeChecked_eq (memory : Memory) (first last : Nat) :
    memory.rangeChecked first last = some (memory.range first last) := by
  rw [rangeChecked, range]
  have hlast : differenceChecked memory.cells.size 1 = some (memorySize - 1) := rfl
  rw [hlast, Option.bind_eq_bind, Option.bind_some]
  refine mapM_eq_some_map fun address haddress => ?_
  have inside : address < memorySize := by
    rw [List.mem_range'_1, memorySize] at haddress
    rw [memorySize]
    omega
  rw [cellChecked_eq inside]
  rfl

end Memory

end WordMachine
