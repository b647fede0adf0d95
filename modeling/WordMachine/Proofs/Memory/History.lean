import Mathlib.Data.List.Induction
import WordMachine.Proofs.Memory.Checked

/-!
# Memory as a partial map

Loads and writes, in any order and whether they succeed or not, make memory a partial map of the
addresses below `32768`: each address goes to the word that the last of them to succeed has stored
there (`lastWord?`). `Shows` lists what can be seen of memory, and all of it is this map
(`shows_word?`, `word?_behind`).

Whether a call succeeds can be told from the call alone (`Call.fault?`), whatever memory holds. A
load does not clear the cells behind the words that it puts at address zero.
-/

namespace WordMachine.Memory

/-- A call that changes memory. -/
inductive Call where
  | load (words : List Word)
  | write (address : Nat) (word : Word)
  deriving DecidableEq, Repr

namespace Call

/-- What a call makes of memory. -/
def result (memory : Memory) : Call → Except Fault Memory
  | load words => memory.loadWords words
  | write address word => memory.write address word

/-- The call carried out in place, with every cell looked up. -/
def resultChecked (memory : Memory) : Call → Option (Except Fault Unit × Memory)
  | load words => memory.loadChecked words
  | write address word => memory.writeChecked address word

/-- Why a call fails, if it does. A load is looked at for its size and then for its first word that
is not valid, a write for its word and then for its address. -/
def fault? : Call → Option Fault
  | load words =>
    if 32768 < words.length then some (.programTooLarge words.length)
    else (words.find? fun word => 32776 ≤ word.toNat).map .invalidWord
  | write address word =>
    if 32776 ≤ word.toNat then some (.invalidWord word)
    else if 32768 ≤ address then some (.outOfBounds address)
    else none

/-- The word that a call is to store at an address, if it covers the address. -/
def word? (address : Nat) : Call → Option Word
  | load words => words[address]?
  | write target word => if address = target then some word else none

end Call

/-- Memory behind calls, the first of which finds it empty. A call that fails gives no memory, so
that the one before it stays. -/
def behind (calls : List Call) : Memory :=
  calls.foldl (fun memory call => (memory.settled (call.result memory)).2) empty

/-- The word that the last of the calls to succeed at an address has stored there. -/
def lastWord? (calls : List Call) (address : Nat) : Option Word :=
  (calls.reverse.filter fun call => call.fault?.isNone).findSome? (Call.word? address)

/-- Memory is a partial map, whichever way it is looked at. -/
structure Shows (memory : Memory) (words : Nat → Option Word) : Prop where
  read : ∀ address, memory.read address =
    match words address with
    | some word => .ok word
    | none => .error (if address < 32768 then .unwritten address else .outOfBounds address)
  bounded : ∀ address word, words address = some word → address < 32768
  isWritten : ∀ address, memory.isWritten address = (words address).isSome
  mem_written : ∀ address word, (address, word) ∈ memory.written ↔ words address = some word
  pairwise_written : memory.written.Pairwise fun first second => first.1 < second.1
  compact : memory.compact = (List.range 32768).filterMap words
  mem_range : ∀ first last address cell, (address, cell) ∈ memory.range first last ↔
    first ≤ address ∧ address ≤ min last 32767 ∧ cell = words address
  pairwise_range : ∀ first last,
    (memory.range first last).Pairwise fun cell next => cell.1 < next.1
  range_eq_nil : ∀ first last, memory.range first last = [] ↔ min last 32767 < first
  rangeChecked : ∀ first last, memory.rangeChecked first last = some (memory.range first last)

variable {memory : Memory} {calls : List Call} {call : Call} {address : Nat}

/-! ## One call -/

/-- A word is not valid if it lies behind the last register. -/
theorem firstInvalid?_eq_find? (words : List Word) :
    firstInvalid? words = words.find? fun word => 32776 ≤ word.toNat := by
  rw [firstInvalid?]
  congr 1
  funext word
  rw [Bool.eq_iff_iff, Bool.not_eq_true', ← Bool.not_eq_true, Word.isValid_iff_le,
    decide_eq_true_eq]
  omega

/-- Loading fails for the size of the program and then for its first word that is not valid. -/
theorem loadWords_of_fault? {words : List Word} {fault : Fault}
    (h : (Call.load words).fault? = some fault) : memory.loadWords words = .error fault := by
  have hrefused : Program.ofWords words = .error fault := by
    rw [Program.ofWords_eq_error_iff, memorySize, firstInvalid?_eq_find?]
    rw [Call.fault?] at h
    split at h
    · next large => exact .inl ⟨large, (Option.some.inj h).symm⟩
    · next fits =>
      obtain ⟨word, hword, hfault⟩ := Option.map_eq_some_iff.mp h
      exact .inr ⟨Nat.le_of_not_lt fits, word, hword, hfault.symm⟩
  rw [loadWords, hrefused]
  rfl

/-- A program that is loaded is seen from address zero on, and the cells behind it are seen as
before. -/
theorem loadWords_of_fault?_eq_none {words : List Word} (h : (Call.load words).fault? = none) :
    ∃ after, memory.loadWords words = .ok after ∧
      ∀ address, after.word? address = words[address]?.or (memory.word? address) := by
  rw [Call.fault?] at h
  split at h
  · cases h
  · next fits =>
    have fits := Nat.le_of_not_lt fits
    rw [Option.map_eq_none_iff, ← firstInvalid?_eq_find?] at h
    have valid := isValid_of_firstInvalid? h
    have hprogram : Program.ofWords words = .ok ⟨words, fits, valid⟩ :=
      Program.ofWords_eq_ok_iff.mpr rfl
    refine ⟨memory.load ⟨words, fits, valid⟩, by rw [loadWords, hprogram]; rfl, fun address => ?_⟩
    rw [load, word?_overlay _ _ _ _ (by rw [Nat.zero_add]; exact fits), Nat.zero_add, Nat.sub_zero]
    by_cases covered : address < words.length
    · rw [if_pos ⟨Nat.zero_le address, covered⟩, List.getElem?_eq_getElem covered, Option.some_or]
    · rw [if_neg fun h => covered h.2, List.getElem?_eq_none (Nat.le_of_not_lt covered),
        Option.none_or]

/-- A write fails for its word and then for its address. -/
theorem write_of_fault? {word : Word} {fault : Fault}
    (h : (Call.write address word).fault? = some fault) :
    memory.write address word = .error fault := by
  rw [Call.fault?] at h
  rw [write]
  split at h
  · next hword =>
    have invalid : ¬ word.isValid = true := by
      rw [Word.isValid_iff_le]
      omega
    rw [dif_neg invalid, Option.some.inj h]
  · next hword =>
    have valid : word.isValid = true := by
      rw [Word.isValid_iff_le]
      omega
    rw [dif_pos valid]
    split at h
    · next houtside =>
      have outside : ¬ address < memorySize := Nat.not_lt_of_le houtside
      rw [if_neg outside, Option.some.inj h]
    · cases h

/-- A word that is written is seen at its address, and the other cells are seen as before. -/
theorem write_of_fault?_eq_none {word : Word} (h : (Call.write address word).fault? = none) :
    ∃ after, memory.write address word = .ok after ∧
      ∀ seen, after.word? seen =
        (if seen = address then some word else none).or (memory.word? seen) := by
  rw [Call.fault?] at h
  split at h
  · cases h
  · next hword =>
    split at h
    · cases h
    · next hinside =>
      have valid : word.isValid = true := by
        rw [Word.isValid_iff_le]
        omega
      have inside : address < memorySize := Nat.lt_of_not_le hinside
      refine ⟨memory.put address ⟨word, valid⟩, by rw [write, dif_pos valid, if_pos inside], ?_⟩
      intro seen
      rw [word?_put]
      by_cases hseen : seen = address
      · rw [if_pos ⟨hseen.symm, hseen ▸ inside⟩, if_pos hseen, Option.some_or]
      · rw [if_neg fun h => hseen h.1.symm, if_neg hseen, Option.none_or]

/-- A call that fails does so whatever memory holds. -/
theorem result_of_fault? {fault : Fault} (h : call.fault? = some fault) (memory : Memory) :
    call.result memory = .error fault := by
  cases call with
  | load words => exact loadWords_of_fault? h
  | write address word => exact write_of_fault? h

/-- A call that does not fail stores its words and leaves all others. -/
theorem result_of_fault?_eq_none (h : call.fault? = none) (memory : Memory) :
    ∃ after, call.result memory = .ok after ∧
      ∀ address, after.word? address = (call.word? address).or (memory.word? address) := by
  cases call with
  | load words => exact loadWords_of_fault?_eq_none h
  | write address word => exact write_of_fault?_eq_none h

/-- Carrying a call out in place settles what it makes of memory. -/
theorem resultChecked_eq (call : Call) (memory : Memory) :
    call.resultChecked memory = some (memory.settled (call.result memory)) := by
  cases call with
  | load words => exact memory.loadChecked_eq words
  | write address word => exact memory.writeChecked_eq address word

/-! ## Calls in a row -/

theorem behind_append (calls : List Call) (call : Call) :
    behind (calls ++ [call]) = ((behind calls).settled (call.result (behind calls))).2 := by
  rw [behind, List.foldl_append]
  rfl

/-- Behind a call that fails memory is as it was. -/
theorem behind_append_of_fault? {fault : Fault} (h : call.fault? = some fault)
    (calls : List Call) : behind (calls ++ [call]) = behind calls := by
  rw [behind_append, result_of_fault? h]
  rfl

theorem lastWord?_append_of_fault? {fault : Fault} (h : call.fault? = some fault)
    (calls : List Call) (address : Nat) :
    lastWord? (calls ++ [call]) address = lastWord? calls address := by
  rw [lastWord?, List.reverse_append, List.reverse_singleton, List.singleton_append,
    List.filter_cons_of_neg (by simp [h])]
  rfl

theorem lastWord?_append_of_fault?_eq_none (h : call.fault? = none) (calls : List Call)
    (address : Nat) :
    lastWord? (calls ++ [call]) address = (call.word? address).or (lastWord? calls address) := by
  rw [lastWord?, List.reverse_append, List.reverse_singleton, List.singleton_append,
    List.filter_cons_of_pos (by simp [h]), List.findSome?_cons]
  cases call.word? address <;> rfl

/-- Memory holds at each address the word that was stored there last. -/
theorem word?_behind (calls : List Call) (address : Nat) :
    (behind calls).word? address = lastWord? calls address := by
  -- From the end: the last call to succeed decides at the addresses that it covers.
  induction calls using List.reverseRecOn with
  | nil => exact word?_empty address
  | append_singleton calls call ih =>
    cases hfault : call.fault? with
    | some fault => rw [behind_append_of_fault? hfault, lastWord?_append_of_fault? hfault, ih]
    | none =>
      obtain ⟨after, hafter, hwords⟩ := result_of_fault?_eq_none hfault (behind calls)
      rw [behind_append, hafter, lastWord?_append_of_fault?_eq_none hfault, ← ih]
      exact hwords address

/-- Whatever is seen of memory is the map of its words. -/
theorem shows_word? (memory : Memory) : memory.Shows memory.word? where
  read _ := rfl
  bounded _ _ hword := lt_of_word? hword
  isWritten _ := rfl
  mem_written _ _ := mem_written_iff
  pairwise_written := memory.pairwise_written
  compact := memory.compact_eq
  mem_range _ _ _ _ := mem_range_iff
  pairwise_range := memory.pairwise_range
  range_eq_nil _ _ := range_eq_nil_iff
  rangeChecked := memory.rangeChecked_eq

/-- Behind any loads and writes memory is the partial map that takes each address to the word stored
there last. A further call fails exactly if it has a fault of its own, and memory then stays as it
is; otherwise it gives the memory behind the longer list of calls. Carried out in place it does the
same, and looks up no cell that is not there. -/
theorem refines_partial_map (calls : List Call) :
    (behind calls).Shows (lastWord? calls) ∧
      ∀ call : Call,
        (∀ fault, call.fault? = some fault →
          call.result (behind calls) = .error fault ∧
            call.resultChecked (behind calls) = some (.error fault, behind calls) ∧
            behind (calls ++ [call]) = behind calls) ∧
        (call.fault? = none →
          call.result (behind calls) = .ok (behind (calls ++ [call])) ∧
            call.resultChecked (behind calls) = some (.ok (), behind (calls ++ [call]))) := by
  have hwords : (behind calls).word? = lastWord? calls := funext (word?_behind calls)
  refine ⟨hwords ▸ shows_word? (behind calls), fun call => ⟨?_, ?_⟩⟩
  · intro fault hfault
    have hresult := result_of_fault? hfault (behind calls)
    refine ⟨hresult, ?_, behind_append_of_fault? hfault calls⟩
    rw [resultChecked_eq, hresult]
    rfl
  · intro hfault
    obtain ⟨after, hafter, -⟩ := result_of_fault?_eq_none hfault (behind calls)
    have hbehind : behind (calls ++ [call]) = after := by
      rw [behind_append, hafter]
      rfl
    rw [resultChecked_eq, hafter, hbehind]
    exact ⟨rfl, rfl⟩

end WordMachine.Memory
