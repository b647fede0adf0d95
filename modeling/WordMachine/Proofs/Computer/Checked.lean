import WordMachine.Proofs.Computer.Resolving
import WordMachine.Proofs.Instruction.Fetching

/-!
# Execution with checked arithmetic

Execution once more, with every addition, conversion and index checked: the answer is `none` where
sixteen bits are too few for a program counter or a sum, where a character is no byte, or where an
address is not that of a cell. `stepChecked_eq` says that this never happens, whatever the state of
the computer, and that the checked step is otherwise the step.
-/

namespace WordMachine

/-! ## Checked operations -/

/-- The sum of two words, if it is a word. -/
def Word.addChecked (x y : Word) : Option Word :=
  if x.toNat + y.toNat < UInt16.size then some (UInt16.ofNat (x.toNat + y.toNat)) else none

/-- The word as a byte, if it is one. -/
def Word.toByteChecked (word : Word) : Option UInt8 :=
  if word.toNat < UInt8.size then some (UInt8.ofNat word.toNat) else none

/-- The result of an operation, unless its numbers do not fit on the way: a sum has to fit into
sixteen bits and a product into thirty-two before the remainder is taken. -/
def Operation.applyChecked : Operation → Literal → Literal → Option (Except Fault Literal)
  | .add, x, y =>
    (x.toWord.addChecked y.toWord).map fun sum => .ok (Fin.ofNat 32768 sum.toNat)
  | .mult, x, y =>
    if x.val * y.val < UInt32.size then some (.ok (Fin.ofNat 32768 (x.val * y.val))) else none
  | operation, x, y => some (operation.apply x y)

theorem Word.addChecked_one {word : Word} (h : word.toNat < memorySize) :
    word.addChecked 1 = some (word + 1) := by
  have hfits : word.toNat + (1 : Word).toNat < UInt16.size := by
    rw [memorySize] at h
    change word.toNat + 1 < 65536
    omega
  rw [addChecked, if_pos hfits, UInt16.ofNat_add, UInt16.ofNat_toNat]
  rfl

/-- A printable character is a byte. -/
theorem Word.toByteChecked_of_isPrintable {word : Word} (h : word.isPrintable = true) :
    word.toByteChecked = some word.toUInt8 := by
  have hfits : word.toNat < UInt8.size := Nat.lt_trans (lt_of_isPrintable h) (by decide)
  exact if_pos hfits

/-- Sums of literals are words, and products fit easily. -/
theorem Operation.applyChecked_eq (operation : Operation) (x y : Literal) :
    operation.applyChecked x y = some (operation.apply x y) := by
  cases operation with
  | add =>
    have hsum : (UInt16.ofNat (x.val + y.val)).toNat = x.val + y.val := by
      rw [UInt16.toNat_ofNat']
      omega
    have hfits : x.val + y.val < UInt16.size := by
      change x.val + y.val < 65536
      omega
    rw [applyChecked, Word.addChecked, Literal.toNat_toWord, Literal.toNat_toWord, if_pos hfits,
      Option.map_some, hsum]
    rfl
  | mult =>
    have hfits : x.val * y.val < UInt32.size := by
      have hle : x.val * y.val ≤ 32767 * 32767 := Nat.mul_le_mul (by omega) (by omega)
      change x.val * y.val < 4294967296
      omega
    rw [applyChecked, if_pos hfits]
    rfl
  | eq | gt | mod | and | or => rfl

/-! ## Checked fetching -/

/-- A fetch that can break off. -/
abbrev CheckedFetch (σ : Type) := ExceptT Fault (StateT σ Option)

namespace CheckedFetch

variable {σ α β : Type}

/-- From the states that satisfy `P` the checked fetch does what the fetch does and does not break
off, and where it succeeds it ends in such a state again. -/
def Agrees (P : σ → Prop) (checked : CheckedFetch σ α) (fetch : Fetch σ α) : Prop :=
  ∀ before, P before → checked.run.run before = some (fetch.runFrom before) ∧
    ∀ value after, fetch.runFrom before = (.ok value, after) → P after

variable {P : σ → Prop}

theorem agrees_pure (value : α) : Agrees P (pure value : CheckedFetch σ α) (pure value) := by
  intro before hbefore
  refine ⟨rfl, fun _ after hafter => ?_⟩
  obtain ⟨-, rfl⟩ := Prod.mk.inj hafter
  exact hbefore

theorem agrees_throw (fault : Fault) :
    Agrees P (throw fault : CheckedFetch σ α) (throw fault) :=
  fun _ _ => ⟨rfl, fun _ _ hafter => nomatch hafter⟩

/-- Where both parts of a compound fetch agree, the whole does. -/
theorem Agrees.bind {checked : CheckedFetch σ α} {fetch : Fetch σ α}
    {checkedNext : α → CheckedFetch σ β} {fetchNext : α → Fetch σ β} (h : Agrees P checked fetch)
    (hnext : ∀ value, Agrees P (checkedNext value) (fetchNext value)) :
    Agrees P (checked >>= checkedNext) (fetch >>= fetchNext) := by
  intro before hbefore
  obtain ⟨hrun, hkeep⟩ := h before hbefore
  rw [ExceptT.run_bind, StateT.run_bind, hrun, Fetch.runFrom_bind]
  rcases hfirst : fetch.runFrom before with ⟨fault | value, middle⟩
  · exact ⟨rfl, fun _ _ hafter => nomatch hafter⟩
  · exact hnext value middle (hkeep value middle hfirst)

variable {checked : CheckedFetch σ Word} {next : Fetch σ Word} (h : Agrees P checked next)

include h

theorem agrees_fetchWords (count : Nat) :
    Agrees P (Instruction.fetchWords checked count) (Instruction.fetchWords next count) := by
  induction count with
  | zero => exact agrees_pure _
  | succ count ih => exact ih.bind fun words => h.bind fun word => agrees_pure _

/-- Decoding agrees if handing out single words does. -/
theorem agrees_decode (address : Word) :
    Agrees P (Instruction.decode checked address) (Instruction.decode next address) := by
  refine h.bind fun word => ?_
  cases Opcode.ofWord? word with
  | none => exact agrees_throw _
  | some opcode => exact (agrees_fetchWords h opcode.arity).bind fun operands => agrees_pure _

end CheckedFetch

namespace Machine

/-- Reads the word at the program counter and moves the counter past it. -/
def fetchChecked : CheckedFetch Machine Word := fun machine =>
  match machine.memory.read machine.pc.toNat with
  | .ok word => (machine.pc.addChecked 1).map fun pc => (.ok word, { machine with pc })
  | .error fault => some (.error fault, machine)

/-- Decodes the instruction at the program counter and moves the counter past the words read. -/
def fetchInstructionChecked (machine : Machine) : Option (Except Fault Instruction × Machine) :=
  (Instruction.decode fetchChecked machine.pc).run.run machine

/-- Reads the word at a cursor of sixty-four bits and moves the cursor past it. -/
def peekChecked (memory : Memory) : CheckedFetch Nat Word := fun cursor =>
  if cursor + 1 < UInt64.size then some (memory.read cursor, cursor + 1) else none

/-- Decodes the instruction at an address without moving the program counter. -/
def decodeAtChecked (machine : Machine) (address : Word) : Option (Except Fault Instruction) :=
  ((Instruction.decode (peekChecked machine.memory) address).run.run address.toNat).map Prod.fst

/-- A program counter that a word was fetched from can move on. -/
theorem agrees_fetchChecked : CheckedFetch.Agrees (fun _ => True) fetchChecked fetch := by
  intro machine _
  refine ⟨?_, fun _ _ _ => trivial⟩
  have hchecked : fetchChecked.run.run machine =
      match machine.memory.read machine.pc.toNat with
      | .ok word => (machine.pc.addChecked 1).map fun pc => (.ok word, { machine with pc })
      | .error fault => some (.error fault, machine) := rfl
  rw [hchecked, runFrom_fetch]
  cases hread : machine.memory.read machine.pc.toNat with
  | error fault => rfl
  | ok word =>
    have hlt := Memory.lt_of_read hread
    simp only [Word.addChecked_one hlt, Option.map_some]

theorem fetchInstructionChecked_eq (machine : Machine) :
    machine.fetchInstructionChecked = some machine.fetchInstruction :=
  (CheckedFetch.agrees_decode agrees_fetchChecked machine.pc machine trivial).1

/-- A cursor starts at a word, and behind every word that was read it is in memory again. -/
theorem agrees_peekChecked (memory : Memory) :
    CheckedFetch.Agrees (fun cursor => cursor < UInt16.size) (peekChecked memory)
      (peek memory) := by
  intro cursor hcursor
  constructor
  · refine if_pos ?_
    change cursor < 65536 at hcursor
    change cursor + 1 < 18446744073709551616
    omega
  · intro word after hafter
    obtain ⟨hread, rfl⟩ := Prod.mk.inj hafter
    have hlt := Memory.lt_of_read hread
    rw [memorySize] at hlt
    change cursor + 1 < 65536
    omega

theorem decodeAtChecked_eq (machine : Machine) (address : Word) :
    machine.decodeAtChecked address = some (machine.decodeAt address) := by
  have hagrees := CheckedFetch.agrees_decode (agrees_peekChecked machine.memory) address
    address.toNat address.toNat_lt
  rw [decodeAtChecked, hagrees.1]
  rfl

end Machine

/-! ## Checked execution -/

/-- Makes an action happen. -/
def Action.performChecked (computer : Computer) : Action → Option (Outcome × Computer)
  | .compute operation register x y _ =>
    (operation.applyChecked x y).map fun
      | .ok result => (.continued, computer.assign register result)
      | .error fault => (.faulted fault, computer)
  | .store address value =>
    if address.val < memorySize then some (.continued, computer.store address.val value.toValid)
    else none
  | .print value => value.toWord.toByteChecked.map fun byte => (.continued, computer.print byte)
  | action => some (action.perform computer)

/-- Making an action happen that an instruction resolved to goes through. -/
theorem Action.performChecked_eq {computer : Computer} {action : Action}
    (hfits : action.Fits computer) :
    action.performChecked computer = some (action.perform computer) := by
  cases action with
  | compute operation register x y result =>
    have happly : operation.apply x y = .ok result := hfits
    rw [performChecked, Operation.applyChecked_eq, happly]
    rfl
  | store address value => exact if_pos address.isLt
  | print value =>
    rw [performChecked, Word.toByteChecked_of_isPrintable hfits]
    rfl
  | _ => rfl

namespace Computer

/-- Executes an instruction that has already been fetched. -/
def executeChecked (computer : Computer) (instruction : Instruction) :
    Option (Outcome × Computer) :=
  match computer.resolve instruction with
  | .ok action => action.performChecked computer
  | .error fault => some (.faulted fault, computer)

/-- Executes the instruction at the program counter. -/
def stepChecked (computer : Computer) : Option (Outcome × Computer) :=
  match computer.machine.halted with
  | some halt => some (.halted halt, computer)
  | none =>
    computer.machine.fetchInstructionChecked.bind fun
      | (.error fault, machine) =>
        some (.faulted fault, ⟨{ machine with pc := computer.machine.pc }, computer.console⟩)
      | (.ok instruction, machine) =>
        (executeChecked ⟨machine, computer.console⟩ instruction).map fun
          | (.continued, after) => (.continued, after)
          | (.halted reason, after) => (.halted reason, after.halt computer.machine.pc reason)
          | (.faulted fault, after) => (.faulted fault, after.goTo computer.machine.pc)

theorem executeChecked_eq (computer : Computer) (instruction : Instruction) :
    computer.executeChecked instruction = some (computer.execute instruction) := by
  unfold executeChecked execute
  cases hresolve : computer.resolve instruction with
  | error fault => rfl
  | ok action => exact Action.performChecked_eq (fits_resolve hresolve)

/-- A step goes through in every state. -/
theorem stepChecked_eq (computer : Computer) : computer.stepChecked = some computer.step := by
  unfold stepChecked step
  cases hhalted : computer.machine.halted with
  | some halt => rfl
  | none =>
    rw [Machine.fetchInstructionChecked_eq]
    rcases computer.machine.fetchInstruction with ⟨fault | instruction, machine⟩
    · rfl
    · dsimp only [Option.bind_some]
      rw [executeChecked_eq]
      rcases execute ⟨machine, computer.console⟩ instruction with
        ⟨_ | reason | fault, after⟩ <;> rfl

end Computer

end WordMachine
