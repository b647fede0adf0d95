import WordMachine.Proofs.Computer.Refusing
import WordMachine.Proofs.Instruction.Fetching
import WordMachine.Proofs.Session.Restoring
import WordMachine.Proofs.Snapshot.Applying

/-!
# Snapshots that a machine takes

Every snapshot is read from its file as it was written, but a machine takes only those that are
valid: the program counter lies in memory or behind its last cell, and registers and stack hold
literals. `Snapshot.fault?` looks for what is wrong with a snapshot, and the fault that applying
comes to is what it finds first (`faultOf?_apply`).

A snapshot goes into a machine that exists already, part by part. `Snapshot.applyInPlace` carries
this out on the machine itself, where a fault keeps what was changed before it. All checks stand in
front of the first change, so that nothing of the kind happens (`runFrom_applyInPlace`).
-/

namespace WordMachine

/-! ## Checks -/

section Checks

variable {α β : Type}

/-- The fault that a check comes to, if it comes to one. -/
def faultOf? : Except Fault α → Option Fault
  | .ok _ => none
  | .error fault => some fault

theorem faultOf?_eq_none_iff {check : Except Fault α} :
    faultOf? check = none ↔ ∃ value, check = .ok value := by
  cases check with
  | ok value => exact iff_of_true rfl ⟨value, rfl⟩
  | error fault => exact iff_of_false nofun nofun

/-- Of two checks in a row the first one that comes to a fault decides, if the first one has no
influence on the second. -/
theorem faultOf?_bind {first : Except Fault α} {second : α → Except Fault β} {fault? : Option Fault}
    (h : ∀ value, faultOf? (second value) = fault?) :
    faultOf? (first >>= second) = (faultOf? first).or fault? := by
  cases first with
  | ok value => exact h value
  | error fault => rfl

/-- Whatever is made of what was checked, it is refused if the check refuses it. -/
theorem faultOf?_bind_pure (check : Except Fault α) (f : α → β) :
    faultOf? (check >>= fun value => pure (f value)) = faultOf? check := by
  cases check <;> rfl

end Checks

/-- The first word that is no literal. -/
def firstNonLiteral? (words : List Word) : Option Word := words.find? fun word => !word.isLiteral

theorem firstNonLiteral?_eq_none_iff {words : List Word} :
    firstNonLiteral? words = none ↔ ∀ word ∈ words, word.toNat ≤ 32767 := by
  rw [firstNonLiteral?, List.find?_eq_none]
  refine forall₂_congr fun word _ => ?_
  rw [Bool.not_eq_true', Bool.not_eq_false, Word.isLiteral_iff, Nat.lt_succ_iff]

/-- A word is refused as a literal if it is none. -/
theorem Literal.faultOf?_ofWord (word : Word) :
    faultOf? (ofWord word) = if word.isLiteral then none else some (.notALiteral word) := by
  cases hliteral : word.isLiteral with
  | false =>
    rw [ofWord_eq_error_iff.mpr ⟨hliteral, rfl⟩]
    rfl
  | true =>
    obtain ⟨value, hvalue⟩ := exists_of_isLiteral hliteral
    rw [hvalue]
    rfl

/-- Words are refused as literals for the first one that is none. -/
theorem Literal.faultOf?_mapM_ofWord (words : List Word) :
    faultOf? (words.mapM ofWord) = (firstNonLiteral? words).map .notALiteral := by
  induction words with
  | nil => rfl
  | cons word words ih =>
    -- What the first word is taken for has no part in what is wrong with the others.
    have hrest (value : Literal) : faultOf? (do
        let values ← words.mapM ofWord
        return value :: values) = (firstNonLiteral? words).map .notALiteral :=
      (faultOf?_bind_pure _ _).trans ih
    rw [List.mapM_cons, faultOf?_bind hrest, faultOf?_ofWord, firstNonLiteral?, firstNonLiteral?,
      List.find?_cons]
    cases word.isLiteral <;> rfl

/-- Registers are refused for the first of their words that is no literal. -/
theorem Registers.faultOf?_ofWords (words : Vector Word 8) :
    faultOf? (ofWords words) = (firstNonLiteral? words.toList).map .notALiteral := by
  rw [← Literal.faultOf?_mapM_ofWord, ← toList_mapM, ofWords]
  cases words.mapM Literal.ofWord <;> rfl

/-- A stack is refused for the lowest of its words that is no literal. -/
theorem Stack.faultOf?_ofList (words : List Word) :
    faultOf? (ofList words) = (firstNonLiteral? words).map .notALiteral := by
  rw [ofList, firstNonLiteral?]
  cases words.find? fun word => !word.isLiteral <;> rfl

namespace Snapshot

/-! ## Snapshots -/

/-- Program counter, registers and stack are those of a machine. -/
structure IsValid (snapshot : Snapshot) : Prop where
  pc_le : snapshot.pc.toNat ≤ 32768
  registers_le : ∀ word ∈ snapshot.registers, word.toNat ≤ 32767
  stack_le : ∀ word ∈ snapshot.stack, word.toNat ≤ 32767

/-- What is wrong with a snapshot: the program counter, or else the first word that is no literal,
where the registers come before the stack. -/
def fault? (snapshot : Snapshot) : Option Fault :=
  if snapshot.pc.isPc then
    (firstNonLiteral? (snapshot.registers.toList ++ snapshot.stack)).map .notALiteral
  else some (.outOfBounds snapshot.pc.toNat)

variable {snapshot : Snapshot} {machine after : Machine}

/-- Nothing is wrong with a snapshot exactly if it is valid. -/
theorem fault?_eq_none_iff : snapshot.fault? = none ↔ snapshot.IsValid := by
  have hwords : (firstNonLiteral? (snapshot.registers.toList ++ snapshot.stack)).map
      Fault.notALiteral = none ↔ (∀ word ∈ snapshot.registers, word.toNat ≤ 32767) ∧
        ∀ word ∈ snapshot.stack, word.toNat ≤ 32767 := by
    rw [Option.map_eq_none_iff, firstNonLiteral?_eq_none_iff, List.forall_mem_append]
    simp only [Vector.mem_toList_iff]
  unfold fault?
  split
  · next hpc =>
    rw [hwords]
    exact ⟨fun h => ⟨(Word.isPc_iff _).mp hpc, h.1, h.2⟩, fun h => ⟨h.registers_le, h.stack_le⟩⟩
  · next hpc => exact iff_of_false nofun fun h => hpc ((Word.isPc_iff _).mpr h.pc_le)

/-- A machine refuses a snapshot for what is wrong with it, and takes it otherwise. -/
theorem faultOf?_apply (snapshot : Snapshot) (machine : Machine) :
    faultOf? (snapshot.apply machine) = snapshot.fault? := by
  unfold apply fault?
  split
  · have hstack (registers : Registers) : faultOf? (do
        let stack ← Stack.ofList snapshot.stack
        return { machine with pc := snapshot.pc, registers, stack }) =
          (firstNonLiteral? snapshot.stack).map .notALiteral :=
      (faultOf?_bind_pure _ _).trans (Stack.faultOf?_ofList _)
    rw [faultOf?_bind hstack, Registers.faultOf?_ofWords, firstNonLiteral?, firstNonLiteral?,
      firstNonLiteral?, List.find?_append, Option.map_or]
  · rfl

example : (⟨3, #v[1, 2, 3, 4, 5, 6, 7, 8], [1, 32770]⟩ : Snapshot).fault? =
    some (.notALiteral 32770) := by
  decide

/-- A machine takes a snapshot exactly if it is valid. -/
theorem exists_apply_eq_ok_iff : (∃ after, snapshot.apply machine = .ok after) ↔ snapshot.IsValid := by
  rw [← faultOf?_eq_none_iff, faultOf?_apply, fault?_eq_none_iff]

/-- A machine that has taken a snapshot holds what the snapshot does, and its memory and halted
state are as before. -/
theorem of_apply (h : snapshot.apply machine = .ok after) :
    capture after = snapshot ∧ after.memory = machine.memory ∧ after.halted = machine.halted := by
  obtain ⟨-, registers, stack, hregisters, hstack, -, rfl⟩ := apply_eq_ok_iff.mp h
  obtain ⟨pc, words, list⟩ := snapshot
  obtain rfl : words = registers.toWords := hregisters
  obtain rfl : list = stack.toList := hstack
  exact ⟨rfl, rfl, rfl⟩

/-! ## Applying in place -/

/-- Puts a snapshot into a machine in place. Program counter, registers and stack are checked, and
then replaced one after the other. -/
def applyInPlace (snapshot : Snapshot) : Fetch Machine Unit := do
  if !snapshot.pc.isPc then throw (.outOfBounds snapshot.pc.toNat)
  let registers ← ofExcept (Registers.ofWords snapshot.registers)
  let stack ← ofExcept (Stack.ofList snapshot.stack)
  modify fun machine => { machine with pc := snapshot.pc }
  modify fun machine => { machine with registers }
  modify fun machine => { machine with stack }

/-- In place a machine becomes the one that applying gives, and stays as it is if there is a
fault. -/
theorem runFrom_applyInPlace (snapshot : Snapshot) (machine : Machine) :
    Fetch.runFrom snapshot.applyInPlace machine =
      match snapshot.apply machine with
      | .ok after => (.ok (), after)
      | .error fault => (.error fault, machine) := by
  unfold applyInPlace apply
  cases snapshot.pc.isPc with
  | false => rfl
  | true =>
    cases Registers.ofWords snapshot.registers with
    | error fault => rfl
    | ok registers =>
      -- Behind this last check nothing can fault, and the three changes add up to one.
      cases Stack.ofList snapshot.stack with
      | error fault => rfl
      | ok stack => rfl

/-- Snapshots survive their files, and are checked exactly. A snapshot of any words is written to
every path that leads to a file, and is read from there again. A machine takes it if and only if it
is valid; it then holds what the snapshot does, with memory and halted state as before, and carried
out in place the machine has become the one that is given. If the machine does not take it, it is
left as it was. -/
theorem survives_file_and_is_checked (snapshot : Snapshot) :
    (∀ (host : Host) (folder : Folder) (path name : String), host.locate path = .ok name →
      ∃ after, folder.write path snapshot.toBytes host = .ok after ∧
        Session.loadSnapshot host after path = .ok snapshot) ∧
    ∀ machine : Machine,
      ((∃ after, snapshot.apply machine = .ok after) ↔ snapshot.IsValid) ∧
      (∀ after, snapshot.apply machine = .ok after →
        (capture after = snapshot ∧ after.memory = machine.memory ∧
          after.halted = machine.halted) ∧
        Fetch.runFrom snapshot.applyInPlace machine = (.ok (), after)) ∧
      ∀ fault, snapshot.apply machine = .error fault →
        Fetch.runFrom snapshot.applyInPlace machine = (.error fault, machine) := by
  refine ⟨fun host folder path name hname => ?_, fun machine => ⟨exists_apply_eq_ok_iff, ?_, ?_⟩⟩
  · have hwrite : folder.write path snapshot.toBytes host =
        .ok (folder.put name snapshot.toBytes) :=
      Folder.write_eq_ok_iff.mpr ⟨name, hname, rfl⟩
    exact ⟨_, hwrite, Session.loadSnapshot_of_read (Folder.read_write hwrite)⟩
  · intro after happly
    refine ⟨of_apply happly, ?_⟩
    rw [runFrom_applyInPlace, happly]
  · intro fault happly
    rw [runFrom_applyInPlace, happly]

end Snapshot

end WordMachine
