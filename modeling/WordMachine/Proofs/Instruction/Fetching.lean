import WordMachine.Machine

/-!
# Fetching

A fetch runs through a source of words and stops at the first fault. `Fetch.HandsOut` lists the
words of calls that go through one after the other, and `Fetch.Decodes` says with which words, and
in which state of the source, decoding comes to its result: with all words of an instruction, with a
word that is no opcode, or with some words of an instruction whose next one is missing. Decoding
from any source is one of these cases, and each of the cases is decoding
(`runFrom_decode_eq_iff`).

What holds of every single word that is handed out therefore holds of decoding as a whole:
`runFrom_decode` carries a relation between the source before and after from `next` to `decode`, and
`append_of_ofWords_eq_ok` says that the instruction read from a list is what the list starts with.
-/

namespace WordMachine

variable {σ α β : Type}

/-- Only the addresses of cells are read. -/
theorem Memory.lt_of_read {memory : Memory} {address : Nat} {word : Word}
    (h : memory.read address = .ok word) : address < memorySize :=
  lt_of_word? (read_eq_ok_iff.mp h)

/-- The address behind a word that was read does not wrap around. -/
theorem Memory.toNat_add_one_of_read {memory : Memory} {address word : Word}
    (h : memory.read address.toNat = .ok word) : (address + 1).toNat = address.toNat + 1 := by
  have hlt := lt_of_read h
  rw [memorySize] at hlt
  simp only [UInt16.toNat_add, UInt16.reduceToNat]
  omega

namespace Fetch

/-- What a fetch gives when it starts in a state, and the state it leaves behind. -/
def runFrom (fetch : Fetch σ α) (before : σ) : Except Fault α × σ := fetch.run before

/-- A compound fetch goes on with its second part unless the first one faults. -/
theorem runFrom_bind (first : Fetch σ α) (second : α → Fetch σ β) (before : σ) :
    runFrom (first >>= second) before =
      match runFrom first before with
      | (.ok value, middle) => runFrom (second value) middle
      | (.error fault, middle) => (.error fault, middle) := by
  change StateT.run (first >>= second).run before = _
  rw [ExceptT.run_bind, StateT.run_bind]
  rcases hfirst : runFrom first before with ⟨fault | value, middle⟩
  all_goals
    have hrun : StateT.run first.run before = _ := hfirst
    rw [hrun]
    rfl

section Bind

variable {first : Fetch σ α} {second : α → Fetch σ β} {before after : σ} {result : β}
  {fault : Fault}

/-- A compound fetch succeeds exactly if both of its parts do, one after the other. -/
theorem runFrom_bind_eq_ok_iff :
    runFrom (first >>= second) before = (.ok result, after) ↔
      ∃ value middle, runFrom first before = (.ok value, middle) ∧
        runFrom (second value) middle = (.ok result, after) := by
  rw [runFrom_bind]
  rcases hfirst : runFrom first before with ⟨found | value, middle⟩
  · simp
  · simp [and_assoc]

/-- A compound fetch faults in its first part, or it faults in its second part behind the first. -/
theorem runFrom_bind_eq_error_iff :
    runFrom (first >>= second) before = (.error fault, after) ↔
      runFrom first before = (.error fault, after) ∨
        ∃ value middle, runFrom first before = (.ok value, middle) ∧
          runFrom (second value) middle = (.error fault, after) := by
  rw [runFrom_bind]
  rcases hfirst : runFrom first before with ⟨found | value, middle⟩
  · simp
  · simp [and_assoc]

end Bind

/-! ## Words that are handed out -/

/-- From the first state on, calls to the source go through one after the other. They hand out the
words and leave the source in the last state. -/
inductive HandsOut (next : Fetch σ Word) : σ → List Word → σ → Prop where
  | nil {state : σ} : HandsOut next state [] state
  | cons {before middle after : σ} {word : Word} {words : List Word}
      (hnext : runFrom next before = (.ok word, middle))
      (hrest : HandsOut next middle words after) : HandsOut next before (word :: words) after

variable {next : Fetch σ Word} {before after : σ} {words words' : List Word} {fault : Fault}

theorem handsOut_nil_iff : HandsOut next before [] after ↔ before = after := by
  constructor
  · intro h
    cases h
    rfl
  · rintro rfl
    exact .nil

theorem handsOut_cons_iff {word : Word} :
    HandsOut next before (word :: words) after ↔
      ∃ middle, runFrom next before = (.ok word, middle) ∧ HandsOut next middle words after := by
  constructor
  · intro h
    cases h with
    | cons hnext hrest => exact ⟨_, hnext, hrest⟩
  · rintro ⟨middle, hnext, hrest⟩
    exact .cons hnext hrest

theorem handsOut_singleton_iff {word : Word} :
    HandsOut next before [word] after ↔ runFrom next before = (.ok word, after) := by
  simp [handsOut_cons_iff, handsOut_nil_iff]

/-- What is handed out in two parts is handed out part by part. -/
theorem handsOut_append_iff :
    HandsOut next before (words ++ words') after ↔
      ∃ middle, HandsOut next before words middle ∧ HandsOut next middle words' after := by
  induction words generalizing before with
  | nil => simp [handsOut_nil_iff]
  | cons word words ih =>
    rw [List.cons_append, handsOut_cons_iff]
    simp only [ih, handsOut_cons_iff]
    constructor
    · rintro ⟨middle, hnext, last, hwords, hwords'⟩
      exact ⟨last, ⟨middle, hnext, hwords⟩, hwords'⟩
    · rintro ⟨last, ⟨middle, hnext, hwords⟩, hwords'⟩
      exact ⟨middle, hnext, last, hwords, hwords'⟩

/-- A number of words is fetched as the source hands them out. -/
theorem runFrom_fetchWords_eq_ok_iff {count : Nat} {fetched : Vector Word count} :
    runFrom (Instruction.fetchWords next count) before = (.ok fetched, after) ↔
      HandsOut next before fetched.toList after := by
  induction count generalizing after with
  | zero =>
    obtain rfl := fetched.eq_empty
    constructor
    · intro h
      obtain ⟨-, rfl⟩ := Prod.mk.inj h
      exact .nil
    · intro h
      obtain rfl := handsOut_nil_iff.mp h
      rfl
  | succ count ih =>
    obtain ⟨front, word, rfl⟩ := fetched.exists_push
    change runFrom (Instruction.fetchWords next count >>= fun front => next >>= _) before = _ ↔ _
    rw [runFrom_bind_eq_ok_iff, Vector.toList_push, handsOut_append_iff]
    constructor
    · rintro ⟨front', middle, hfront, hlast⟩
      obtain ⟨word', last, hnext, hpure⟩ := runFrom_bind_eq_ok_iff.mp hlast
      obtain ⟨hfetched, rfl⟩ := Prod.mk.inj hpure
      obtain ⟨rfl, rfl⟩ := Vector.push_eq_push.mp (Except.ok.inj hfetched)
      exact ⟨middle, ih.mp hfront, handsOut_singleton_iff.mpr hnext⟩
    · rintro ⟨middle, hfront, hlast⟩
      refine ⟨front, middle, ih.mpr hfront, runFrom_bind_eq_ok_iff.mpr ⟨word, after, ?_, rfl⟩⟩
      exact handsOut_singleton_iff.mp hlast

/-- Fetching a number of words faults at the first one that is not handed out. -/
theorem runFrom_fetchWords_eq_error_iff {count : Nat} :
    runFrom (Instruction.fetchWords next count) before = (.error fault, after) ↔
      ∃ words middle, words.length < count ∧ HandsOut next before words middle ∧
        runFrom next middle = (.error fault, after) := by
  induction count with
  | zero => exact iff_of_false nofun fun ⟨_, _, hlength, _⟩ => absurd hlength (Nat.not_lt_zero _)
  | succ count ih =>
    change runFrom (Instruction.fetchWords next count >>= fun front => next >>= _) before = _ ↔ _
    rw [runFrom_bind_eq_error_iff, ih]
    constructor
    · rintro (⟨words, middle, hlength, hrest⟩ | ⟨front, middle, hfront, hlast⟩)
      · exact ⟨words, middle, Nat.lt_succ_of_lt hlength, hrest⟩
      · rcases runFrom_bind_eq_error_iff.mp hlast with hnext | ⟨_, _, -, hpure⟩
        · refine ⟨front.toList, middle, ?_, runFrom_fetchWords_eq_ok_iff.mp hfront, hnext⟩
          rw [Vector.length_toList]
          exact Nat.lt_succ_self count
        · cases hpure
    · rintro ⟨words, middle, hlength, hread, hnext⟩
      rcases Nat.lt_succ_iff_lt_or_eq.mp hlength with hlength | rfl
      · exact .inl ⟨words, middle, hlength, hread, hnext⟩
      · -- All words in front are there, so that they are fetched, and the last one is missing.
        let front : Vector Word words.length := ⟨words.toArray, rfl⟩
        have hfront : HandsOut next before front.toList middle := hread
        refine .inr ⟨front, middle, runFrom_fetchWords_eq_ok_iff.mpr hfront, ?_⟩
        exact runFrom_bind_eq_error_iff.mpr (.inl hnext)

/-! ## Decoding -/

/-- What decoding the instruction at an address comes to: the words that are read on the way, the
result, and the state of the source behind it. -/
inductive Decodes (next : Fetch σ Word) (address : Word) (before : σ) :
    List Word → Except Fault Instruction → σ → Prop where
  | complete {instruction : Instruction} {after : σ}
      (hread : HandsOut next before instruction.toWords after) :
      Decodes next address before instruction.toWords (.ok instruction) after
  | invalidOpcode {word : Word} {after : σ} (hread : HandsOut next before [word] after)
      (hopcode : Opcode.ofWord? word = none) :
      Decodes next address before [word] (.error (.invalidOpcode word address)) after
  | atOpcode {fault : Fault} {after : σ} (hnext : runFrom next before = (.error fault, after)) :
      Decodes next address before [] (.error fault) after
  /-- The opcode and some operands are there, but not the next one. -/
  | atOperand {opcode : Opcode} {operands : List Word} {middle after : σ} {fault : Fault}
      (hread : HandsOut next before (opcode.toWord :: operands) middle)
      (hlength : operands.length < opcode.arity)
      (hnext : runFrom next middle = (.error fault, after)) :
      Decodes next address before (opcode.toWord :: operands) (.error fault) after

/-- Decoding from a source succeeds exactly if the source hands out the words of the instruction. -/
theorem runFrom_decode_eq_ok_iff {address : Word} {instruction : Instruction} :
    runFrom (Instruction.decode next address) before = (.ok instruction, after) ↔
      HandsOut next before instruction.toWords after := by
  change runFrom (next >>= _) before = _ ↔ HandsOut next before (_ :: _) after
  rw [runFrom_bind_eq_ok_iff, handsOut_cons_iff]
  constructor
  · rintro ⟨word, middle, hnext, hrest⟩
    cases hopcode : Opcode.ofWord? word with
    | none =>
      rw [hopcode] at hrest
      cases hrest
    | some opcode =>
      rw [hopcode] at hrest
      obtain ⟨operands, last, hoperands, hpure⟩ := runFrom_bind_eq_ok_iff.mp hrest
      obtain ⟨hinstruction, rfl⟩ := Prod.mk.inj hpure
      obtain rfl := Except.ok.inj hinstruction
      obtain rfl := Opcode.ofWord?_eq_some_iff.mp hopcode
      exact ⟨middle, hnext, runFrom_fetchWords_eq_ok_iff.mp hoperands⟩
  · rintro ⟨middle, hnext, hoperands⟩
    refine ⟨_, middle, hnext, ?_⟩
    rw [Opcode.ofWord?_toWord]
    refine runFrom_bind_eq_ok_iff.mpr ⟨instruction.operands, after, ?_, rfl⟩
    exact runFrom_fetchWords_eq_ok_iff.mpr hoperands

/-- Decoding from a source faults exactly if the first word is missing, if it is no opcode, or if
one of the operands is missing. -/
theorem runFrom_decode_eq_error_iff {address : Word} :
    runFrom (Instruction.decode next address) before = (.error fault, after) ↔
      ∃ read, Decodes next address before read (.error fault) after := by
  change runFrom (next >>= _) before = _ ↔ _
  rw [runFrom_bind_eq_error_iff]
  constructor
  · rintro (hnext | ⟨word, middle, hnext, hrest⟩)
    · exact ⟨[], .atOpcode hnext⟩
    · cases hopcode : Opcode.ofWord? word with
      | none =>
        rw [hopcode] at hrest
        obtain ⟨hfault, rfl⟩ := Prod.mk.inj hrest
        obtain rfl := Except.error.inj hfault
        exact ⟨[word], .invalidOpcode (handsOut_singleton_iff.mpr hnext) hopcode⟩
      | some opcode =>
        rw [hopcode] at hrest
        obtain rfl := Opcode.ofWord?_eq_some_iff.mp hopcode
        rcases runFrom_bind_eq_error_iff.mp hrest with hoperands | ⟨_, _, -, hpure⟩
        · obtain ⟨operands, last, hlength, hread, hmissing⟩ :=
            runFrom_fetchWords_eq_error_iff.mp hoperands
          exact ⟨_, .atOperand (.cons hnext hread) hlength hmissing⟩
        · cases hpure
  · rintro ⟨read, hdecodes⟩
    cases hdecodes with
    | atOpcode hnext => exact .inl hnext
    | @invalidOpcode word _ hread hopcode =>
      refine .inr ⟨word, after, handsOut_singleton_iff.mp hread, ?_⟩
      rw [hopcode]
      rfl
    | @atOperand opcode operands last _ _ hread hlength hmissing =>
      obtain ⟨middle, hnext, hoperands⟩ := handsOut_cons_iff.mp hread
      refine .inr ⟨opcode.toWord, middle, hnext, ?_⟩
      rw [Opcode.ofWord?_toWord]
      refine runFrom_bind_eq_error_iff.mpr (.inl ?_)
      exact runFrom_fetchWords_eq_error_iff.mpr ⟨operands, last, hlength, hoperands, hmissing⟩

/-- Decoding from any source is one of the cases, and each case is decoding. -/
theorem runFrom_decode_eq_iff {address : Word} {found : Except Fault Instruction} :
    runFrom (Instruction.decode next address) before = (found, after) ↔
      ∃ read, Decodes next address before read found after := by
  cases found with
  | error fault => exact runFrom_decode_eq_error_iff
  | ok instruction =>
    rw [runFrom_decode_eq_ok_iff]
    constructor
    · exact fun hread => ⟨_, .complete hread⟩
    · rintro ⟨read, hdecodes⟩
      cases hdecodes with
      | complete hread => exact hread

end Fetch

namespace Instruction

open Fetch

/-! ## What fetching leaves behind -/

section Preserves

variable {R : σ → σ → Prop} (hrefl : ∀ x, R x x) (htrans : ∀ x y z, R x y → R y z → R x z)
  {next : Fetch σ Word} (hnext : ∀ before, R before (runFrom next before).2)

include hrefl htrans hnext

/-- A relation that holds across every single word holds across any number of them. -/
theorem preserves_of_handsOut {before after : σ} {words : List Word}
    (h : HandsOut next before words after) : R before after := by
  induction h with
  | nil => exact hrefl _
  | @cons before middle after word words hword hrest ih =>
    have hfirst := hnext before
    rw [hword] at hfirst
    exact htrans _ _ _ hfirst ih

/-- A relation that holds across every single word holds across decoding. -/
theorem runFrom_decode (address : Word) (before : σ) :
    R before (runFrom (decode next address) before).2 := by
  rcases hrun : runFrom (decode next address) before with ⟨found, after⟩
  obtain ⟨read, hdecodes⟩ := runFrom_decode_eq_iff.mp hrun
  have hmissing : ∀ {middle fault}, runFrom next middle = (.error fault, after) →
      R middle after := by
    intro middle fault hfault
    have hlast := hnext middle
    rwa [hfault] at hlast
  cases hdecodes with
  | complete hread => exact preserves_of_handsOut hrefl htrans hnext hread
  | invalidOpcode hread => exact preserves_of_handsOut hrefl htrans hnext hread
  | atOpcode hfault => exact hmissing hfault
  | atOperand hread hlength hfault =>
    exact htrans _ _ _ (preserves_of_handsOut hrefl htrans hnext hread) (hmissing hfault)

end Preserves

/-! ## Reading from a list -/

/-- Words that a list hands out stand at its start, and what is left stands behind them. -/
theorem rest_of_handsOut {reading after : Reading} {words : List Word}
    (h : HandsOut Reading.next reading words after) : reading.rest = words ++ after.rest := by
  induction h with
  | nil => rfl
  | @cons reading middle after word words hnext hrest ih =>
    obtain ⟨address, rest⟩ := reading
    cases rest with
    | nil => cases hnext
    | cons first rest =>
      obtain ⟨hword, rfl⟩ := Prod.mk.inj hnext
      obtain rfl := Except.ok.inj hword
      exact congrArg (first :: ·) ih

/-- The instruction that is read from a list is what the list starts with. -/
theorem append_of_ofWords_eq_ok {address : Nat} {words : List Word} {instruction : Instruction}
    (h : ofWords address words = .ok instruction) : ∃ rest, words = instruction.toWords ++ rest := by
  obtain ⟨after, hdecode⟩ : ∃ after, runFrom (decode Reading.next (UInt16.ofNat address))
      ⟨address, words⟩ = (.ok instruction, after) := ⟨_, Prod.ext h rfl⟩
  exact ⟨after.rest, rest_of_handsOut (runFrom_decode_eq_ok_iff.mp hdecode)⟩

end Instruction

/-! ## Reading from memory -/

/-- A machine hands out the word at its program counter and moves the counter past it. -/
theorem Machine.runFrom_fetch (machine : Machine) :
    Fetch.runFrom fetch machine =
      match machine.memory.read machine.pc.toNat with
      | .ok word => (.ok word, { machine with pc := machine.pc + 1 })
      | .error fault => (.error fault, machine) :=
  rfl

end WordMachine
