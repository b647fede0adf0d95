import WordMachine.Proofs.Computer.Refusing
import WordMachine.Proofs.Instruction.Breaking

/-!
# When a step faults

`Machine.Fails` is the table of faults, in the order in which they take precedence: a row is about a
machine to which none of the rows in front of it applies. First the words of the instruction are
looked for, one cell after the other, and only when all of them are there is it seen whether the
instruction is refused.

A step of a running machine faults exactly as the table says (`faults_iff_fails`). What is left over
are faults that no step comes to (`Fault.arisesInStep`): the types of registers and memory leave no
room for them.
-/

namespace WordMachine

/-- There is no word at an address, and the fault says why. -/
inductive Memory.Lacks (memory : Memory) (address : Nat) : Fault → Prop where
  | unwritten (hinside : address < 32768) (hcell : memory.word? address = none) :
      Lacks memory address (.unwritten address)
  | outOfBounds (houtside : 32768 ≤ address) : Lacks memory address (.outOfBounds address)

/-- The table of faults. -/
inductive Machine.Fails (machine : Machine) : Fault → Prop where
  | atOpcode {fault : Fault} (hcell : machine.memory.Lacks machine.pc.toNat fault) :
      Fails machine fault
  | invalidOpcode {word : Word} (hcell : machine.memory.word? machine.pc.toNat = some word)
      (hword : 22 ≤ word.toNat) : Fails machine (.invalidOpcode word machine.pc)
  /-- The first operands are there, but not the next one. -/
  | atOperand {opcode : Opcode} {operands : List Word} {fault : Fault}
      (hholds : Fetch.Holds machine.memory.read machine.pc.toNat (opcode.toWord :: operands))
      (hlength : operands.length < opcode.arity)
      (hcell : machine.memory.Lacks (machine.pc.toNat + 1 + operands.length) fault) :
      Fails machine fault
  | refused {opcode : Opcode} {operands : List Word} {next : Word} {fault : Fault}
      (hfaces : machine.Faces opcode operands next)
      (hrefusal : Refusal machine next opcode operands fault) : Fails machine fault

/-- The fault is one that executing an instruction can come to. The others are about programs and
images that are loaded, and about words that the machine never holds. -/
def Fault.arisesInStep : Fault → Bool
  | .programTooLarge _ | .invalidWord _ | .truncatedImage _ | .invalidRegister _
  | .invalidOperand _ => false
  | .notARegister _ | .notALiteral _ | .unprintable _ | .divisionByZero | .invalidOpcode ..
  | .stackUnderflow | .outOfBounds _ | .unwritten _ => true

variable {fault : Fault}

/-! ## Looking for the words -/

theorem Memory.read_eq_error_iff {memory : Memory} {address : Nat} :
    memory.read address = .error fault ↔ memory.Lacks address fault := by
  constructor
  · intro h
    unfold read at h
    split at h
    · cases h
    · next hcell =>
      split at h
      · next hinside =>
        obtain rfl := Except.error.inj h
        exact .unwritten hinside hcell
      · next houtside =>
        obtain rfl := Except.error.inj h
        exact .outOfBounds (Nat.le_of_not_lt houtside)
  · intro h
    cases h with
    | unwritten hinside hcell => rw [read, hcell, memorySize, if_pos hinside]
    | outOfBounds houtside =>
      have hcell : memory.word? address = none := by
        rw [Option.eq_none_iff_forall_ne_some]
        intro word hword
        exact Nat.not_lt_of_le houtside (lt_of_word? hword)
      rw [read, hcell, memorySize, if_neg (Nat.not_lt_of_le houtside)]

/-- An instruction can not be fetched exactly where it breaks off in memory. -/
theorem Machine.fetchInstruction_eq_error_iff {machine : Machine} :
    machine.fetchInstruction.1 = .error fault ↔
      Instruction.Breaks machine.memory.read machine.pc.toNat machine.pc fault :=
  machine.reads_fetch.decode_eq_error_iff ⟨rfl, rfl⟩

/-! ## Refused instructions -/

namespace Computer

variable {machine : Machine} {console : Console} {next : Word} {opcode : Opcode}
  {operands : List Word}

/-- Where an opcode has a destination, it is looked up before everything else. -/
theorem resolve_of_destination {a : Word} {rest : List Word}
    (hlength : (a :: rest).length = opcode.arity)
    (hrole : opcode.roles.head? = some .destination) (hliteral : a.isLiteral = true)
    (computer : Computer) :
    computer.resolve (.ofOperands opcode (a :: rest) hlength) = .error (.notARegister a) := by
  have hvalid : a.isValid = true := (Word.isValid_iff a).mpr (.inl hliteral)
  have hdestination : Operand.destination a = .error (.notARegister a) :=
    (Operand.destination_eq_error_iff hvalid).mpr ⟨hliteral, rfl⟩
  cases opcode with
  | halt | push | jmp | jt | jf | wmem | call | ret | out | noop => cases hrole
  | set | pop | eq | gt | add | mult | mod | and | or | not | rmem | inp =>
    exact bind_of_eq_error hdestination

/-- Every row of refused instructions is what resolving an instruction comes to. -/
theorem resolve_of_refusal (hlength : operands.length = opcode.arity)
    (h : Refusal machine next opcode operands fault) :
    resolve ⟨{ machine with pc := next }, console⟩ (.ofOperands opcode operands hlength) =
      .error fault := by
  cases h with
  | notARegister hrole hliteral => exact resolve_of_destination hlength hrole hliteral _
  | stackUnderflow ha hstack =>
    refine (bind_of_eq_ok (Operand.destination_eq_ok_iff.mpr ha)).trans (bind_of_eq_error ?_)
    rw [hstack]
    rfl
  | divisionByZero ha hb hc =>
    refine (bind_of_eq_ok (Operand.destination_eq_ok_iff.mpr ha)).trans ?_
    refine (bind_of_eq_ok (Registers.value_eq_ok_iff.mpr hb)).trans ?_
    refine (bind_of_eq_ok (Registers.value_eq_ok_iff.mpr hc)).trans ?_
    exact bind_of_eq_error (Operation.apply_eq_error_iff.mpr ⟨rfl, rfl, rfl⟩)
  | unwritten ha hb hcell =>
    refine (bind_of_eq_ok (Operand.destination_eq_ok_iff.mpr ha)).trans ?_
    refine (bind_of_eq_ok (Registers.value_eq_ok_iff.mpr hb)).trans ?_
    exact bind_of_eq_error (Memory.read_literal_eq_error_iff.mpr ⟨hcell, rfl⟩)
  | notALiteral ha hb hcell hword =>
    refine (bind_of_eq_ok (Operand.destination_eq_ok_iff.mpr ha)).trans ?_
    refine (bind_of_eq_ok (Registers.value_eq_ok_iff.mpr hb)).trans ?_
    refine (bind_of_eq_ok (Memory.read_eq_ok_iff.mpr hcell)).trans ?_
    exact bind_of_eq_error (Literal.ofWord_eq_error_iff.mpr ⟨hword, rfl⟩)
  | outOfBounds ha hnext =>
    refine (bind_of_eq_ok (Registers.value_eq_ok_iff.mpr ha)).trans (if_neg ?_)
    rw [Word.isLiteral_iff]
    exact Nat.not_lt_of_le hnext
  | unprintable ha hx =>
    exact (bind_of_eq_ok (Registers.value_eq_ok_iff.mpr ha)).trans (if_neg (by simp [hx]))

/-! ## Stepping -/

variable {computer : Computer}

/-- A step whose instruction is refused faults. -/
theorem step_of_refusal (hrunning : computer.machine.halted = none)
    (hfaces : computer.machine.Faces opcode operands next)
    (hrefusal : Refusal computer.machine next opcode operands fault) :
    computer.step.1 = .faulted fault := by
  obtain ⟨hlength, hfetch⟩ := Machine.faces_iff.mp hfaces
  rw [step_of_fetchInstruction hrunning hfetch
    (execute_of_resolve_eq_error (resolve_of_refusal hlength hrefusal))]

/-- A step faults exactly as the table of faults says. -/
theorem faults_iff_fails (hrunning : computer.machine.halted = none)
    (hstack : computer.machine.stack.HoldsLiterals) :
    computer.step.1 = .faulted fault ↔ computer.machine.Fails fault := by
  constructor
  · intro hstep
    rcases refusal_of_step hstack hstep with hfetch | ⟨opcode, operands, next, hfaces, hrefusal⟩
    · cases Machine.fetchInstruction_eq_error_iff.mp hfetch with
      | atOpcode hcell => exact .atOpcode (Memory.read_eq_error_iff.mp hcell)
      | invalidOpcode hcell hopcode =>
        exact .invalidOpcode (Memory.read_eq_ok_iff.mp hcell)
          (Opcode.ofWord?_eq_none_iff.mp hopcode)
      | atOperand hholds hlength hcell =>
        exact .atOperand hholds hlength (Memory.read_eq_error_iff.mp hcell)
    · exact .refused hfaces hrefusal
  · have hbreaks (h : Instruction.Breaks computer.machine.memory.read computer.machine.pc.toNat
        computer.machine.pc fault) : computer.step.1 = .faulted fault :=
      congrArg Prod.fst (step_of_fetchInstruction_eq_error hrunning
        (Prod.ext (Machine.fetchInstruction_eq_error_iff.mpr h) rfl))
    intro hfails
    cases hfails with
    | atOpcode hcell => exact hbreaks (.atOpcode (Memory.read_eq_error_iff.mpr hcell))
    | invalidOpcode hcell hword =>
      exact hbreaks (.invalidOpcode (Memory.read_eq_ok_iff.mpr hcell)
        (Opcode.ofWord?_eq_none_iff.mpr hword))
    | atOperand hholds hlength hcell =>
      exact hbreaks (.atOperand hholds hlength (Memory.read_eq_error_iff.mpr hcell))
    | refused hfaces hrefusal => exact step_of_refusal hrunning hfaces hrefusal

end Computer

/-! ## What the table leaves out -/

/-- The faults of the table are those that a step can come to. -/
theorem Machine.Fails.arisesInStep {machine : Machine} (h : machine.Fails fault) :
    fault.arisesInStep = true := by
  cases h with
  | atOpcode hcell | atOperand hholds hlength hcell => cases hcell <;> rfl
  | invalidOpcode hcell hword => rfl
  | refused hfaces hrefusal => cases hrefusal <;> rfl

/-- A machine faces one instruction. -/
theorem Machine.Faces.opcode_eq_and_next_eq {machine : Machine} {opcode opcode' : Opcode}
    {operands operands' : List Word} {next next' : Word} (h : machine.Faces opcode operands next)
    (h' : machine.Faces opcode' operands' next') : opcode' = opcode ∧ next' = next := by
  obtain ⟨-, hholds, hnext⟩ := faces_iff_holds.mp h
  obtain ⟨-, hholds', hnext'⟩ := faces_iff_holds.mp h'
  have hcell := (Fetch.holds_cons.mp hholds).1
  have hcell' := (Fetch.holds_cons.mp hholds').1
  have hword : opcode'.toWord = opcode.toWord := Except.ok.inj (hcell'.symm.trans hcell)
  obtain rfl : opcode' = opcode := Option.some.inj (by
    rw [← Opcode.ofWord?_toWord, hword, Opcode.ofWord?_toWord])
  exact ⟨rfl, UInt16.toNat.inj (hnext'.trans hnext.symm)⟩

/-- Once all words of an instruction are there, only a `call` goes beyond memory: it ends in the last
cell, and the address behind it is the one that is reported. -/
theorem Machine.Faces.of_refusal_outOfBounds {machine : Machine} {opcode : Opcode}
    {operands : List Word} {next : Word} {address : Nat} (hfaces : machine.Faces opcode operands next)
    (h : Refusal machine next opcode operands (.outOfBounds address)) :
    opcode = .call ∧ next.toNat = 32768 ∧ address = 32768 := by
  cases h with
  | outOfBounds ha hnext =>
    have hlast : next.toNat = 32768 := Nat.le_antisymm hfaces.next_le hnext
    exact ⟨rfl, hlast, hlast⟩

namespace Computer

variable {computer : Computer}

/-- Faults are exact. A step of a running machine faults exactly as the table of faults says, with
one of the faults that executing an instruction can come to. Where the words of an instruction are
all there, and it is memory that ends, the instruction is a `call` in the last cells. -/
theorem faults_exactly (hrunning : computer.machine.halted = none)
    (hstack : computer.machine.stack.HoldsLiterals) :
    (∀ fault, computer.step.1 = .faulted fault ↔ computer.machine.Fails fault) ∧
    (∀ fault, computer.step.1 = .faulted fault → fault.arisesInStep = true) ∧
    ∀ opcode operands next address, computer.machine.Faces opcode operands next →
      computer.step.1 = .faulted (.outOfBounds address) →
        opcode = .call ∧ next.toNat = 32768 ∧ address = 32768 := by
  refine ⟨fun fault => faults_iff_fails hrunning hstack, fun fault hstep => ?_, ?_⟩
  · exact ((faults_iff_fails hrunning hstack).mp hstep).arisesInStep
  · intro opcode operands next address hfaces hstep
    rcases refusal_of_step hstack hstep with hfetch | ⟨opcode', operands', next', hfaces', hrefusal⟩
    · obtain ⟨_, hfound⟩ := Machine.faces_iff.mp hfaces
      rw [hfound] at hfetch
      cases hfetch
    · obtain ⟨rfl, rfl⟩ := hfaces.opcode_eq_and_next_eq hfaces'
      exact hfaces'.of_refusal_outOfBounds hrefusal

/-- A destination comes first: `rmem 5 9` is refused for its destination, although the cell that it
would read is not written either. -/
theorem faults_exactly_of_rmem :
    (Machine.start ⟨[15, 5, 9], by decide, List.all_eq_true.mp rfl⟩).memory.word? 9 = none ∧
      (start ⟨[15, 5, 9], by decide, List.all_eq_true.mp rfl⟩ []).step.1 =
        .faulted (.notARegister 5) := by
  have hfaces : (Machine.start ⟨[15, 5, 9], by decide, List.all_eq_true.mp rfl⟩).Faces
      .rmem [5, 9] 3 :=
    Machine.faces_of_prefix rfl rfl (List.prefix_refl _) rfl
  refine ⟨Memory.word?_ofProgram _ 9, ?_⟩
  exact ((faults_exactly rfl Stack.holdsLiterals_empty).1 _).mpr
    (.refused hfaces (.notARegister rfl rfl))

end Computer

end WordMachine
