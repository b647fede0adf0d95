import WordMachine.Proofs.Computer.Peeking
import WordMachine.Proofs.Computer.Refusing
import WordMachine.Proofs.Listing.Tiling

/-!
# What listings and machines take for an instruction

A listing looks at the words of a program: an instruction has to be complete before the words end,
and each operand has to fit its role. A machine looks at its cells, and finds out about operands
when it executes what it has fetched. `agrees_with_machine` says how far the two agree.

* What a listing takes for an instruction is what the machine decodes, with operands that fit
  (`isWellFormed_iff`).
* What a listing takes for data can not be executed. There is one exception: a listing wants to
  know the address of a branch, and leaves out a branch to an address that a register holds.
* An instruction of a listing can still fault, but its words are not the reason
  (`Refusal.blamelessFor`).
-/

namespace WordMachine

/-! ## Operands and their roles -/

namespace Instruction

/-- Results go to registers, targets are literals, and a literal that is printed is printable. -/
structure OperandsFit (instruction : Instruction) : Prop where
  destination : ∀ word, (.destination, word) ∈ instruction.operandsWithRoles →
    word.isRegister = true
  target : ∀ word, (.target, word) ∈ instruction.operandsWithRoles → word.isLiteral = true
  printed : instruction.opcode = .out → ∀ word, (.value, word) ∈ instruction.operandsWithRoles →
    word.isLiteral = true → word.isPrintable = true

/-- A branch to an address that a register holds. -/
def IsIndirectBranch (instruction : Instruction) : Prop :=
  instruction.opcode ∈ [.jmp, .jt, .jf, .call] ∧
    ∃ word, (.target, word) ∈ instruction.operandsWithRoles ∧ word.isRegister = true

/-- The words of the instruction are not the reason for a fault: there is an opcode and all of its
operands, and each of these has a meaning. An unwritten cell is the one that `rmem` reads, and what
lies beyond memory is the address that `call` would return to. -/
structure BlamelessFor (instruction : Instruction) (machine : Machine) (fault : Fault) : Prop where
  ne_invalidOpcode : ∀ word address, fault ≠ .invalidOpcode word address
  ne_notARegister : ∀ word, fault ≠ .notARegister word
  ne_invalidOperand : ∀ word, fault ≠ .invalidOperand word
  of_unwritten : ∀ address, fault = .unwritten address → instruction.opcode = .rmem ∧
    ∃ word value, (.value, word) ∈ instruction.operandsWithRoles ∧
      machine.registers.Denotes word value ∧ address = value.val
  of_outOfBounds : ∀ address, fault = .outOfBounds address →
    instruction.opcode = .call ∧ address = 32768

variable {instruction : Instruction}

/-- Among instructions of valid words, those with operands that fit are well formed. -/
theorem isWellFormed_iff (hvalid : ∀ word ∈ instruction.operands.toList, word.isValid = true) :
    instruction.isWellFormed = true ↔ instruction.OperandsFit := by
  rw [isWellFormed, List.all_eq_true]
  constructor
  · intro h
    refine ⟨fun word hword => h _ hword, fun word hword => h _ hword, ?_⟩
    intro hout word hword hliteral
    have haccepts := h _ hword
    simp only [accepts, if_pos hout, Bool.or_eq_true] at haccepts
    rcases haccepts with hregister | hprintable
    · rw [Word.not_isLiteral_of_isRegister hregister] at hliteral
      cases hliteral
    · exact hprintable
  · rintro hfit ⟨role, word⟩ hword
    have hword' := hvalid word (List.of_mem_zip hword).2
    cases role with
    | destination => exact hfit.destination word hword
    | target => exact hfit.target word hword
    | value =>
      simp only [accepts]
      split
      · next hout =>
        rcases (Word.isValid_iff word).mp hword' with hliteral | hregister
        · rw [hfit.printed hout word hword hliteral, Bool.or_true]
        · rw [hregister, Bool.true_or]
      · exact hword'

end Instruction

/-- The opcodes that take an address to jump to. -/
theorem Opcode.mem_of_target_mem_roles {opcode : Opcode} (h : .target ∈ opcode.roles) :
    opcode ∈ [.jmp, .jt, .jf, .call] := by
  revert h
  cases opcode <;> decide

/-! ## Instructions that are executed -/

namespace Effect

variable {machine : Machine} {console : Console} {next word : Word} {opcode : Opcode}
  {operands : List Word} {outcome : Outcome} {after : Computer}

/-- Where the machine does not fault, the destination is a register. -/
theorem isRegister_of_destination
    (h : Effect machine console next opcode operands outcome after)
    (hword : (.destination, word) ∈ opcode.roles.zip operands) : word.isRegister = true := by
  cases h with
  | set ha | pop ha | not ha | rmem ha | inp ha | inputExhausted ha =>
    obtain rfl : word = _ := by simpa [Opcode.roles] using hword
    exact ha.isRegister
  | compute ha hb hc hz hr =>
    obtain ⟨operation, rfl⟩ := Opcode.exists_operation hz
    have hroles : operation.opcode.roles = [.destination, .value, .value] := by
      cases operation <;> rfl
    rw [hroles] at hword
    obtain rfl : word = _ := by simpa using hword
    exact ha.isRegister
  | _ => simp [Opcode.roles] at hword

/-- Where the machine does not fault, what is printed is printable. -/
theorem isPrintable_of_out (h : Effect machine console next .out operands outcome after)
    (hword : word ∈ operands) (hliteral : word.isLiteral = true) : word.isPrintable = true := by
  cases h with
  | out ha hprintable hbyte =>
    obtain rfl := List.mem_singleton.mp hword
    rwa [ha.eq_toWord hliteral, Word.isPrintable_iff, Literal.toNat_toWord]
  | compute ha hb hc hz hr => cases hz

/-- An instruction that is executed although an operand does not fit is an indirect branch. -/
theorem isIndirectBranch {hlength : operands.length = opcode.arity}
    (h : Effect machine console next opcode operands outcome after)
    (hvalid : ∀ word ∈ operands, word.isValid = true)
    (hunfit : ¬ (Instruction.ofOperands opcode operands hlength).OperandsFit) :
    (Instruction.ofOperands opcode operands hlength).IsIndirectBranch := by
  by_contra hdirect
  refine hunfit ⟨fun word hword => h.isRegister_of_destination hword, fun word hword => ?_,
    fun hout word hword hliteral => ?_⟩
  · rcases (Word.isValid_iff word).mp (hvalid word (List.of_mem_zip hword).2) with
      hliteral | hregister
    · exact hliteral
    · have hbranch := Opcode.mem_of_target_mem_roles (List.of_mem_zip hword).1
      exact absurd ⟨hbranch, word, hword, hregister⟩ hdirect
  · obtain rfl : opcode = .out := hout
    exact h.isPrintable_of_out (List.of_mem_zip hword).2 hliteral

end Effect

/-! ## Instructions that are refused -/

/-- An instruction with operands that fit is not refused for what its words are. -/
theorem Refusal.blamelessFor {machine : Machine} {next : Word} {opcode : Opcode}
    {operands : List Word} {fault : Fault} {hlength : operands.length = opcode.arity}
    (h : Refusal machine next opcode operands fault)
    (hfit : (Instruction.ofOperands opcode operands hlength).OperandsFit)
    (hnext : next.toNat ≤ memorySize) :
    (Instruction.ofOperands opcode operands hlength).BlamelessFor machine fault := by
  cases h with
  | @notARegister _ a rest hrole ha =>
    obtain ⟨roles, hroles⟩ := List.head?_eq_some_iff.mp hrole
    have hfirst : (.destination, a) ∈ opcode.roles.zip (a :: rest) := by
      rw [hroles]
      exact List.mem_cons_self
    rw [Word.not_isLiteral_of_isRegister (hfit.destination a hfirst)] at ha
    cases ha
  | @unwritten a b r x ha hb hcell =>
    refine ⟨nofun, nofun, nofun, ?_, nofun⟩
    rintro address ⟨⟩
    exact ⟨rfl, b, x, List.mem_cons_of_mem _ List.mem_cons_self, hb, rfl⟩
  | outOfBounds ha hlast =>
    refine ⟨nofun, nofun, nofun, nofun, ?_⟩
    rintro address ⟨⟩
    exact ⟨rfl, Nat.le_antisymm hnext hlast⟩
  | _ => exact ⟨nofun, nofun, nofun, nofun, nofun⟩

/-! ## Lines and steps -/

namespace Listing

/-- The words of a program and the cells of a memory that holds it give the same instruction. -/
theorem ofWords_drop_eq_ok_iff_decodeAt {program : Program} {machine : Machine} {address : Nat}
    {instruction : Instruction} (hmemory : machine.memory = .ofProgram program)
    (haddress : address < program.words.length) :
    Instruction.ofWords address (program.words.drop address) = .ok instruction ↔
      machine.decodeAt (.ofNat address) = .ok instruction := by
  have hplace : (UInt16.ofNat address).toNat = address := by
    have hfits := program.fits
    rw [memorySize] at hfits
    rw [UInt16.toNat_ofNat', Nat.mod_eq_of_lt (by omega)]
  rw [Instruction.ofWords_drop_eq_ok_iff, Machine.decodeAt_eq_ok_iff, hplace, hmemory,
    Instruction.holds_ofProgram]

/-- A line holds what the machine decodes, if the operands fit. -/
theorem instructionAt?_drop_eq_some_iff {program : Program} {machine : Machine} {address : Nat}
    {instruction : Instruction} (hmemory : machine.memory = .ofProgram program)
    (haddress : address < program.words.length) :
    Line.instructionAt? address (program.words.drop address) = some instruction ↔
      machine.decodeAt (.ofNat address) = .ok instruction ∧ instruction.OperandsFit := by
  rw [Line.instructionAt?_eq_some_iff, ofWords_drop_eq_ok_iff_decodeAt hmemory haddress]
  exact and_congr_right fun hdecode =>
    Instruction.isWellFormed_iff (Machine.isValid_of_decodeAt hdecode)

variable {computer : Computer}

/-- A machine that executes an instruction whose operands do not fit executes an indirect branch. -/
theorem faults_or_isIndirectBranch (hrunning : computer.machine.halted = none)
    (hunfit : ∀ instruction, computer.machine.decodeAt computer.machine.pc = .ok instruction →
      ¬ instruction.OperandsFit) :
    (∃ fault, computer.step.1 = .faulted fault) ∨
      ∃ instruction, computer.machine.fetchInstruction.1 = .ok instruction ∧
        instruction.IsIndirectBranch := by
  rcases hstep : computer.step with ⟨outcome, after⟩
  by_cases hfaults : ∃ fault, outcome = .faulted fault
  · exact .inl hfaults
  · obtain ⟨opcode, operands, next, hfaces, heffect⟩ :=
      Computer.exists_effect_of_step hrunning hstep (not_exists.mp hfaults)
    have hdecode := hfaces.decodeAt_eq
    have hbranch := heffect.isIndirectBranch (Machine.isValid_of_decodeAt hdecode)
      (hunfit _ hdecode)
    rw [Machine.decodeAt_pc] at hdecode
    exact .inr ⟨_, hdecode, hbranch⟩

/-- A step that faults although the operands fit is not the fault of the instruction. -/
theorem blamelessFor_of_step {instruction : Instruction} {fault : Fault}
    (hstack : computer.machine.stack.HoldsLiterals)
    (hdecode : computer.machine.decodeAt computer.machine.pc = .ok instruction)
    (hfit : instruction.OperandsFit) (hstep : computer.step.1 = .faulted fault) :
    instruction.BlamelessFor computer.machine fault := by
  rcases Computer.refusal_of_step hstack hstep with
    hfetch | ⟨opcode, operands, next, hfaces, hrefusal⟩
  · rw [Machine.decodeAt_pc, hfetch] at hdecode
    cases hdecode
  · obtain rfl := Except.ok.inj (hdecode.symm.trans hfaces.decodeAt_eq)
    exact hrefusal.blamelessFor hfit hfaces.next_le

/-- Listings and machines agree on what is an instruction. At each address of a program a line holds
an instruction exactly if the freshly loaded machine decodes it there and its operands fit. Where a
line holds data instead, every machine with the program in memory faults, unless it faces an
indirect branch; and where a line holds an instruction, such a machine fetches it, and if it faults
the words of the instruction are not the reason. -/
theorem agrees_with_machine (program : Program) {address : Nat}
    (haddress : address < program.words.length) :
    (∀ instruction, Line.instructionAt? address (program.words.drop address) = some instruction ↔
      (Machine.start program).decodeAt (.ofNat address) = .ok instruction ∧
        instruction.OperandsFit) ∧
    ∀ computer : Computer, computer.machine.memory = .ofProgram program →
      computer.machine.pc = .ofNat address → computer.machine.halted = none →
      computer.machine.stack.HoldsLiterals →
      (Line.instructionAt? address (program.words.drop address) = none →
        (∃ fault, computer.step.1 = .faulted fault) ∨
          ∃ instruction, computer.machine.fetchInstruction.1 = .ok instruction ∧
            instruction.IsIndirectBranch) ∧
      ∀ instruction,
        Line.instructionAt? address (program.words.drop address) = some instruction →
        computer.machine.fetchInstruction.1 = .ok instruction ∧
          ∀ fault, computer.step.1 = .faulted fault →
            instruction.BlamelessFor computer.machine fault := by
  refine ⟨fun instruction => instructionAt?_drop_eq_some_iff rfl haddress, ?_⟩
  intro computer hmemory hpc hrunning hstack
  have hline (instruction : Instruction) :
      Line.instructionAt? address (program.words.drop address) = some instruction ↔
        computer.machine.decodeAt computer.machine.pc = .ok instruction ∧
          instruction.OperandsFit := by
    rw [hpc]
    exact instructionAt?_drop_eq_some_iff hmemory haddress
  refine ⟨fun hdata => ?_, fun instruction hfound => ?_⟩
  · refine faults_or_isIndirectBranch hrunning fun instruction hdecode hfit => ?_
    rw [(hline instruction).mpr ⟨hdecode, hfit⟩] at hdata
    cases hdata
  · obtain ⟨hdecode, hfit⟩ := (hline instruction).mp hfound
    rw [← Machine.decodeAt_pc]
    exact ⟨hdecode, fun fault => blamelessFor_of_step hstack hdecode hfit⟩

/-- The program `jmp r0`. -/
def jumpToRegister : Program := ⟨[6, 32768], by decide, List.all_eq_true.mp rfl⟩

/-- A line takes `jmp r0` for data, but the machine goes on: it is an indirect branch. -/
theorem agrees_with_machine_of_jumpToRegister :
    Line.instructionAt? 0 jumpToRegister.words = none ∧
      (Computer.start jumpToRegister []).step.1 = .continued ∧
      ∃ instruction, (Machine.start jumpToRegister).fetchInstruction.1 = .ok instruction ∧
        instruction.IsIndirectBranch := by
  have hdata : Line.instructionAt? 0 jumpToRegister.words = none := by decide
  have hfaces : (Machine.start jumpToRegister).Faces .jmp [32768] 2 :=
    Machine.faces_of_prefix rfl rfl (List.prefix_refl _) rfl
  have hregister : Word.Names 32768 0 := rfl
  have hjump : Effect (Machine.start jumpToRegister) (.ofInput []) 2 .jmp [32768] .continued
      ⟨Machine.start jumpToRegister, .ofInput []⟩ :=
    .jmp (x := 0) (.register hregister rfl) rfl
  have hgoes : (Computer.start jumpToRegister []).step.1 = .continued :=
    congrArg Prod.fst (Computer.step_of_effect rfl hfaces hjump)
  have hinside : 0 < jumpToRegister.words.length := by decide
  have hsteps := (agrees_with_machine jumpToRegister hinside).2
    (Computer.start jumpToRegister []) rfl rfl rfl Stack.holdsLiterals_empty
  refine ⟨hdata, hgoes, ?_⟩
  rcases hsteps.1 hdata with ⟨fault, hfault⟩ | hbranch
  · rw [hgoes] at hfault
    cases hfault
  · exact hbranch

end Listing

end WordMachine
