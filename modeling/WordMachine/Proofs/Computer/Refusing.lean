import WordMachine.Proofs.Computer.Executing

/-!
# Instructions that are refused

The other half of the instruction table: `Refusal` says of an instruction whose operands are valid
words when it is refused, and with which fault. Apart from a destination that is a literal it is
never the text of an instruction that is at fault, but always a number that a register, the stack or
memory holds, or the place of the instruction.

A step that faults finds no instruction at the program counter, or faces one that is refused
(`refusal_of_step`).
-/

namespace WordMachine

/-- The rows of refused instructions, in terms of the machine in front of the step and the address
behind the instruction. A literal in place of a destination comes before everything else, which is
why the other rows have a register there. -/
inductive Refusal (machine : Machine) (next : Word) : Opcode → List Word → Fault → Prop where
  | notARegister {opcode : Opcode} {a : Word} {rest : List Word}
      (hrole : opcode.roles.head? = some .destination) (ha : a.isLiteral = true) :
      Refusal machine next opcode (a :: rest) (.notARegister a)
  | stackUnderflow {a : Word} {r : Fin 8} (ha : a.Names r) (hstack : machine.stack = .empty) :
      Refusal machine next .pop [a] .stackUnderflow
  | divisionByZero {a b c : Word} {r : Fin 8} {x : Literal} (ha : a.Names r)
      (hb : machine.registers.Denotes b x) (hc : machine.registers.Denotes c 0) :
      Refusal machine next .mod [a, b, c] .divisionByZero
  | unwritten {a b : Word} {r : Fin 8} {x : Literal} (ha : a.Names r)
      (hb : machine.registers.Denotes b x) (hcell : machine.memory.word? x.val = none) :
      Refusal machine next .rmem [a, b] (.unwritten x.val)
  /-- The cell that is read holds the name of a register. -/
  | notALiteral {a b word : Word} {r : Fin 8} {x : Literal} (ha : a.Names r)
      (hb : machine.registers.Denotes b x) (hcell : machine.memory.word? x.val = some word)
      (hword : word.isLiteral = false) :
      Refusal machine next .rmem [a, b] (.notALiteral word)
  /-- No literal can stand for the address behind the instruction. -/
  | outOfBounds {a : Word} {x : Literal} (ha : machine.registers.Denotes a x)
      (hnext : 32768 ≤ next.toNat) :
      Refusal machine next .call [a] (.outOfBounds next.toNat)
  | unprintable {a : Word} {x : Literal} (ha : machine.registers.Denotes a x)
      (hx : x.toWord.isPrintable = false) :
      Refusal machine next .out [a] (.unprintable x)

/-! ## Looking up operands -/

section Operands

variable {α : Type} {registers : Registers} {word : Word} {fault : Fault}

/-- A valid word stands for a number. -/
theorem Registers.exists_denotes (registers : Registers) (hvalid : word.isValid = true) :
    ∃ value, registers.Denotes word value := by
  cases hdecode : Operand.decode word with
  | error fault =>
    rw [(Operand.decode_eq_error_iff.mp hdecode).1] at hvalid
    cases hvalid
  | ok operand =>
    refine ⟨registers.resolve operand, Registers.value_eq_ok_iff.mp ?_⟩
    rw [Registers.value, hdecode]

/-- Looking up a number never fails for a valid word, so that what fails comes behind it. -/
theorem Registers.exists_of_value_bind_eq_error {second : Literal → Except Fault α}
    (hvalid : word.isValid = true) (h : registers.value word >>= second = .error fault) :
    ∃ value, registers.Denotes word value ∧ second value = .error fault := by
  obtain ⟨value, hvalue⟩ := registers.exists_denotes hvalid
  rw [bind_of_eq_ok (Registers.value_eq_ok_iff.mpr hvalue)] at h
  exact ⟨value, hvalue, h⟩

/-- Of the valid words only literals are refused as destinations. -/
theorem Operand.destination_eq_error_iff (hvalid : word.isValid = true) :
    destination word = .error fault ↔ word.isLiteral = true ∧ fault = .notARegister word := by
  unfold destination
  cases hdecode : decode word with
  | error found =>
    rw [(decode_eq_error_iff.mp hdecode).1] at hvalid
    cases hvalid
  | ok operand =>
    obtain rfl := decode_eq_ok_iff.mp hdecode
    cases operand with
    | literal value =>
      have hliteral : (Operand.literal value).toWord.isLiteral = true := value.isLiteral_toWord
      simp [hliteral, eq_comm]
    | register index =>
      have hnames : (Operand.register index).toWord.Names index := Word.names_iff.mpr rfl
      simp [Word.not_isLiteral_of_isRegister hnames.isRegister]

/-- A destination is a literal, or it is a register and what fails comes behind it. -/
theorem Operand.cases_of_destination_bind_eq_error {second : Fin 8 → Except Fault α}
    (hvalid : word.isValid = true) (h : destination word >>= second = .error fault) :
    (word.isLiteral = true ∧ fault = .notARegister word) ∨
      ∃ register, word.Names register ∧ second register = .error fault := by
  rcases exists_of_bind_eq_error h with hfirst | ⟨register, hregister, hsecond⟩
  · exact .inl ((destination_eq_error_iff hvalid).mp hfirst)
  · exact .inr ⟨register, destination_eq_ok_iff.mp hregister, hsecond⟩

/-- Every literal is the address of a cell, so that only an unwritten cell can not be read there. -/
theorem Memory.read_literal_eq_error_iff {memory : Memory} {address : Literal} :
    memory.read address.val = .error fault ↔
      memory.word? address.val = none ∧ fault = .unwritten address.val := by
  unfold read
  rw [memorySize, if_pos address.isLt]
  cases memory.word? address.val <;> simp [eq_comm]

theorem Literal.ofWord_eq_error_iff :
    ofWord word = .error fault ↔ word.isLiteral = false ∧ fault = .notALiteral word := by
  rw [ofWord, ← ofWord?_eq_none_iff]
  cases ofWord? word <;> simp [eq_comm]

/-- Only the remainder by zero has no result. -/
theorem Operation.apply_eq_error_iff {operation : Operation} {x y : Literal} :
    operation.apply x y = .error fault ↔
      operation = .mod ∧ y = 0 ∧ fault = .divisionByZero := by
  cases operation with
  | mod =>
    rw [apply]
    split
    · next hzero => simp [hzero, eq_comm]
    · next hnonzero => simp [hnonzero]
  | _ => simp [apply]

end Operands

/-! ## Executing -/

namespace Computer

variable {machine : Machine} {console : Console} {next : Word} {opcode : Opcode}
  {operands : List Word} {fault : Fault}

/-- A binary operation is refused for its destination, or it is a remainder by zero. -/
theorem refusal_of_resolveOperation {operation : Operation} {a b c : Word}
    (hvalid : ∀ word ∈ [a, b, c], word.isValid = true)
    (h : resolveOperation ⟨{ machine with pc := next }, console⟩ operation #v[a, b, c] =
      .error fault) :
    Refusal machine next operation.opcode [a, b, c] fault := by
  have hrole : operation.opcode.roles.head? = some .destination := by cases operation <;> rfl
  obtain ⟨hvalidA, hvalidB, hvalidC⟩ : a.isValid = true ∧ b.isValid = true ∧ c.isValid = true := by
    simpa using hvalid
  rcases Operand.cases_of_destination_bind_eq_error hvalidA h with ⟨ha, rfl⟩ | ⟨r, ha, h⟩
  · exact .notARegister hrole ha
  · obtain ⟨x, hb, h⟩ := Registers.exists_of_value_bind_eq_error hvalidB h
    obtain ⟨y, hc, h⟩ := Registers.exists_of_value_bind_eq_error hvalidC h
    rcases exists_of_bind_eq_error h with happly | ⟨z, -, hpure⟩
    · obtain ⟨rfl, rfl, rfl⟩ := Operation.apply_eq_error_iff.mp happly
      exact .divisionByZero ha hb hc
    · cases hpure

/-- An instruction of valid words that can not be resolved is a row of refused instructions. -/
theorem refusal_of_resolve {hlength : operands.length = opcode.arity}
    (hvalid : ∀ word ∈ operands, word.isValid = true)
    (h : resolve ⟨{ machine with pc := next }, console⟩ (.ofOperands opcode operands hlength) =
      .error fault) :
    Refusal machine next opcode operands fault := by
  cases opcode with
  | halt | ret | noop => cases h
  | push | jmp =>
    obtain ⟨a, rfl⟩ := List.length_eq_one_iff.mp hlength
    obtain ⟨x, -, h⟩ :=
      Registers.exists_of_value_bind_eq_error (hvalid a List.mem_cons_self) h
    cases h
  | jt | jf | wmem =>
    obtain ⟨a, b, rfl⟩ := List.length_eq_two.mp hlength
    obtain ⟨x, -, h⟩ := Registers.exists_of_value_bind_eq_error (hvalid a (by simp)) h
    obtain ⟨y, -, h⟩ := Registers.exists_of_value_bind_eq_error (hvalid b (by simp)) h
    cases h
  | set | not =>
    obtain ⟨a, b, rfl⟩ := List.length_eq_two.mp hlength
    rcases Operand.cases_of_destination_bind_eq_error (hvalid a (by simp)) h with
      ⟨ha, rfl⟩ | ⟨r, -, h⟩
    · exact .notARegister rfl ha
    · obtain ⟨x, -, h⟩ := Registers.exists_of_value_bind_eq_error (hvalid b (by simp)) h
      cases h
  | eq | gt | add | mult | mod | and | or =>
    obtain ⟨a, b, c, rfl⟩ := List.length_eq_three.mp hlength
    exact refusal_of_resolveOperation hvalid h
  | pop =>
    obtain ⟨a, rfl⟩ := List.length_eq_one_iff.mp hlength
    rcases Operand.cases_of_destination_bind_eq_error (hvalid a (by simp)) h with
      ⟨ha, rfl⟩ | ⟨r, ha, h⟩
    · exact .notARegister rfl ha
    · rcases exists_of_bind_eq_error h with hpop | ⟨popped, -, hpure⟩
      · obtain ⟨hempty, rfl⟩ := Stack.pop_eq_error_iff.mp hpop
        have hstack : machine.stack = .empty :=
          congrArg Stack.mk (List.isEmpty_iff.mp hempty)
        exact .stackUnderflow ha hstack
      · cases hpure
  | rmem =>
    obtain ⟨a, b, rfl⟩ := List.length_eq_two.mp hlength
    rcases Operand.cases_of_destination_bind_eq_error (hvalid a (by simp)) h with
      ⟨ha, rfl⟩ | ⟨r, ha, h⟩
    · exact .notARegister rfl ha
    · obtain ⟨x, hb, h⟩ := Registers.exists_of_value_bind_eq_error (hvalid b (by simp)) h
      rcases exists_of_bind_eq_error h with hread | ⟨word, hread, h⟩
      · obtain ⟨hcell, rfl⟩ := Memory.read_literal_eq_error_iff.mp hread
        exact .unwritten ha hb hcell
      · rcases exists_of_bind_eq_error h with hliteral | ⟨z, -, hpure⟩
        · obtain ⟨hword, rfl⟩ := Literal.ofWord_eq_error_iff.mp hliteral
          exact .notALiteral ha hb (Memory.read_eq_ok_iff.mp hread) hword
        · cases hpure
  | call =>
    obtain ⟨a, rfl⟩ := List.length_eq_one_iff.mp hlength
    obtain ⟨x, ha, h⟩ := Registers.exists_of_value_bind_eq_error (hvalid a (by simp)) h
    split at h
    · cases h
    · next hnext =>
      obtain rfl := Except.error.inj h
      rw [Word.isLiteral_iff, Nat.not_lt] at hnext
      exact .outOfBounds ha hnext
  | out =>
    obtain ⟨a, rfl⟩ := List.length_eq_one_iff.mp hlength
    obtain ⟨x, ha, h⟩ := Registers.exists_of_value_bind_eq_error (hvalid a (by simp)) h
    split at h
    · cases h
    · next hprintable =>
      obtain rfl := Except.error.inj h
      exact .unprintable ha (Bool.eq_false_iff.mpr hprintable)
  | inp =>
    obtain ⟨a, rfl⟩ := List.length_eq_one_iff.mp hlength
    rcases Operand.cases_of_destination_bind_eq_error (hvalid a (by simp)) h with
      ⟨ha, rfl⟩ | ⟨r, -, h⟩
    · exact .notARegister rfl ha
    · cases h

end Computer

/-! ## Stepping -/

namespace Machine

variable {machine : Machine} {address next : Word} {opcode : Opcode} {operands : List Word}

/-- The operands of an instruction in memory are valid, like all words there. -/
theorem isValid_of_decodeAt {instruction : Instruction}
    (h : machine.decodeAt address = .ok instruction) :
    ∀ word ∈ instruction.operands.toList, word.isValid = true := by
  intro word hword
  obtain ⟨index, hindex⟩ := List.mem_iff_getElem?.mp hword
  have hcell := (Fetch.holds_cons.mp (decodeAt_eq_ok_iff.mp h)).2 index word hindex
  exact Memory.isValid_of_word? (Memory.read_eq_ok_iff.mp hcell)

/-- The address behind the instruction at the program counter is that of a cell, or the one behind
the last cell. -/
theorem Faces.next_le (h : machine.Faces opcode operands next) : next.toNat ≤ memorySize := by
  have hcell := (Fetch.holds_cons.mp h.holds).1
  have hlt := Memory.lt_of_read hcell
  obtain ⟨_, hfetch⟩ := faces_iff.mp h
  have hmoves := (moves_fetchInstruction machine).2 (Nat.le_of_lt hlt)
  rwa [hfetch] at hmoves

end Machine

namespace Computer

variable {computer : Computer} {fault : Fault}

/-- A step that faults finds no instruction, or faces one that is refused. -/
theorem refusal_of_step (hstack : computer.machine.stack.HoldsLiterals)
    (hstep : computer.step.1 = .faulted fault) :
    computer.machine.fetchInstruction.1 = .error fault ∨
      ∃ opcode operands next, computer.machine.Faces opcode operands next ∧
        Refusal computer.machine next opcode operands fault := by
  rcases hafter : computer.step with ⟨outcome, after⟩
  rw [hafter] at hstep
  obtain rfl : outcome = .faulted fault := hstep
  cases stepsTo_step hstack hafter with
  | faultsFetching hrunning hfetch => exact .inl (congrArg Prod.fst hfetch)
  | @faultsResolving _ fetched instruction hrunning hfetch hresolve =>
    obtain ⟨hfetched, hfaces⟩ := Machine.faces_of_fetchInstruction hfetch
    rw [hfetched] at hresolve
    have hvalid := Machine.isValid_of_decodeAt hfaces.decodeAt_eq
    exact .inr ⟨_, _, _, hfaces, refusal_of_resolve hvalid hresolve⟩

end Computer

end WordMachine
