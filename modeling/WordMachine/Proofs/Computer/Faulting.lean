import WordMachine.Proofs.Computer.Facing
import WordMachine.Proofs.Computer.Resolving

/-!
# Steps that do not go through

Fetching moves the program counter and nothing else (`moves_fetchInstruction`), and an instruction
that does not continue changes nothing (`execute_eq_self`), as long as the stack holds literals
only. A step puts the program counter back, so that a fault leaves no trace
(`step_faulted_eq_self`).

The condition on the stack is needed: popping a word that is no literal takes it off the stack
before it turns out that no register can hold it.
-/

namespace WordMachine

/-- Every word of the stack is a literal. -/
def Stack.HoldsLiterals (stack : Stack) : Prop := ∀ word ∈ stack.words, word.isLiteral = true

namespace Stack

variable {stack : Stack}

theorem holdsLiterals_empty : empty.HoldsLiterals := fun _ h => absurd h List.not_mem_nil

/-- The top of a stack of literals is a literal. -/
theorem HoldsLiterals.top (h : stack.HoldsLiterals) {word : Word} (htop : stack.top? = some word) :
    word.isLiteral = true :=
  h word (List.mem_of_head? htop)

theorem HoldsLiterals.push (h : stack.HoldsLiterals) {word : Word} (hword : word.isLiteral = true) :
    (stack.push word).HoldsLiterals :=
  List.forall_mem_cons.mpr ⟨hword, h⟩

theorem HoldsLiterals.below (h : stack.HoldsLiterals) : stack.below.HoldsLiterals :=
  fun word hword => h word (List.mem_of_mem_tail hword)

/-- A stack built from a list holds literals. -/
theorem holdsLiterals_of_ofList {words : List Word} (h : ofList words = .ok stack) :
    stack.HoldsLiterals := by
  obtain ⟨hview, hliteral⟩ := ofList_eq_ok_iff.mp h
  intro word hword
  refine hliteral word ?_
  rw [← hview, toList, List.mem_reverse]
  exact hword

end Stack

/-- A literal is accepted as one. -/
theorem Literal.exists_of_isLiteral {word : Word} (h : word.isLiteral = true) :
    ∃ value, Literal.ofWord word = .ok value := by
  cases hvalue : Literal.ofWord? word with
  | none =>
    rw [Literal.ofWord?_eq_none_iff.mp hvalue] at h
    cases h
  | some value => exact ⟨value, by rw [Literal.ofWord, hvalue]⟩

/-! ## Fetching -/

namespace Machine

/-- The two machines differ in their program counters at most, and the second one has not left
memory unless the first one had. -/
def Moves (before after : Machine) : Prop :=
  { after with pc := before.pc } = before ∧
    (before.pc.toNat ≤ memorySize → after.pc.toNat ≤ memorySize)

theorem Moves.refl (machine : Machine) : Moves machine machine := ⟨rfl, id⟩

theorem Moves.trans (first second third : Machine) (h : Moves first second)
    (h' : Moves second third) : Moves first third := by
  obtain ⟨hrest, hpc⟩ := h
  obtain ⟨hrest', hpc'⟩ := h'
  refine ⟨?_, hpc' ∘ hpc⟩
  rw [← hrest, ← hrest']

/-- A word is fetched from a cell, so that the program counter comes to stand on the next cell or
behind the last one. -/
theorem moves_fetch (machine : Machine) : Moves machine (Fetch.runFrom fetch machine).2 := by
  rw [runFrom_fetch]
  cases hread : machine.memory.read machine.pc.toNat with
  | error fault => exact .refl machine
  | ok word =>
    refine ⟨rfl, fun _ => ?_⟩
    rw [Memory.toNat_add_one_of_read hread]
    exact Memory.lt_of_read hread

/-- Fetching an instruction moves the program counter and nothing else. -/
theorem moves_fetchInstruction (machine : Machine) :
    Moves machine machine.fetchInstruction.2 :=
  Instruction.runFrom_decode Moves.refl Moves.trans moves_fetch machine.pc machine

end Machine

/-! ## Executing -/

/-- What a step leaves behind once the execution of its instruction has come to an outcome. -/
def Outcome.settle (start : Word) (executed : Computer) : Outcome → Computer
  | .continued => executed
  | .halted reason => executed.halt start reason
  | .faulted _ => executed.goTo start

/-- An action continues, or it halts and changes nothing. It never faults. -/
theorem Action.perform_cases {computer : Computer} {action : Action} (hfits : action.Fits computer)
    (hstack : computer.machine.stack.HoldsLiterals) :
    (∃ after, action.perform computer = (.continued, after)) ∨
      ∃ halt, action.perform computer = (.halted halt, computer) := by
  cases action with
  | halt | emptyReturn | inputExhausted => exact .inr ⟨_, rfl⟩
  | pop register top =>
    obtain ⟨value, hvalue⟩ := Literal.exists_of_isLiteral (hstack.top hfits)
    refine .inl ⟨computer.dropTop.assign register value, ?_⟩
    rw [perform, hvalue]
  | _ => exact .inl ⟨_, rfl⟩

namespace Computer

theorem execute_of_resolve {computer : Computer} {instruction : Instruction} {action : Action}
    (h : computer.resolve instruction = .ok action) :
    computer.execute instruction = action.perform computer := by
  rw [execute, h]

theorem execute_of_resolve_eq_error {computer : Computer} {instruction : Instruction}
    {fault : Fault} (h : computer.resolve instruction = .error fault) :
    computer.execute instruction = (.faulted fault, computer) := by
  rw [execute, h]

/-- What a step comes to if the stack holds literals only. -/
inductive StepsTo (computer : Computer) : Outcome → Computer → Prop where
  /-- A halted machine stays as it is. -/
  | stays {halt : Halt} (hhalted : computer.machine.halted = some halt) :
      StepsTo computer (.halted halt) computer
  /-- There is no instruction at the program counter. -/
  | faultsFetching {fault : Fault} {machine : Machine} (hrunning : computer.machine.halted = none)
      (hfetch : computer.machine.fetchInstruction = (.error fault, machine)) :
      StepsTo computer (.faulted fault) computer
  /-- The operands of the instruction make no sense here. -/
  | faultsResolving {fault : Fault} {machine : Machine} {instruction : Instruction}
      (hrunning : computer.machine.halted = none)
      (hfetch : computer.machine.fetchInstruction = (.ok instruction, machine))
      (hresolve : resolve ⟨machine, computer.console⟩ instruction = .error fault) :
      StepsTo computer (.faulted fault) computer
  | halts {halt : Halt} {machine : Machine} {instruction : Instruction} {action : Action}
      (hrunning : computer.machine.halted = none)
      (hfetch : computer.machine.fetchInstruction = (.ok instruction, machine))
      (hresolve : resolve ⟨machine, computer.console⟩ instruction = .ok action)
      (hperform : action.perform ⟨machine, computer.console⟩ =
        (.halted halt, ⟨machine, computer.console⟩)) :
      StepsTo computer (.halted halt)
        (Computer.halt ⟨machine, computer.console⟩ computer.machine.pc halt)
  | continues {machine : Machine} {instruction : Instruction} {action : Action} {after : Computer}
      (hrunning : computer.machine.halted = none)
      (hfetch : computer.machine.fetchInstruction = (.ok instruction, machine))
      (hresolve : resolve ⟨machine, computer.console⟩ instruction = .ok action)
      (hperform : action.perform ⟨machine, computer.console⟩ = (.continued, after)) :
      StepsTo computer .continued after

variable {computer after : Computer} {outcome : Outcome} {fault : Fault} {fetched : Machine}

/-- Behind the fetch of an instruction only the program counter is another one. -/
theorem goTo_of_fetchInstruction {found : Except Fault Instruction}
    (hfetch : computer.machine.fetchInstruction = (found, fetched)) :
    goTo ⟨fetched, computer.console⟩ computer.machine.pc = computer := by
  have hmoves := (Machine.moves_fetchInstruction computer.machine).1
  rw [hfetch] at hmoves
  rw [goTo, hmoves]

/-- Behind the fetch of an instruction the stack is what it was. -/
theorem stack_of_fetchInstruction {found : Except Fault Instruction}
    (hfetch : computer.machine.fetchInstruction = (found, fetched)) :
    fetched.stack = computer.machine.stack :=
  congrArg (fun computer : Computer => computer.machine.stack) (goTo_of_fetchInstruction hfetch)

/-- A step executes the instruction that was fetched, and settles what comes of it. -/
theorem step_of_fetchInstruction {instruction : Instruction} {executed : Computer}
    (hrunning : computer.machine.halted = none)
    (hfetch : computer.machine.fetchInstruction = (.ok instruction, fetched))
    (hexecute : execute ⟨fetched, computer.console⟩ instruction = (outcome, executed)) :
    computer.step = (outcome, outcome.settle computer.machine.pc executed) := by
  unfold step
  rw [hrunning]
  simp only [hfetch, hexecute]
  cases outcome <;> rfl

/-- A step whose instruction can not be fetched faults. -/
theorem step_of_fetchInstruction_eq_error (hrunning : computer.machine.halted = none)
    (hfetch : computer.machine.fetchInstruction = (.error fault, fetched)) :
    computer.step = (.faulted fault, computer) := by
  have hback := goTo_of_fetchInstruction hfetch
  unfold step
  rw [hrunning]
  simp only [hfetch]
  rw [goTo] at hback
  rw [hback]

/-- Every step is one of the cases. -/
theorem stepsTo_step (hstack : computer.machine.stack.HoldsLiterals)
    (h : computer.step = (outcome, after)) : StepsTo computer outcome after := by
  cases hhalted : computer.machine.halted with
  | some halt =>
    rw [step, hhalted] at h
    obtain ⟨rfl, rfl⟩ := Prod.mk.inj h
    exact .stays hhalted
  | none =>
    rcases hfetch : computer.machine.fetchInstruction with ⟨fault | instruction, fetched⟩
    · rw [step_of_fetchInstruction_eq_error hhalted hfetch] at h
      obtain ⟨rfl, rfl⟩ := Prod.mk.inj h
      exact .faultsFetching hhalted hfetch
    · rw [← stack_of_fetchInstruction hfetch] at hstack
      cases hresolve : resolve ⟨fetched, computer.console⟩ instruction with
      | error fault =>
        rw [step_of_fetchInstruction hhalted hfetch (execute_of_resolve_eq_error hresolve)] at h
        obtain ⟨rfl, rfl⟩ := Prod.mk.inj h
        rw [Outcome.settle, goTo_of_fetchInstruction hfetch]
        exact .faultsResolving hhalted hfetch hresolve
      | ok action =>
        have hexecute := execute_of_resolve hresolve
        rcases Action.perform_cases (fits_resolve hresolve) hstack with
          ⟨after, hperform⟩ | ⟨halt, hperform⟩
        · rw [step_of_fetchInstruction hhalted hfetch (hexecute.trans hperform)] at h
          obtain ⟨rfl, rfl⟩ := Prod.mk.inj h
          exact .continues hhalted hfetch hresolve hperform
        · rw [step_of_fetchInstruction hhalted hfetch (hexecute.trans hperform)] at h
          obtain ⟨rfl, rfl⟩ := Prod.mk.inj h
          exact .halts hhalted hfetch hresolve hperform

/-- A step that faults leaves no trace. -/
theorem step_faulted_eq_self {after : Computer} {fault : Fault}
    (hstack : computer.machine.stack.HoldsLiterals) (h : computer.step = (.faulted fault, after)) :
    after = computer := by
  cases stepsTo_step hstack h with
  | faultsFetching hrunning hfetch => rfl
  | faultsResolving hrunning hfetch hresolve => rfl

end Computer

end WordMachine
