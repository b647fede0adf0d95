import WordMachine.Computer.Step
import WordMachine.Proofs.Except

/-!
# What actions instructions resolve to

Looking up operands changes nothing, and what it finds is there: `fits_resolve` says for each kind
of action what is known of the computer once an instruction has resolved to it. Everything about
the execution of instructions is proved by cases on actions from here, and not by cases on opcodes.
-/

namespace WordMachine

/-- What holds of the computer once an instruction has resolved to an action. -/
def Action.Fits (computer : Computer) : Action → Prop
  | .pop _ top => computer.machine.stack.top? = some top
  | .compute operation _ x y result => operation.apply x y = .ok result
  | .load _ address value => computer.machine.memory.word? address.val = some value.toWord
  | .call back _ => back = computer.machine.pc ∧ back.isLiteral = true
  | .ret target => computer.machine.stack.top? = some target
  | .emptyReturn => computer.machine.stack.top? = none
  | .print value => value.toWord.isPrintable = true
  | .input _ byte => computer.console.input.head? = some byte
  | .inputExhausted _ => computer.console.input = []
  | .halt | .set .. | .push _ | .jump _ | .jumpIfNonzero .. | .jumpIfZero .. | .complement ..
  | .store .. | .noop => True

/-- A word that is popped is the top of the stack. -/
theorem Stack.top?_of_pop {stack below : Stack} {word : Word} (h : stack.pop = .ok (word, below)) :
    stack.top? = some word := by
  obtain ⟨words⟩ := stack
  cases words with
  | nil => cases h
  | cons first rest =>
    obtain ⟨rfl, -⟩ := Prod.mk.inj (Except.ok.inj h)
    rfl

/-- A word that is a literal is the word of the literal. -/
theorem Literal.toWord_of_ofWord {word : Word} {value : Literal} (h : ofWord word = .ok value) :
    word = value.toWord := by
  unfold ofWord at h
  split at h
  · next found hfound =>
    obtain rfl := Except.ok.inj h
    exact ofWord?_eq_some_iff.mp hfound
  · cases h

namespace Computer

variable {computer : Computer} {action : Action}

theorem fits_resolveOperation {operation : Operation} {operands : Vector Word 3}
    (h : computer.resolveOperation operation operands = .ok action) : action.Fits computer := by
  obtain ⟨register, -, h⟩ := exists_of_bind_eq_ok h
  obtain ⟨x, -, h⟩ := exists_of_bind_eq_ok h
  obtain ⟨y, -, h⟩ := exists_of_bind_eq_ok h
  obtain ⟨result, hresult, h⟩ := exists_of_bind_eq_ok h
  obtain rfl := Except.ok.inj h
  exact hresult

/-- What an instruction resolves to was found in the computer. -/
theorem fits_resolve {instruction : Instruction} (h : computer.resolve instruction = .ok action) :
    action.Fits computer := by
  obtain ⟨opcode, operands⟩ := instruction
  cases opcode with
  | halt | noop =>
    obtain rfl := Except.ok.inj h
    trivial
  | push | jmp =>
    obtain ⟨value, -, h⟩ := exists_of_bind_eq_ok h
    obtain rfl := Except.ok.inj h
    trivial
  | set | not | jt | jf | wmem =>
    obtain ⟨first, -, h⟩ := exists_of_bind_eq_ok h
    obtain ⟨second, -, h⟩ := exists_of_bind_eq_ok h
    obtain rfl := Except.ok.inj h
    trivial
  | eq | gt | add | mult | mod | and | or => exact fits_resolveOperation h
  | pop =>
    obtain ⟨register, -, h⟩ := exists_of_bind_eq_ok h
    obtain ⟨⟨top, below⟩, hpop, h⟩ := exists_of_bind_eq_ok h
    obtain rfl := Except.ok.inj h
    exact Stack.top?_of_pop hpop
  | rmem =>
    obtain ⟨register, -, h⟩ := exists_of_bind_eq_ok h
    obtain ⟨address, -, h⟩ := exists_of_bind_eq_ok h
    obtain ⟨word, hread, h⟩ := exists_of_bind_eq_ok h
    obtain ⟨value, hvalue, h⟩ := exists_of_bind_eq_ok h
    obtain rfl := Except.ok.inj h
    obtain rfl := Literal.toWord_of_ofWord hvalue
    exact Memory.read_eq_ok_iff.mp hread
  | call =>
    obtain ⟨target, -, h⟩ := exists_of_bind_eq_ok h
    split at h
    · next hliteral =>
      obtain rfl := Except.ok.inj h
      exact ⟨rfl, hliteral⟩
    · cases h
  | ret =>
    obtain rfl := Except.ok.inj h
    cases htop : computer.machine.stack.top? with
    | none => exact htop
    | some target => exact htop
  | out =>
    obtain ⟨value, -, h⟩ := exists_of_bind_eq_ok h
    split at h
    · next hprintable =>
      obtain rfl := Except.ok.inj h
      exact hprintable
    · cases h
  | inp =>
    obtain ⟨register, -, h⟩ := exists_of_bind_eq_ok h
    obtain rfl := Except.ok.inj h
    cases hinput : computer.console.input with
    | nil => exact hinput
    | cons byte rest =>
      change computer.console.input.head? = some byte
      rw [hinput]
      rfl

end Computer

end WordMachine
