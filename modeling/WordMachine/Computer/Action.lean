import WordMachine.Computer

/-!
# Actions

An instruction is executed in two parts. `Computer.resolve` looks up what its operands stand for
and changes nothing; this is where an instruction can fault. The result is an `Action`, which says
with numbers in place of operands what is to happen, and `Action.perform` makes it happen.

One action can still fault: `pop`. A stack may hold a word that is no literal, pushed there from
outside; popping it takes it off the stack and then finds that no register can hold it.
-/

namespace WordMachine

/-- An operation on two numbers. -/
inductive Operation where
  | eq
  | gt
  | add
  | mult
  | mod
  | and
  | or
  deriving DecidableEq, Repr

/-- The name of an operation, which is its mnemonic. -/
def Operation.name : Operation → String
  | .eq => "eq"
  | .gt => "gt"
  | .add => "add"
  | .mult => "mult"
  | .mod => "mod"
  | .and => "and"
  | .or => "or"

/-- The result of an operation. Only the remainder by zero has none. -/
def Operation.apply : Operation → Literal → Literal → Except Fault Literal
  | .eq, x, y => .ok (if x = y then 1 else 0)
  | .gt, x, y => .ok (if y < x then 1 else 0)
  | .add, x, y => .ok (x + y)
  | .mult, x, y => .ok (x * y)
  | .mod, x, y => if y = 0 then .error .divisionByZero else .ok (x % y)
  | .and, x, y => .ok (x &&& y)
  | .or, x, y => .ok (x ||| y)

/-- An instruction with its operands looked up. -/
inductive Action where
  | halt
  | set (register : Fin 8) (value : Literal)
  | push (value : Literal)
  /-- Move `top`, the top of the stack, into a register. -/
  | pop (register : Fin 8) (top : Word)
  | compute (operation : Operation) (register : Fin 8) (x y result : Literal)
  | jump (target : Literal)
  | jumpIfNonzero (condition target : Literal)
  | jumpIfZero (condition target : Literal)
  | complement (register : Fin 8) (value : Literal)
  | load (register : Fin 8) (address value : Literal)
  | store (address value : Literal)
  /-- Put the address `back` on the stack and go to `target`. -/
  | call (back : Word) (target : Literal)
  /-- Take `target`, the top of the stack, off it and go there. -/
  | ret (target : Word)
  | emptyReturn
  | print (value : Literal)
  /-- Move `byte`, the next byte of the input, into a register. -/
  | input (register : Fin 8) (byte : UInt8)
  /-- Wait for input that does not come. -/
  | inputExhausted (register : Fin 8)
  | noop
  deriving DecidableEq, Repr

/-- What came of one step. -/
inductive Outcome where
  | continued
  | halted (halt : Halt)
  | faulted (fault : Fault)
  deriving DecidableEq, Repr

namespace Computer

/-- Looks up the operands of a binary operation, the destination first. -/
def resolveOperation (computer : Computer) (operation : Operation) (operands : Vector Word 3) :
    Except Fault Action := do
  let register ← Operand.destination operands[0]
  let x ← computer.machine.registers.value operands[1]
  let y ← computer.machine.registers.value operands[2]
  return .compute operation register x y (← operation.apply x y)

/-- What an instruction is about to do. The program counter stands behind the instruction. -/
def resolve (computer : Computer) : Instruction → Except Fault Action
  | ⟨.halt, _⟩ => return .halt
  | ⟨.set, operands⟩ => do
    let register ← Operand.destination operands[0]
    return .set register (← computer.machine.registers.value operands[1])
  | ⟨.push, operands⟩ => return .push (← computer.machine.registers.value operands[0])
  | ⟨.pop, operands⟩ => do
    let register ← Operand.destination operands[0]
    let (top, _) ← computer.machine.stack.pop
    return .pop register top
  | ⟨.eq, operands⟩ => computer.resolveOperation .eq operands
  | ⟨.gt, operands⟩ => computer.resolveOperation .gt operands
  | ⟨.jmp, operands⟩ => return .jump (← computer.machine.registers.value operands[0])
  | ⟨.jt, operands⟩ => do
    let condition ← computer.machine.registers.value operands[0]
    return .jumpIfNonzero condition (← computer.machine.registers.value operands[1])
  | ⟨.jf, operands⟩ => do
    let condition ← computer.machine.registers.value operands[0]
    return .jumpIfZero condition (← computer.machine.registers.value operands[1])
  | ⟨.add, operands⟩ => computer.resolveOperation .add operands
  | ⟨.mult, operands⟩ => computer.resolveOperation .mult operands
  | ⟨.mod, operands⟩ => computer.resolveOperation .mod operands
  | ⟨.and, operands⟩ => computer.resolveOperation .and operands
  | ⟨.or, operands⟩ => computer.resolveOperation .or operands
  | ⟨.not, operands⟩ => do
    let register ← Operand.destination operands[0]
    return .complement register (← computer.machine.registers.value operands[1])
  | ⟨.rmem, operands⟩ => do
    let register ← Operand.destination operands[0]
    let address ← computer.machine.registers.value operands[1]
    let word ← computer.machine.memory.read address.val
    return .load register address (← Literal.ofWord word)
  | ⟨.wmem, operands⟩ => do
    let address ← computer.machine.registers.value operands[0]
    return .store address (← computer.machine.registers.value operands[1])
  | ⟨.call, operands⟩ => do
    let target ← computer.machine.registers.value operands[0]
    if computer.machine.pc.isLiteral then
      return .call computer.machine.pc target
    else
      throw (.outOfBounds computer.machine.pc.toNat)
  | ⟨.ret, _⟩ =>
    return match computer.machine.stack.top? with
      | some target => .ret target
      | none => .emptyReturn
  | ⟨.out, operands⟩ => do
    let value ← computer.machine.registers.value operands[0]
    if value.toWord.isPrintable then
      return .print value
    else
      throw (.unprintable value)
  | ⟨.inp, operands⟩ => do
    let register ← Operand.destination operands[0]
    return match computer.console.input with
      | byte :: _ => .input register byte
      | [] => .inputExhausted register
  | ⟨.noop, _⟩ => return .noop

end Computer

namespace Action

/-- Makes an action happen. -/
def perform (computer : Computer) : Action → Outcome × Computer
  | .halt => (.halted .instruction, computer)
  | .set register value => (.continued, computer.assign register value)
  | .push value => (.continued, computer.push value.toWord)
  | .pop register top =>
    match Literal.ofWord top with
    | .ok value => (.continued, computer.dropTop.assign register value)
    | .error fault => (.faulted fault, computer.dropTop)
  | .compute _ register _ _ result => (.continued, computer.assign register result)
  | .jump target => (.continued, computer.goTo target.toWord)
  | .jumpIfNonzero condition target =>
    (.continued, if condition = 0 then computer else computer.goTo target.toWord)
  | .jumpIfZero condition target =>
    (.continued, if condition = 0 then computer.goTo target.toWord else computer)
  | .complement register value => (.continued, computer.assign register value.complement)
  | .load register _ value => (.continued, computer.assign register value)
  | .store address value => (.continued, computer.store address.val value.toValid)
  | .call back target => (.continued, (computer.push back).goTo target.toWord)
  | .ret target => (.continued, computer.dropTop.goTo target)
  | .emptyReturn => (.halted .emptyReturn, computer)
  | .print value => (.continued, computer.print value.toWord.toUInt8)
  | .input register byte => (.continued, computer.dropInput.assign register (.ofByte byte))
  | .inputExhausted _ => (.halted .inputExhausted, computer)
  | .noop => (.continued, computer)

end Action

end WordMachine
