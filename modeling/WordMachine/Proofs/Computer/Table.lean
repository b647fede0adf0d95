import WordMachine.Computer.Step
import WordMachine.Proofs.Computer.Receiving

/-!
# The instruction table

What each instruction does, row by row and in exact arithmetic, as a relation between the machine in
front of the instruction and the computer behind the step. Nothing here looks at how a step is made:
operands are words, numbers are natural numbers, and a row names every part of the machine that
changes and says what it holds afterwards: a register and a cell by `Receives`, the stack by its
words.

* `Machine.Faces` says which instruction lies at the program counter;
* `Effect` is the table, with one constructor for each row. A row that does not apply, such as a
  remainder by zero or a `pop` from an empty stack, is a row that is not there.
-/

namespace WordMachine

/-! ## Operands -/

/-- The word names a register. -/
def Word.Names (word : Word) (register : Fin 8) : Prop := word.toNat = 32768 + register.val

/-- The number that an operand word stands for: a literal stands for itself, the name of a register
for what the register holds. -/
inductive Registers.Denotes (registers : Registers) (word : Word) (value : Literal) : Prop where
  | literal (hword : word.toNat = value.val)
  | register {register : Fin 8} (hword : word.Names register)
      (hvalue : registers.values[register] = value)

/-- The result of an opcode that computes with two numbers. There is no remainder by zero, and the
other opcodes compute nothing. -/
def Opcode.compute? : Opcode → Nat → Nat → Option Nat
  | eq, x, y => some (if x = y then 1 else 0)
  | gt, x, y => some (if y < x then 1 else 0)
  | add, x, y => some ((x + y) % 32768)
  | mult, x, y => some (x * y % 32768)
  | mod, x, y => if y = 0 then none else some (x % y)
  | and, x, y => some (x &&& y)
  | or, x, y => some (x ||| y)
  | _, _, _ => none

/-! ## Instructions -/

/-- The number of an opcode in the table, which is what stands for it in memory. -/
def Opcode.number : Opcode → Nat
  | halt => 0
  | set => 1
  | push => 2
  | pop => 3
  | eq => 4
  | gt => 5
  | jmp => 6
  | jt => 7
  | jf => 8
  | add => 9
  | mult => 10
  | mod => 11
  | and => 12
  | or => 13
  | not => 14
  | rmem => 15
  | wmem => 16
  | call => 17
  | ret => 18
  | out => 19
  | inp => 20
  | noop => 21

/-- The instruction at the program counter: its words lie there, and `next` is the address behind
them. -/
structure Machine.Faces (machine : Machine) (opcode : Opcode) (operands : List Word) (next : Word) :
    Prop where
  length_eq : operands.length = opcode.arity
  opcode_at : ∃ word, machine.memory.word? machine.pc.toNat = some word ∧
    word.toNat = opcode.number
  operand_at : ∀ index word, operands[index]? = some word →
    machine.memory.word? (machine.pc.toNat + 1 + index) = some word
  next_eq : next.toNat = machine.pc.toNat + 1 + operands.length

/-- The codes of the characters that can be printed: from the blank to the tilde, and from tab to
carriage return. -/
def Printable (code : Nat) : Prop := 32 ≤ code ∧ code ≤ 126 ∨ 9 ≤ code ∧ code ≤ 13

/-- The table. In front of the step there are the machine and its console, `next` is the address
behind the instruction. -/
inductive Effect (machine : Machine) (console : Console) (next : Word) :
    Opcode → List Word → Outcome → Computer → Prop where
  | halt :
    Effect machine console next .halt [] (.halted .instruction)
      ⟨{ machine with pc := next, halted := some .instruction }, console⟩
  | set {a b : Word} {r : Fin 8} {x : Literal} {registers : Registers} (ha : a.Names r)
      (hb : machine.registers.Denotes b x) (hr : machine.registers.Receives r x registers) :
    Effect machine console next .set [a, b] .continued
      ⟨{ machine with pc := next, registers }, console⟩
  | push {a word : Word} {x : Literal} (ha : machine.registers.Denotes a x)
      (hword : word.toNat = x.val) :
    Effect machine console next .push [a] .continued
      ⟨{ machine with pc := next, stack := ⟨word :: machine.stack.words⟩ }, console⟩
  | pop {a top : Word} {r : Fin 8} {x : Literal} {below : List Word} {registers : Registers}
      (ha : a.Names r) (hstack : machine.stack.words = top :: below) (htop : top.toNat = x.val)
      (hr : machine.registers.Receives r x registers) :
    Effect machine console next .pop [a] .continued
      ⟨{ machine with pc := next, registers, stack := ⟨below⟩ }, console⟩
  /-- The seven rows with a destination and two numbers. -/
  | compute {opcode : Opcode} {a b c : Word} {r : Fin 8} {x y z : Literal} {registers : Registers}
      (ha : a.Names r) (hb : machine.registers.Denotes b x) (hc : machine.registers.Denotes c y)
      (hz : opcode.compute? x.val y.val = some z.val)
      (hr : machine.registers.Receives r z registers) :
    Effect machine console next opcode [a, b, c] .continued
      ⟨{ machine with pc := next, registers }, console⟩
  | jmp {a target : Word} {x : Literal} (ha : machine.registers.Denotes a x)
      (htarget : target.toNat = x.val) :
    Effect machine console next .jmp [a] .continued ⟨{ machine with pc := target }, console⟩
  | jt {a b target : Word} {x y : Literal} (ha : machine.registers.Denotes a x)
      (hb : machine.registers.Denotes b y) (htarget : target.toNat = y.val) :
    Effect machine console next .jt [a, b] .continued
      ⟨{ machine with pc := if x = 0 then next else target }, console⟩
  | jf {a b target : Word} {x y : Literal} (ha : machine.registers.Denotes a x)
      (hb : machine.registers.Denotes b y) (htarget : target.toNat = y.val) :
    Effect machine console next .jf [a, b] .continued
      ⟨{ machine with pc := if x = 0 then target else next }, console⟩
  | not {a b : Word} {r : Fin 8} {x z : Literal} {registers : Registers} (ha : a.Names r)
      (hb : machine.registers.Denotes b x) (hz : z.val = 32767 - x.val)
      (hr : machine.registers.Receives r z registers) :
    Effect machine console next .not [a, b] .continued
      ⟨{ machine with pc := next, registers }, console⟩
  | rmem {a b word : Word} {r : Fin 8} {x z : Literal} {registers : Registers} (ha : a.Names r)
      (hb : machine.registers.Denotes b x) (hcell : machine.memory.word? x.val = some word)
      (hword : word.toNat = z.val) (hr : machine.registers.Receives r z registers) :
    Effect machine console next .rmem [a, b] .continued
      ⟨{ machine with pc := next, registers }, console⟩
  | wmem {a b word : Word} {x y : Literal} {memory : Memory} (ha : machine.registers.Denotes a x)
      (hb : machine.registers.Denotes b y) (hword : word.toNat = y.val)
      (hcell : machine.memory.Receives x.val word memory) :
    Effect machine console next .wmem [a, b] .continued
      ⟨{ machine with pc := next, memory }, console⟩
  /-- The address behind the instruction has to be a literal. -/
  | call {a target : Word} {x : Literal} (ha : machine.registers.Denotes a x)
      (htarget : target.toNat = x.val) (hnext : next.toNat < 32768) :
    Effect machine console next .call [a] .continued
      ⟨{ machine with pc := target, stack := ⟨next :: machine.stack.words⟩ }, console⟩
  | ret {target : Word} {below : List Word} (hstack : machine.stack.words = target :: below) :
    Effect machine console next .ret [] .continued
      ⟨{ machine with pc := target, stack := ⟨below⟩ }, console⟩
  | emptyReturn (hstack : machine.stack.words = []) :
    Effect machine console next .ret [] (.halted .emptyReturn)
      ⟨{ machine with pc := next, halted := some .emptyReturn }, console⟩
  | out {a : Word} {x : Literal} {byte : UInt8} (ha : machine.registers.Denotes a x)
      (hprintable : Printable x.val) (hbyte : byte.toNat = x.val) :
    Effect machine console next .out [a] .continued
      ⟨{ machine with pc := next }, { console with output := console.output.push byte }⟩
  | inp {a : Word} {r : Fin 8} {x : Literal} {byte : UInt8} {rest : List UInt8}
      {registers : Registers} (ha : a.Names r) (hinput : console.input = byte :: rest)
      (hbyte : byte.toNat = x.val) (hr : machine.registers.Receives r x registers) :
    Effect machine console next .inp [a] .continued
      ⟨{ machine with pc := next, registers }, { console with input := rest }⟩
  /-- The program counter stays where it is. -/
  | inputExhausted {a : Word} {r : Fin 8} (ha : a.Names r) (hinput : console.input = []) :
    Effect machine console next .inp [a] (.halted .inputExhausted)
      ⟨{ machine with halted := some .inputExhausted }, console⟩
  | noop :
    Effect machine console next .noop [] .continued ⟨{ machine with pc := next }, console⟩

end WordMachine
