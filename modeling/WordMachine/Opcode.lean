import WordMachine.Word

/-!
# Opcodes

The instruction set as a table: for each opcode its code, its mnemonic and the role of each of its
operands. Codes run from zero without gaps in the order of `Opcode.all` (`all_getElem?_code`), and
mnemonics are written in lower case and read in any case.
-/

namespace WordMachine

/-- What an operand is used for. -/
inductive Role where
  /-- The register that receives the result. -/
  | destination
  /-- A number, given as a literal or held by a register. -/
  | value
  /-- A number used as the address to jump to. -/
  | target
  deriving DecidableEq, Repr

/-- The operations of the machine. -/
inductive Opcode where
  /-- Stop. -/
  | halt
  /-- Copy a number into a register. -/
  | set
  /-- Put a number on the stack. -/
  | push
  /-- Move the top of the stack into a register. -/
  | pop
  /-- One if two numbers are equal, zero if not. -/
  | eq
  /-- One if the first number is greater than the second, zero if not. -/
  | gt
  /-- Go to an address. -/
  | jmp
  /-- Go to an address if a number is not zero. -/
  | jt
  /-- Go to an address if a number is zero. -/
  | jf
  /-- The sum modulo `32768`. -/
  | add
  /-- The product modulo `32768`. -/
  | mult
  /-- The remainder. -/
  | mod
  /-- Bitwise and. -/
  | and
  /-- Bitwise or. -/
  | or
  /-- Every bit of a number turned over. -/
  | not
  /-- Read a memory cell into a register. -/
  | rmem
  /-- Write a number into a memory cell. -/
  | wmem
  /-- Put the address of the next instruction on the stack and go to an address. -/
  | call
  /-- Go to the address on top of the stack, which is taken off; halt if there is none. -/
  | ret
  /-- Print a character. -/
  | out
  /-- Read a character into a register. -/
  | inp
  /-- Do nothing. -/
  | noop
  deriving DecidableEq, Repr

namespace Opcode

/-- Every opcode, in the order of the codes. -/
def all : List Opcode :=
  [halt, set, push, pop, eq, gt, jmp, jt, jf, add, mult, mod, and, or, not, rmem, wmem, call, ret,
    out, inp, noop]

/-- The number that stands for the opcode in memory. -/
def code : Opcode → Nat
  | halt => 0
  | set => 1
  | push => 2
  | pop => 3
  | eq => 4
  | gt => 5
  | jmp => 6
  | jt => 7
  | jf => 8
  | add => 9
  | mult => 10
  | mod => 11
  | and => 12
  | or => 13
  | not => 14
  | rmem => 15
  | wmem => 16
  | call => 17
  | ret => 18
  | out => 19
  | inp => 20
  | noop => 21

/-- The name of the opcode in assembly text. -/
def mnemonic : Opcode → String
  | halt => "halt"
  | set => "set"
  | push => "push"
  | pop => "pop"
  | eq => "eq"
  | gt => "gt"
  | jmp => "jmp"
  | jt => "jt"
  | jf => "jf"
  | add => "add"
  | mult => "mult"
  | mod => "mod"
  | and => "and"
  | or => "or"
  | not => "not"
  | rmem => "rmem"
  | wmem => "wmem"
  | call => "call"
  | ret => "ret"
  | out => "out"
  | inp => "in"
  | noop => "noop"

/-- The roles of the operands that follow the opcode, in order. -/
def roles : Opcode → List Role
  | halt | ret | noop => []
  | push | out => [.value]
  | pop | inp => [.destination]
  | jmp | call => [.target]
  | jt | jf => [.value, .target]
  | set | not | rmem => [.destination, .value]
  | wmem => [.value, .value]
  | eq | gt | add | mult | mod | and | or => [.destination, .value, .value]

/-- The number of operands. -/
def arity (opcode : Opcode) : Nat := opcode.roles.length

/-- The opcode takes an address to jump to. -/
def isBranch (opcode : Opcode) : Bool := opcode.roles.contains .target

/-- The word that stands for the opcode. -/
def toWord (opcode : Opcode) : Word := UInt16.ofNat opcode.code

/-- The opcode a word stands for. -/
def ofWord? (word : Word) : Option Opcode := all[word.toNat]?

/-- The opcode with a name, in any case. -/
def ofMnemonic? (name : String) : Option Opcode :=
  let lowered := name.toLower
  all.find? (fun opcode => opcode.mnemonic == lowered)

/-- The table is in the order of the codes. -/
@[simp] theorem all_getElem?_code (opcode : Opcode) : all[opcode.code]? = some opcode := by
  cases opcode <;> rfl

theorem code_lt (opcode : Opcode) : opcode.code < 22 := by
  cases opcode <;> decide

theorem arity_le (opcode : Opcode) : opcode.arity ≤ 3 := by
  cases opcode <;> decide

@[simp] theorem toNat_toWord (opcode : Opcode) : opcode.toWord.toNat = opcode.code := by
  have := opcode.code_lt
  simp only [toWord, UInt16.toNat_ofNat']
  omega

@[simp] theorem ofWord?_toWord (opcode : Opcode) : ofWord? opcode.toWord = some opcode := by
  simp [ofWord?]

/-- A word stands for at most one opcode, and that opcode is written as the word. -/
theorem ofWord?_eq_some_iff {word : Word} {opcode : Opcode} :
    ofWord? word = some opcode ↔ word = opcode.toWord := by
  constructor
  · intro h
    have hlt : word.toNat < 22 := (List.getElem?_eq_some_iff.1 h).1
    apply UInt16.toNat.inj
    rw [toNat_toWord]
    have cover : ∀ n < 22, ∀ found, all[n]? = some found → n = found.code := by decide
    exact cover _ hlt _ h
  · rintro rfl; exact ofWord?_toWord opcode

/-- Exactly the words from `22` on stand for no opcode. -/
theorem ofWord?_eq_none_iff {word : Word} : ofWord? word = none ↔ 22 ≤ word.toNat := by
  simp [ofWord?, all]

end Opcode

end WordMachine
