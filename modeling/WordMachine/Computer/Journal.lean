import WordMachine.Computer.Run
import WordMachine.Journal

/-!
# The journal of execution

Each instruction that is executed, with numbers in place of its operands. An instruction that
faults is not recorded.
-/

namespace WordMachine

/-- An action as the journal describes it. A pop that finds no literal is not described, because it
faults. -/
def Action.description? : Action → Option String
  | .halt => some "halt"
  | .set register value => some s!"set r{register.val} {value.val}"
  | .push value => some s!"push {value.val}"
  | .pop register top => if top.isLiteral then some s!"pop r{register.val}: {top}" else none
  | .compute operation register x y result =>
    some s!"{operation.name} r{register.val} {x.val} {y.val}: {result.val}"
  | .jump target => some s!"jmp {target.val}"
  | .jumpIfNonzero condition target => some s!"jt {condition.val} {target.val}"
  | .jumpIfZero condition target => some s!"jf {condition.val} {target.val}"
  | .complement register value =>
    some s!"not r{register.val} {value.val}: {value.complement.val}"
  | .load register address value => some s!"rmem r{register.val} {address.val}: {value.val}"
  | .store address value => some s!"wmem {address.val} {value.val}"
  | .call _ target => some s!"call {target.val}"
  | .ret target => some s!"ret {target}"
  | .emptyReturn => some "ret on empty stack"
  | .print value => some s!"out {value.val}"
  | .input register byte => some s!"in r{register.val}: {byte}"
  | .inputExhausted register => some s!"in r{register.val}: input exhausted"
  | .noop => some "noop"

namespace Computer

/-- What executing an instruction records. -/
def journalExecute (computer : Computer) (instruction : Instruction) : List Entry :=
  match (computer.resolve instruction).toOption.bind Action.description? with
  | some description => [⟨.debug, .processor, description⟩]
  | none => []

/-- What the next step records. -/
def journalStep (computer : Computer) : List Entry :=
  if computer.machine.halted.isSome then []
  else
    match computer.machine.fetchInstruction with
    | (.error _, _) => []
    | (.ok instruction, machine) => (computer.withMachine machine).journalExecute instruction

/-- What stepping records that goes on until an outcome other than `continued`, but makes at most
`limit` steps, in front of what is recorded already, the last entry first. -/
def journalOnto (entries : List Entry) (computer : Computer) : (limit : Nat) → List Entry
  | 0 => entries
  | limit + 1 =>
    let entries := computer.journalStep ++ entries
    match computer.step with
    | (.continued, after) => journalOnto entries after limit
    | _ => entries

/-- What a bounded series of steps records. -/
def journalUpTo (computer : Computer) (limit : Nat) : List Entry :=
  (computer.journalOnto [] limit).reverse

/-- What running until the machine halts or faults records. A halt is recorded once more at its
end. -/
def journalRun (computer : Computer) (budget : Nat) : List Entry :=
  computer.journalUpTo budget ++
    match computer.run budget with
    | some (.ok halt, after) =>
      [⟨.info, .processor, s!"Program terminated at {after.machine.pc}: {halt.message}"⟩]
    | _ => []

end Computer

end WordMachine
