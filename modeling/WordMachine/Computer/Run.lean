import WordMachine.Computer.Step

/-!
# Many steps

`stepUpTo` makes at most a given number of steps and stops early once a step does not continue.
`run` has no such limit of its own. A program may loop for ever, so `run` takes a budget of steps
and has no answer when the budget runs out first; an answer does not depend on the budget that
found it (`run_add`).
-/

namespace WordMachine.Computer

/-- What came of a bounded series of steps. -/
structure Progress where
  /-- The outcome of the last step made; `continued` if there was none. -/
  outcome : Outcome
  /-- The number of steps made. -/
  steps : Nat
  computer : Computer

/-- Steps until an outcome other than `continued`, but at most `limit` times. -/
def stepUpTo (computer : Computer) : (limit : Nat) → Progress
  | 0 => ⟨.continued, 0, computer⟩
  | limit + 1 => go computer limit 1
where
  /-- Makes a step, and up to `more` further ones. This step is number `made`. -/
  go (computer : Computer) (more made : Nat) : Progress :=
    match computer.step with
    | (.continued, after) =>
      match more with
      | 0 => ⟨.continued, made, after⟩
      | more + 1 => go after more (made + 1)
    | (outcome, after) => ⟨outcome, made, after⟩

/-- Steps until the machine halts or faults. -/
def run (computer : Computer) : (budget : Nat) → Option (Except Fault Halt × Computer)
  | 0 => none
  | budget + 1 =>
    match computer.step with
    | (.continued, after) => after.run budget
    | (.halted halt, after) => some (.ok halt, after)
    | (.faulted fault, after) => some (.error fault, after)

/-- A larger budget gives the same answer. -/
theorem run_add {computer : Computer} {budget : Nat} {answer : Except Fault Halt × Computer}
    (h : computer.run budget = some answer) (more : Nat) :
    computer.run (budget + more) = some answer := by
  induction budget generalizing computer with
  | zero => cases h
  | succ budget ih =>
    rw [Nat.add_right_comm]
    simp only [run] at h ⊢
    split at h <;> simp_all

end WordMachine.Computer
