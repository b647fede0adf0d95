import Mathlib.Logic.Function.Iterate
import WordMachine.Proofs.Computer.Executing

/-!
# Steps in a row

`stepTimes` is the computer after a number of steps, and `Continues` says that all of them go
through. What holds across one step that goes through holds across any number of them; the lemmas
here count the steps from either end.
-/

namespace WordMachine.Computer

/-- The computer after a number of steps, whatever comes of each. -/
def stepTimes (computer : Computer) (count : Nat) : Computer :=
  (fun computer => computer.step.2)^[count] computer

theorem stepTimes_add (computer : Computer) (first second : Nat) :
    computer.stepTimes (first + second) = (computer.stepTimes first).stepTimes second := by
  rw [stepTimes, Nat.add_comm, Function.iterate_add_apply]
  rfl

theorem stepTimes_succ (computer : Computer) (count : Nat) :
    computer.stepTimes (count + 1) = computer.step.2.stepTimes count := rfl

theorem stepTimes_succ' (computer : Computer) (count : Nat) :
    computer.stepTimes (count + 1) = (computer.stepTimes count).step.2 :=
  stepTimes_add computer count 1

variable {computer after : Computer} {steps : Nat}

/-- A machine whose step continues was running, and goes on running. -/
theorem halted_of_step_continued (h : computer.step = (.continued, after)) :
    computer.machine.halted = none ∧ after.machine.halted = none := by
  have hrunning : computer.machine.halted = none := by
    cases hhalted : computer.machine.halted with
    | none => rfl
    | some halt =>
      rw [step, hhalted] at h
      cases h
  refine ⟨hrunning, ?_⟩
  obtain ⟨opcode, operands, next, -, heffect⟩ := exists_effect_of_step hrunning h (by simp)
  cases heffect <;> exact hrunning

/-- A step that continues is a row of the table. -/
theorem exists_effect_of_continued (h : computer.step = (.continued, after)) :
    ∃ opcode operands next, computer.machine.Faces opcode operands next ∧
      Effect computer.machine computer.console next opcode operands .continued after :=
  exists_effect_of_step (halted_of_step_continued h).1 h (by simp)

/-- A `noop` moves on to the next cell. -/
theorem step_noop (hrunning : computer.machine.halted = none)
    (hcell : computer.machine.memory.word? computer.machine.pc.toNat = some Opcode.noop.toWord) :
    computer.step = (.continued, computer.goTo (computer.machine.pc + 1)) := by
  have hnext := Memory.toNat_add_one_of_read (Memory.read_eq_ok_iff.mpr hcell)
  exact step_of_effect hrunning ⟨rfl, ⟨_, hcell, rfl⟩, by simp, hnext⟩ .noop

/-- So many steps in a row go through. -/
def Continues (computer : Computer) (steps : Nat) : Prop :=
  ∀ index < steps, (computer.stepTimes index).step.1 = .continued

/-- Each step of the row leads from one computer to the next. -/
theorem Continues.step_eq (h : computer.Continues steps) {index : Nat} (hlt : index < steps) :
    (computer.stepTimes index).step = (.continued, computer.stepTimes (index + 1)) :=
  Prod.ext (h index hlt) (computer.stepTimes_succ' index).symm

/-- A row without its last step. -/
theorem Continues.init (h : computer.Continues (steps + 1)) : computer.Continues steps :=
  fun index hlt => h index (Nat.lt_succ_of_lt hlt)

/-- A machine that is running is running behind steps that go through. -/
theorem Continues.running (h : computer.Continues steps)
    (hrunning : computer.machine.halted = none) :
    (computer.stepTimes steps).machine.halted = none := by
  cases steps with
  | zero => exact hrunning
  | succ steps => exact (halted_of_step_continued (h.step_eq (Nat.lt_succ_self steps))).2

end WordMachine.Computer
