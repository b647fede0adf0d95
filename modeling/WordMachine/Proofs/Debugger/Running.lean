import WordMachine.Debugger

/-!
# How a debugger runs

Both ways to run a debugger repeat `advance`. What one advance comes to is said once, by
`AdvancesTo`; what every advance keeps, `step` and `run` keep however often they repeat it
(`step_preserves`, `run_preserves`). That the count of steps never goes back is the first use of
this.
-/

namespace WordMachine.Debugger

variable {debugger after : Debugger}

/-- What an advance comes to. -/
inductive AdvancesTo (debugger : Debugger) : Option Stop → Debugger → Prop where
  /-- A halted machine makes no step. -/
  | stays {halt : Halt} (hhalted : debugger.computer.machine.halted = some halt) :
      AdvancesTo debugger (some (.halted halt)) debugger
  | continues {computer : Computer} (hrunning : debugger.computer.machine.halted = none)
      (hstep : debugger.computer.step = (.continued, computer)) :
      AdvancesTo debugger (debugger.stops.reason? computer.machine)
        { debugger with computer, cycles := debugger.cycles + 1 }
  | halts {halt : Halt} {computer : Computer} (hrunning : debugger.computer.machine.halted = none)
      (hstep : debugger.computer.step = (.halted halt, computer)) :
      AdvancesTo debugger (some (.halted halt))
        { debugger with computer, cycles := debugger.cycles + 1 }
  /-- A step that faults is not counted. -/
  | faults {fault : Fault} {computer : Computer}
      (hrunning : debugger.computer.machine.halted = none)
      (hstep : debugger.computer.step = (.faulted fault, computer)) :
      AdvancesTo debugger (some (.faulted fault)) { debugger with computer }

/-- Every advance is one of the cases. -/
theorem advancesTo_advance {stop : Option Stop} (h : debugger.advance = (stop, after)) :
    debugger.AdvancesTo stop after := by
  obtain ⟨computer, program, stops, cycles⟩ := debugger
  unfold advance at h
  simp only at h
  split at h
  · next halt hhalted =>
    obtain ⟨rfl, rfl⟩ := Prod.mk.inj h
    exact .stays hhalted
  · next hrunning =>
    split at h
    · next computer hstep =>
      obtain ⟨rfl, rfl⟩ := Prod.mk.inj h
      exact .continues hrunning hstep
    · next halt computer hstep =>
      obtain ⟨rfl, rfl⟩ := Prod.mk.inj h
      exact .halts hrunning hstep
    · next fault computer hstep =>
      obtain ⟨rfl, rfl⟩ := Prod.mk.inj h
      exact .faults hrunning hstep

section Preserves

variable {P : Debugger → Prop}
  (hadvance : ∀ before stop after, AdvancesTo before stop after → P before → P after)

include hadvance

/-- What every advance keeps is kept by any number of steps. -/
theorem step_preserves (h : P debugger) (count : Nat) : P (debugger.step count).2 := by
  induction count generalizing debugger with
  | zero => exact h
  | succ count ih =>
    rw [step]
    rcases hfirst : debugger.advance with ⟨_ | stop, middle⟩
    · exact ih (hadvance _ _ _ (advancesTo_advance hfirst) h)
    · exact hadvance _ _ _ (advancesTo_advance hfirst) h

/-- What every advance keeps is kept by a run that comes to a stop. -/
theorem run_preserves (h : P debugger) {budget : Nat} {stop : Stop}
    (hrun : debugger.run budget = some (stop, after)) : P after := by
  induction budget generalizing debugger with
  | zero => cases hrun
  | succ budget ih =>
    rw [run] at hrun
    rcases hfirst : debugger.advance with ⟨_ | reason, middle⟩
    · rw [hfirst] at hrun
      exact ih (hadvance _ _ _ (advancesTo_advance hfirst) h) hrun
    · rw [hfirst] at hrun
      obtain ⟨-, rfl⟩ := Prod.mk.inj (Option.some.inj hrun)
      exact hadvance _ _ _ (advancesTo_advance hfirst) h

end Preserves

/-! ## Counting -/

/-- Advancing counts a step or none. -/
theorem AdvancesTo.cycles_le {stop : Option Stop} (h : debugger.AdvancesTo stop after) :
    debugger.cycles ≤ after.cycles := by
  cases h with
  | stays hhalted => exact Nat.le_refl _
  | continues hrunning hstep => exact Nat.le_succ _
  | halts hrunning hstep => exact Nat.le_succ _
  | faults hrunning hstep => exact Nat.le_refl _

/-- Steps are never counted back. -/
theorem cycles_le_step (debugger : Debugger) (count : Nat) :
    debugger.cycles ≤ (debugger.step count).2.cycles :=
  step_preserves (P := fun other => debugger.cycles ≤ other.cycles)
    (fun _ _ _ hadvance hle => Nat.le_trans hle hadvance.cycles_le) (Nat.le_refl _) count

theorem cycles_le_run {budget : Nat} {stop : Stop} (h : debugger.run budget = some (stop, after)) :
    debugger.cycles ≤ after.cycles :=
  run_preserves (P := fun other => debugger.cycles ≤ other.cycles)
    (fun _ _ _ hadvance hle => Nat.le_trans hle hadvance.cycles_le) (Nat.le_refl _) h

end WordMachine.Debugger
