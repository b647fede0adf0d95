import WordMachine.Computer.Run
import WordMachine.Proofs.Computer.Stepping
import WordMachine.Proofs.Session.Reachable

/-!
# Debugging is transparent

Commands that only run, show, save or set stop conditions do nothing to the computer but step it:
behind any series of them it is the computer from before, stepped as often as the debugger has
counted (`CarriesOut.follows`). Where the debugger stopped on the way makes no difference, and
without stop conditions a run of the debugger is a run of the computer (`run_of_nowhere`).

`debugging_transparent` puts the three together.
-/

namespace WordMachine

/-- The command runs the machine, shows or saves its state, or sets a stop condition. -/
def Command.isPassive : Command → Bool
  | .run | .step _ | .view .. | .breakpoint _ | .watch _ | .breakop _ | .dump => true
  | .reset | .set .. | .restore _ => false

/-- The stop behind a run of the computer that came to an end. -/
def Stop.ofEnd : Except Fault Halt → Stop
  | .ok halt => .halted halt
  | .error fault => .faulted fault

namespace Debugger

variable {program : Program} {debugger middle after : Debugger}

/-! ## The computer is stepped and counted -/

/-- The computer was stepped as often as steps were counted, and not touched otherwise. -/
def Follows (debugger after : Debugger) : Prop :=
  ∃ count, after.cycles = debugger.cycles + count ∧
    after.computer = debugger.computer.stepTimes count

theorem Follows.of_eq (hcycles : after.cycles = debugger.cycles)
    (hcomputer : after.computer = debugger.computer) : debugger.Follows after :=
  ⟨0, hcycles, hcomputer⟩

theorem Follows.refl (debugger : Debugger) : debugger.Follows debugger := .of_eq rfl rfl

theorem Follows.trans (h : debugger.Follows middle) (h' : middle.Follows after) :
    debugger.Follows after := by
  obtain ⟨count, hcycles, hcomputer⟩ := h
  obtain ⟨count', hcycles', hcomputer'⟩ := h'
  refine ⟨count + count', ?_, ?_⟩
  · rw [hcycles', hcycles, Nat.add_assoc]
  · rw [hcomputer', hcomputer, Computer.stepTimes_add]

/-- An advance steps the computer and counts, or it does neither: a step that faults leaves no
trace. -/
theorem AdvancesTo.follows {stop : Option Stop} (h : debugger.AdvancesTo stop after)
    (hsound : debugger.IsSound program) : debugger.Follows after := by
  cases h with
  | stays hhalted => exact .refl debugger
  | continues hrunning hstep => exact ⟨1, rfl, (congrArg Prod.snd hstep).symm⟩
  | halts hrunning hstep => exact ⟨1, rfl, (congrArg Prod.snd hstep).symm⟩
  | faults hrunning hstep =>
    exact .of_eq rfl (Computer.step_faulted_eq_self hsound.computer.holdsLiterals hstep)

/-- What every advance keeps, for debuggers that follow one in order. -/
theorem follows_of_advancesTo (debugger : Debugger) :
    ∀ before stop after, AdvancesTo before stop after →
      before.IsSound program ∧ debugger.Follows before →
        after.IsSound program ∧ debugger.Follows after := by
  rintro before stop after hadvance ⟨hsound, hfollows⟩
  exact ⟨hsound.advancesTo hadvance, hfollows.trans (hadvance.follows hsound)⟩

theorem follows_step (hsound : debugger.IsSound program) (count : Nat) :
    debugger.Follows (debugger.step count).2 :=
  (step_preserves (follows_of_advancesTo debugger) ⟨hsound, .refl debugger⟩ count).2

theorem follows_run (hsound : debugger.IsSound program) {budget : Nat} {stop : Stop}
    (hrun : debugger.run budget = some (stop, after)) : debugger.Follows after :=
  (run_preserves (follows_of_advancesTo debugger) ⟨hsound, .refl debugger⟩ hrun).2

/-! ## Running without stop conditions -/

/-- Without stop conditions there is no reason to stop. -/
theorem reason?_nowhere (machine : Machine) : Stops.nowhere.reason? machine = none := by
  have hbreakop : Stops.nowhere.breakop? machine = none := by
    unfold Stops.breakop?
    cases machine.opcodeAt? machine.pc <;> rfl
  unfold Stops.reason?
  rw [hbreakop]
  rfl

/-- Without stop conditions the debugger runs as the computer does, to the same end and in the same
number of steps. -/
theorem run_of_nowhere (hnowhere : debugger.stops = .nowhere) (budget : Nat) :
    (debugger.run budget).map (fun (stop, after) => (stop, after.computer)) =
      (debugger.computer.run budget).map fun (ended, after) => (Stop.ofEnd ended, after) := by
  induction budget generalizing debugger with
  | zero => rfl
  | succ budget ih =>
    rw [run, Computer.run]
    rcases hadvance : debugger.advance with ⟨stop, after⟩
    cases advancesTo_advance hadvance with
    | @stays halt hhalted =>
      have hstep : debugger.computer.step = (.halted halt, debugger.computer) := by
        rw [Computer.step, hhalted]
      rw [hstep]
      rfl
    | continues hrunning hstep =>
      rw [hnowhere, reason?_nowhere, hstep]
      exact ih rfl
    | halts hrunning hstep =>
      rw [hstep]
      rfl
    | faults hrunning hstep =>
      rw [hstep]
      rfl

end Debugger

namespace Session

variable {program : Program} {session after : Session}

/-! ## Series of commands -/

/-- A number of steps can always be carried out. -/
theorem carriesOut_step (session : Session) (count : Nat) :
    session.CarriesOut [.step count]
      { session with debugger := (session.debugger.step count).2 } := by
  obtain ⟨debugger, folder, paths, host⟩ := session
  have hexecute : execute ⟨debugger, folder, paths, host⟩ 0 (.step count) =
      some (stopped folder paths host (debugger.step count)) := rfl
  rcases hstep : debugger.step count with ⟨stop, after⟩
  rw [hstep] at hexecute
  exact .cons hexecute (.nil _)

/-- A passive command steps the computer and counts. -/
theorem ExecutesTo.follows {host : Host} {folder : Folder} {debugger after : Debugger}
    {command : Command}
    {result : Except SessionError Response}
    (h : ExecutesTo host folder debugger command result after) (hpassive : command.isPassive = true)
    (hsound : debugger.IsSound program) : debugger.Follows after := by
  cases h with
  | fails | view | dump => exact .refl debugger
  | run hrun => exact Debugger.follows_run hsound hrun
  | @step count stop after hstep =>
    have hfollows := Debugger.follows_step hsound count
    rwa [hstep] at hfollows
  | breakpoint hadd =>
    obtain ⟨-, -, hadd⟩ := exists_of_bind_eq_ok hadd
    obtain rfl := Except.ok.inj hadd
    exact .of_eq rfl rfl
  | watch hadd =>
    obtain ⟨-, -, hadd⟩ := exists_of_bind_eq_ok hadd
    obtain rfl := Except.ok.inj hadd
    exact .of_eq rfl rfl
  | breakop hname => exact .of_eq rfl rfl
  | reset | set | restore => cases hpassive

/-- A series of passive commands steps the computer and counts. -/
theorem CarriesOut.follows {commands : List Command} (h : session.CarriesOut commands after)
    (hpassive : ∀ command ∈ commands, command.isPassive = true)
    (hsound : session.debugger.IsSound program) : session.debugger.Follows after.debugger := by
  induction h with
  | nil session => exact .refl session.debugger
  | cons hexecute hrest ih =>
    obtain ⟨hfirst, hothers⟩ := List.forall_mem_cons.mp hpassive
    have hexecutes := executesTo_execute hexecute
    exact (hexecutes.follows hfirst hsound).trans (ih hothers (hexecutes.isSound hsound))

/-- Behind passive commands the computer is the one from before, stepped once for every step that
was counted. -/
theorem CarriesOut.computer_eq {commands : List Command} (h : session.CarriesOut commands after)
    (hpassive : ∀ command ∈ commands, command.isPassive = true)
    (hsound : session.debugger.IsSound program) :
    session.debugger.cycles ≤ after.debugger.cycles ∧
      after.debugger.computer = session.debugger.computer.stepTimes
        (after.debugger.cycles - session.debugger.cycles) := by
  obtain ⟨count, hcycles, hcomputer⟩ := h.follows hpassive hsound
  rw [hcycles, Nat.add_sub_cancel_left]
  exact ⟨Nat.le_add_right _ _, hcomputer⟩

/-- Debugging does not disturb the program. In a reachable session, passive commands step the
computer exactly as often as they count; sessions on the same computer agree on it as soon as they
have counted the same number of steps; and without stop conditions the debugger runs the computer to
the same end as the computer runs by itself. -/
theorem debugging_transparent (hreach : Reachable program session) :
    (∀ commands after, session.CarriesOut commands after →
      (∀ command ∈ commands, command.isPassive = true) →
        session.debugger.cycles ≤ after.debugger.cycles ∧
          after.debugger.computer = session.debugger.computer.stepTimes
            (after.debugger.cycles - session.debugger.cycles)) ∧
    (∀ commands after program' other commands' after', session.CarriesOut commands after →
      Reachable program' other → other.CarriesOut commands' after' →
      (∀ command ∈ commands ++ commands', command.isPassive = true) →
      other.debugger.computer = session.debugger.computer →
      after'.debugger.cycles - other.debugger.cycles =
        after.debugger.cycles - session.debugger.cycles →
      after'.debugger.computer = after.debugger.computer) ∧
    (session.debugger.stops = .nowhere → ∀ budget,
      (session.debugger.run budget).map (fun (stop, after) => (stop, after.computer)) =
        (session.debugger.computer.run budget).map fun (ended, after) =>
          (Stop.ofEnd ended, after)) := by
  refine ⟨fun commands after h hpassive => h.computer_eq hpassive hreach.isSound, ?_,
    Debugger.run_of_nowhere⟩
  intro commands after program' other commands' after' h hother h' hpassive hsame hcycles
  rw [List.forall_mem_append] at hpassive
  rw [(h'.computer_eq hpassive.2 hother.isSound).2, (h.computer_eq hpassive.1 hreach.isSound).2,
    hsame, hcycles]

/-- Two steps from the start of a program are steps of the computer. -/
theorem debugging_transparent_of_step :
    ∃ session after, Reachable ⟨[21, 0], by decide, List.all_eq_true.mp rfl⟩ session ∧
      session.CarriesOut [.step 2] after ∧
      after.debugger.computer = session.debugger.computer.stepTimes
        (after.debugger.cycles - session.debugger.cycles) := by
  have hreach : Reachable ⟨[21, 0], by decide, List.all_eq_true.mp rfl⟩ (start _ [] ⟨[]⟩ {}) :=
    .start [] ⟨[]⟩ {} .flat
  have hcarries :=
    carriesOut_step (start ⟨[21, 0], by decide, List.all_eq_true.mp rfl⟩ [] ⟨[]⟩ {}) 2
  exact ⟨_, _, hreach, hcarries,
    ((debugging_transparent hreach).1 _ _ hcarries (by decide)).2⟩

end Session

end WordMachine
