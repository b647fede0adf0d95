import WordMachine.Proofs.Debugger.Counting
import WordMachine.Proofs.Session.Series
import WordMachine.Proofs.Session.Stopping

/-!
# Resetting

A reset leaves nothing behind of the machine, and nothing changes but the machine. The session
behind it is the one that is newly made from the program, with the same console, stop conditions
and files, except that its debugger has counted steps before (`reset_eq_ahead`). The count takes no
part in what commands do (`execute_ahead`), so any series of commands comes to the same in both
(`reset_renews`).
-/

namespace WordMachine

/-- The response, with the count of steps, if it shows one, ahead by some steps. -/
def Response.ahead (offset : Nat) : Response → Response
  | .stopped stop pc cycles => .stopped stop pc (cycles + offset)
  | .shown view => .shown (view.ahead offset)
  | response => response

namespace Session

/-- The session with the count of its debugger ahead by some steps. -/
def ahead (offset : Nat) (session : Session) : Session :=
  { session with debugger := session.debugger.ahead offset }

/-- The session made newly from a program, with the console, the stop conditions, the folder, the
paths and the host of another. -/
def renewed (program : Program) (session : Session) : Session where
  debugger :=
    { computer := ⟨.start program, session.debugger.computer.console⟩
      program
      stops := session.debugger.stops
      cycles := 0 }
  folder := session.folder
  paths := session.paths
  host := session.host

/-! ## The count takes no part -/

/-- What a command comes to, with counts ahead by some steps. -/
def outcomeAhead (offset : Nat) :
    Except SessionError Response × Session → Except SessionError Response × Session :=
  Prod.map (Except.map (Response.ahead offset)) (ahead offset)

variable (offset : Nat) (session : Session)

/-- What changes the debugger comes to the same for any count, if the response shows none. -/
theorem changed_ahead {response : Response} (hresponse : response.ahead offset = response)
    {changes changes' : Except DebugError Debugger}
    (hchanges : changes' = changes.map (Debugger.ahead offset)) :
    (session.ahead offset).changed response changes' =
      outcomeAhead offset (session.changed response changes) := by
  subst hchanges
  cases changes with
  | error error => rfl
  | ok debugger => exact congrArg (fun shown => (Except.ok shown, _)) hresponse.symm

theorem dump_ahead : (session.ahead offset).dump = outcomeAhead offset session.dump := by
  obtain ⟨debugger, folder, paths, host⟩ := session
  simp only [dump, ahead, Debugger.machine_ahead]
  cases folder.write paths.snapshot (Snapshot.capture debugger.machine).toBytes host with
  | error error => rfl
  | ok written =>
    simp only
    cases Image.save written paths.core debugger.machine.memory.compact host <;> rfl

theorem restore_ahead (path : String) :
    (session.ahead offset).restore path = outcomeAhead offset (session.restore path) := by
  obtain ⟨debugger, folder, paths, host⟩ := session
  simp only [restore, ahead, Debugger.machine_ahead]
  cases loadSnapshot host folder path with
  | error error => rfl
  | ok snapshot =>
    simp only
    cases snapshot.apply debugger.machine <;> rfl

/-- A command comes to the same for any count, but for the count. -/
theorem execute_ahead (budget : Nat) (command : Command) :
    (session.ahead offset).execute budget command =
      (session.execute budget command).map (outcomeAhead offset) := by
  obtain ⟨debugger, folder, paths, host⟩ := session
  cases command with
  | run =>
    simp only [execute, ahead, Debugger.run_ahead, Option.map_map]
    rfl
  | step count =>
    simp only [execute, ahead, Debugger.step_ahead]
    rfl
  | reset => rfl
  | view target first last =>
    simp only [execute, ahead, Debugger.view_ahead]
    cases debugger.view target first last <;> rfl
  | set target values =>
    exact congrArg some (changed_ahead offset _ rfl (debugger.set_ahead offset target values))
  | dump => exact congrArg some (dump_ahead offset _)
  | restore path => exact congrArg some (restore_ahead offset _ path)
  | breakpoint address =>
    exact congrArg some (changed_ahead offset _ rfl (debugger.addBreakpoint_ahead offset address))
  | watch address =>
    exact congrArg some (changed_ahead offset _ rfl (debugger.addWatchpoint_ahead offset address))
  | breakop name =>
    simp only [execute]
    cases Debugger.findOpcode name <;> rfl

/-- A series of commands comes to the same for any count, but for the count. -/
theorem executeAll_ahead (budget : Nat) (commands : List Command) :
    (session.ahead offset).executeAll budget commands =
      (session.executeAll budget commands).map
        (Prod.map (List.map (Except.map (Response.ahead offset))) (ahead offset)) :=
  inTurn_comm (fun session command => session.execute_ahead offset budget command) commands session

/-! ## Resets -/

variable {session} {program : Program}

/-- A reset gives a new machine and leaves the rest alone. -/
theorem reset_eq_ahead (hsound : session.debugger.IsSound program) (budget : Nat) :
    session.execute budget .reset =
      some (.ok .reset, (session.renewed program).ahead session.debugger.cycles) := by
  obtain rfl := hsound.program_eq
  obtain ⟨⟨computer, program, stops, cycles⟩, folder, paths, host⟩ := session
  simp only [ahead, renewed, Debugger.ahead, Nat.zero_add]
  rfl

/-- A reset renews the session. It always succeeds, and from then on every series of commands comes
to what it comes to in a session that is newly made from the program, with the same console, stop
conditions, files and paths: the same responses, machines, consoles and files, and no answer in the
same cases. Only the count of steps is ahead by what was counted before the reset. -/
theorem reset_renews (hreach : Reachable program session) (budget : Nat) :
    ∃ after, session.execute budget .reset = some (.ok .reset, after) ∧
      ∀ budget commands, after.executeAll budget commands =
        ((session.renewed program).executeAll budget commands).map fun (results, last) =>
          (results.map (Except.map (Response.ahead session.debugger.cycles)),
            last.ahead session.debugger.cycles) :=
  ⟨_, reset_eq_ahead hreach.isSound budget, executeAll_ahead _ _⟩

/-- A step before the reset is still counted behind it. -/
theorem reset_renews_of_step :
    ∃ session after, Reachable ⟨[21, 0], by decide, List.all_eq_true.mp rfl⟩ session ∧
      session.execute 0 .reset = some (.ok .reset, after) ∧
      after.executeAll 0 [.view (some .cycles) none none] =
        some ([.ok (.shown (.cycles 1))], after) := by
  let begun := start ⟨[21, 0], by decide, List.all_eq_true.mp rfl⟩ [] ⟨[]⟩ {}
  have hnoop : begun.debugger.computer.step =
      (.continued, begun.debugger.computer.goTo (0 + 1)) :=
    Computer.step_noop rfl (Memory.word?_ofProgram _ 0)
  have hstep : begun.debugger.step 1 = (.stepped, begun.debugger.behind 1 .stepped) := by
    have hadvance : begun.debugger.advance = (none, begun.debugger.behind 1 .stepped) :=
      (Debugger.advance_of_step rfl hnoop).trans
        (congrArg (·, begun.debugger.behind 1 .stepped) (Debugger.reason?_nowhere _))
    rw [Debugger.step, hadvance]
    rfl
  have hexecute : begun.execute 0 (.step 1) =
      some (stopped ⟨[]⟩ {} .flat (begun.debugger.step 1)) := rfl
  rw [hstep] at hexecute
  have hreach := Reachable.execute (.start [] ⟨[]⟩ {} .flat) hexecute
  obtain ⟨after, hreset, hsame⟩ := reset_renews hreach 0
  refine ⟨_, after, hreach, hreset, ?_⟩
  -- the session behind the reset is named by the series without commands
  obtain rfl := congrArg Prod.snd (Option.some.inj (hsame 0 []))
  exact hsame 0 [.view (some .cycles) none none]

end Session

end WordMachine
