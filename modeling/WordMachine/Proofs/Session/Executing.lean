import WordMachine.Session

/-!
# What commands do to the debugger

`executesTo_execute` says for each command what it can come to: it fails and leaves the debugger
alone, or it answers and the debugger is the one that the answer is about. The folder, which a dump
may change even when it fails, is not looked at.
-/

namespace WordMachine.Session

/-- What a command can come to: its result and the debugger behind it. -/
inductive ExecutesTo (host : Host) (folder : Folder) (debugger : Debugger) :
    Command → Except SessionError Response → Debugger → Prop where
  | fails {command : Command} {error : SessionError} :
      ExecutesTo host folder debugger command (.error error) debugger
  | run {budget : Nat} {stop : Stop} {after : Debugger}
      (hrun : debugger.run budget = some (stop, after)) :
      ExecutesTo host folder debugger .run (.ok (.stopped stop after.machine.pc after.cycles)) after
  | step {count : Nat} {stop : Stop} {after : Debugger}
      (hstep : debugger.step count = (stop, after)) :
      ExecutesTo host folder debugger (.step count)
        (.ok (.stopped stop after.machine.pc after.cycles)) after
  | reset : ExecutesTo host folder debugger .reset (.ok .reset) debugger.reset
  | view {target : Option Target} {first last : Option Word} {view : View}
      (hview : debugger.view target first last = .ok view) :
      ExecutesTo host folder debugger (.view target first last) (.ok (.shown view)) debugger
  | set {target : Target} {values : List Word} {after : Debugger}
      (hset : debugger.set target values = .ok after) :
      ExecutesTo host folder debugger (.set target values) (.ok (.set target)) after
  | dump {paths : DumpPaths} : ExecutesTo host folder debugger .dump (.ok (.dumped paths)) debugger
  | restore {path : String} {snapshot : Snapshot} {machine : Machine}
      (hload : loadSnapshot host folder path = .ok snapshot)
      (happly : snapshot.apply debugger.machine = .ok machine) :
      ExecutesTo host folder debugger (.restore path) (.ok (.restored path))
        (debugger.withMachine machine.resume)
  | breakpoint {address : Word} {after : Debugger}
      (hadd : debugger.addBreakpoint address = .ok after) :
      ExecutesTo host folder debugger (.breakpoint address) (.ok (.breakpoint address)) after
  | watch {address : Word} {after : Debugger}
      (hadd : debugger.addWatchpoint address = .ok after) :
      ExecutesTo host folder debugger (.watch address) (.ok (.watching address)) after
  | breakop {name : String} {opcode : Opcode} (hname : Debugger.findOpcode name = .ok opcode) :
      ExecutesTo host folder debugger (.breakop name) (.ok (.breakingOn opcode))
        (debugger.addBreakop opcode)

variable {session after : Session}

/-- Dumping changes nothing but the folder. -/
theorem dump_cases (session : Session) :
    ∃ folder, session.dump.2 = { session with folder } ∧
      (session.dump.1 = .ok (.dumped session.paths) ∨ ∃ error, session.dump.1 = .error error) := by
  unfold dump
  simp only
  split
  · exact ⟨session.folder, rfl, .inr ⟨_, rfl⟩⟩
  · split
    · exact ⟨_, rfl, .inr ⟨_, rfl⟩⟩
    · exact ⟨_, rfl, .inl rfl⟩

/-- What can be set is set, and the answer says so. -/
theorem execute_set (session : Session) (budget : Nat) {target : Target} {values : List Word}
    {debugger : Debugger} (hset : session.debugger.set target values = .ok debugger) :
    session.execute budget (.set target values) =
      some (.ok (.set target), { session with debugger }) := by
  rw [execute, hset]
  rfl

/-- What changes the debugger answers if it succeeds, and else leaves it alone. -/
theorem executesTo_changed (session : Session) {command : Command} {response : Response}
    {changes : Except DebugError Debugger}
    (hok : ∀ debugger, changes = .ok debugger →
      ExecutesTo session.host session.folder session.debugger command (.ok response) debugger) :
    ExecutesTo session.host session.folder session.debugger command
      (session.changed response changes).1 (session.changed response changes).2.debugger := by
  cases changes with
  | error error => exact .fails
  | ok debugger => exact hok debugger rfl

/-- Every command that is carried out comes to one of the cases. -/
theorem executesTo_execute {budget : Nat} {command : Command}
    {result : Except SessionError Response}
    (h : session.execute budget command = some (result, after)) :
    ExecutesTo session.host session.folder session.debugger command result after.debugger := by
  suffices hall : ∀ outcome, session.execute budget command = some outcome →
      ExecutesTo session.host session.folder session.debugger command outcome.1
        outcome.2.debugger from hall _ h
  intro outcome houtcome
  unfold execute at houtcome
  cases command with
  | run =>
    obtain ⟨⟨stop, ran⟩, hrun, rfl⟩ := Option.map_eq_some_iff.mp houtcome
    exact .run hrun
  | step count =>
    obtain rfl := Option.some.inj houtcome
    exact .step rfl
  | reset =>
    obtain rfl := Option.some.inj houtcome
    exact .reset
  | view target first last =>
    simp only at houtcome
    cases hview : session.debugger.view target first last with
    | error error =>
      rw [hview] at houtcome
      obtain rfl := Option.some.inj houtcome
      exact .fails
    | ok view =>
      rw [hview] at houtcome
      obtain rfl := Option.some.inj houtcome
      exact .view hview
  | set target values =>
    obtain rfl := Option.some.inj houtcome
    exact session.executesTo_changed fun _ hset => .set hset
  | dump =>
    obtain rfl := Option.some.inj houtcome
    obtain ⟨folder, hafter, hresult⟩ := session.dump_cases
    rw [hafter]
    rcases hresult with hresult | ⟨error, hresult⟩
    · rw [hresult]
      exact .dump
    · rw [hresult]
      exact .fails
  | restore path =>
    obtain rfl := Option.some.inj houtcome
    unfold restore
    cases hload : loadSnapshot session.host session.folder path with
    | error error => exact .fails
    | ok snapshot =>
      refine session.executesTo_changed fun debugger hchanged => ?_
      cases happly : snapshot.apply session.debugger.machine with
      | error fault =>
        rw [happly] at hchanged
        cases hchanged
      | ok machine =>
        rw [happly] at hchanged
        obtain rfl := Except.ok.inj hchanged
        exact .restore hload happly
  | breakpoint address =>
    obtain rfl := Option.some.inj houtcome
    exact session.executesTo_changed fun _ hadd => .breakpoint hadd
  | watch address =>
    obtain rfl := Option.some.inj houtcome
    exact session.executesTo_changed fun _ hadd => .watch hadd
  | breakop name =>
    simp only at houtcome
    cases hname : Debugger.findOpcode name with
    | error error =>
      rw [hname] at houtcome
      obtain rfl := Option.some.inj houtcome
      exact .fails
    | ok opcode =>
      rw [hname] at houtcome
      obtain rfl := Option.some.inj houtcome
      exact .breakop hname

end WordMachine.Session
