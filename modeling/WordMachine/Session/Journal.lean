import WordMachine.Computer.Journal
import WordMachine.Session.Script

/-!
# The journal of a session

Each step, why execution stopped, and what commands changed. Commands that fail or only show
something record nothing.
-/

namespace WordMachine

/-- What running records until there is a reason to stop, but for at most `limit` steps, in front
of what is recorded already, the last entry first. -/
def Debugger.journalOnto (entries : List Entry) (debugger : Debugger) : (limit : Nat) → List Entry
  | 0 => entries
  | limit + 1 =>
    let entries := debugger.computer.journalStep ++ entries
    match debugger.advance with
    | (none, after) => journalOnto entries after limit
    | (some stop, after) =>
      ⟨.debug, .debugger, s!"stopped at {after.machine.pc}: {stop.message}"⟩ :: entries

/-- What running for at most `limit` steps records. -/
def Debugger.journal (debugger : Debugger) (limit : Nat) : List Entry :=
  (debugger.journalOnto [] limit).reverse

namespace Response

/-- What a change records. -/
def change? : Response → List Word → Option String
  | .stopped .., _ | .shown _, _ => none
  | .reset, _ => some "machine reset"
  | .set target, values =>
    let items := String.intercalate ", " (values.map toString)
    some s!"{target.name} set to [{items}]"
  | .dumped paths, _ => some s!"dumped state to {paths.snapshot} and core to {paths.core}"
  | .restored path, _ => some s!"restored state from {path}"
  | .breakpoint address, _ => some s!"breakpoint at {address}"
  | .watching address, _ => some s!"watching {address}"
  | .breakingOn opcode, _ => some s!"breaking on {opcode.mnemonic}"

end Response

/-- The values a command sets. -/
def Command.values : Command → List Word
  | .set _ values => values
  | _ => []

namespace Session

/-- What a command records. -/
def journalExecute (session : Session) (budget : Nat) (command : Command) : List Entry :=
  match command with
  | .run => session.debugger.journal budget
  | .step count => session.debugger.journal count
  | _ =>
    match session.execute budget command with
    | some (.ok response, _) =>
      (response.change? command.values).toList.map fun message => ⟨.info, .debugger, message⟩
    | _ => []

/-- What a line of text records. -/
def journalDispatch (session : Session) (budget : Nat) (line : String) : List Entry :=
  match Command.ofLine line with
  | .ok command => session.journalExecute budget command
  | .error _ => []

/-- What the lines of a script record, in front of what is recorded already, the last entry
first. -/
def journalPlayOnto (entries : List Entry) (session : Session) (budget : Nat) :
    List (List Char) → List Entry
  | [] => ended session entries
  | line :: rest =>
    match ScriptLine.ofText line with
    | .blank => journalPlayOnto entries session budget rest
    | .leave => ended session entries
    | .command text =>
      match session.dispatch budget text with
      | none => entries
      | some (_, after) =>
        journalPlayOnto ((session.journalDispatch budget text).reverse ++ entries) after budget rest
where
  /-- The entry for the end of the session. -/
  ended (session : Session) (entries : List Entry) : List Entry :=
    ⟨.info, .session, s!"debug session ended after {session.debugger.cycles} cycles"⟩ :: entries

/-- What a script records. -/
def journalPlay (session : Session) (budget : Nat) (script : String) : List Entry :=
  ⟨.info, .session, "debug session started"⟩ ::
    (session.journalPlayOnto [] budget (Text.lines script.toList)).reverse

end Session

end WordMachine
