import WordMachine.Debugger
import WordMachine.Debugger.Command
import WordMachine.Folder
import WordMachine.Snapshot.Reader
import WordMachine.Snapshot.Writer

/-!
# Sessions

A debugger together with the folder that it dumps to and restores from, and the host that the folder
is on. `Session.execute` carries out a command, and `Session.dispatch` a line of text, which it
answers with a line of text.

A command that fails leaves the debugger as it was. The folder may have changed: a dump whose
second file cannot be written has written the first.
-/

namespace WordMachine

/-- Where a dump goes. -/
structure DumpPaths where
  /-- Program counter, registers and stack. -/
  snapshot : String := "snapshot.json"
  /-- The written memory cells, without their addresses. -/
  core : String := "core.bin"
  deriving DecidableEq, Repr

/-- A debugger and its files. -/
structure Session where
  debugger : Debugger
  folder : Folder
  paths : DumpPaths
  host : Host

/-- What is wrong with a file that holds no snapshot. -/
structure Snapshot.Defect where
  problem : Json.Problem
  /-- What the host says about it. -/
  detail : Option String
  deriving DecidableEq, Repr

/-- Where only the kind of the problem matters, a defect stands for it. -/
instance : Coe Snapshot.Defect Json.Problem := ⟨Snapshot.Defect.problem⟩

/-- Why a command was not carried out. -/
inductive SessionError where
  | debugger (error : DebugError)
  | file (error : FileError)
  /-- A file that holds no snapshot. -/
  | snapshot (defect : Snapshot.Defect)
  deriving DecidableEq, Repr

/-- The wording of a session's error. -/
def SessionError.message : SessionError → String
  | .debugger error => error.message
  | .file error => s!"i/o error: {error.message}"
  | .snapshot ⟨_, some detail⟩ => s!"snapshot error: {detail}"
  | .snapshot ⟨_, none⟩ => "snapshot error"

/-- What a command came to. -/
inductive Response where
  /-- Execution stopped. -/
  | stopped (stop : Stop) (pc : Word) (cycles : Nat)
  | shown (view : View)
  | reset
  | set (target : Target)
  | dumped (paths : DumpPaths)
  | restored (path : String)
  | breakpoint (address : Word)
  | watching (address : Word)
  | breakingOn (opcode : Opcode)
  deriving DecidableEq, Repr

/-- A response as text. -/
def Response.text : Response → String
  | .stopped stop pc cycles => s!"{stop.message} (pc {pc}, cycle {cycles})"
  | .shown view => view.text
  | .reset => "machine reset"
  | .set target => s!"{target.name} set"
  | .dumped paths => s!"state written to {paths.snapshot}, core written to {paths.core}"
  | .restored path => s!"state restored from {path}"
  | .breakpoint address => s!"breakpoint at {address}"
  | .watching address => s!"watching {address}"
  | .breakingOn opcode => s!"breaking on {opcode.mnemonic}"

namespace Session

/-- A session on a program that has not been started. -/
def start (program : Program) (input : List UInt8) (folder : Folder) (paths : DumpPaths)
    (host : Host := .flat) : Session where
  debugger := .start program input
  folder
  paths
  host

/-- What running came to. -/
def stopped (folder : Folder) (paths : DumpPaths) (host : Host) :
    Stop × Debugger → Except SessionError Response × Session
  | (stop, debugger) =>
    (.ok (.stopped stop debugger.machine.pc debugger.cycles), ⟨debugger, folder, paths, host⟩)

/-- What changing the debugger came to. -/
def changed (session : Session) (response : Response) :
    Except DebugError Debugger → Except SessionError Response × Session
  | .ok debugger => (.ok response, { session with debugger })
  | .error error => (.error (.debugger error), session)

/-- Writes the snapshot of the machine, then its memory. -/
def dump (session : Session) : Except SessionError Response × Session :=
  let machine := session.debugger.machine
  let snapshot := Snapshot.capture machine
  match session.folder.write session.paths.snapshot snapshot.toBytes session.host with
  | .error error => (.error (.file error), session)
  | .ok folder =>
    match Image.save folder session.paths.core machine.memory.compact session.host with
    | .error error => (.error (.file error), { session with folder })
    | .ok folder => (.ok (.dumped session.paths), { session with folder })

/-- Reads the snapshot that a path leads to. -/
def loadSnapshot (host : Host) (folder : Folder) (path : String) : Except SessionError Snapshot :=
  match folder.read path host with
  | .error error => .error (.file error)
  | .ok bytes =>
    (Snapshot.ofBytes bytes).mapError fun problem => .snapshot ⟨problem, host.explain bytes⟩

/-- Puts a snapshot from a file into the machine, which can then run again if it was halted. -/
def restore (session : Session) (path : String) : Except SessionError Response × Session :=
  match loadSnapshot session.host session.folder path with
  | .error error => (.error error, session)
  | .ok snapshot =>
    session.changed (.restored path) <|
      match snapshot.apply session.debugger.machine with
      | .ok machine => .ok (session.debugger.withMachine machine.resume)
      | .error fault => .error (.fault fault)

/-- Carries out a command. There is no answer if the command runs the machine and the budget of
steps runs out first. -/
def execute (session : Session) (budget : Nat) (command : Command) :
    Option (Except SessionError Response × Session) :=
  match command with
  | .run =>
    match session with
    | ⟨debugger, folder, paths, host⟩ => (debugger.run budget).map (stopped folder paths host)
  | .step count =>
    match session with
    | ⟨debugger, folder, paths, host⟩ => some (stopped folder paths host (debugger.step count))
  | .reset => some (session.changed .reset (.ok session.debugger.reset))
  | .view target first last =>
    match session.debugger.view target first last with
    | .ok view => some (.ok (.shown view), session)
    | .error error => some (.error (.debugger error), session)
  | .set target values => some (session.changed (.set target) (session.debugger.set target values))
  | .dump => some session.dump
  | .restore path => some (session.restore path)
  | .breakpoint address =>
    some (session.changed (.breakpoint address) (session.debugger.addBreakpoint address))
  | .watch address =>
    some (session.changed (.watching address) (session.debugger.addWatchpoint address))
  | .breakop name =>
    match Debugger.findOpcode name with
    | .ok opcode => some (session.changed (.breakingOn opcode) (.ok (session.debugger.addBreakop opcode)))
    | .error error => some (.error (.debugger error), session)

/-- What a command came to, as text. -/
def replyText : Except SessionError Response → String
  | .ok response => response.text
  | .error error => s!"error: {error.message}"

/-- Carries out a line of text, and answers it. -/
def dispatch (session : Session) (budget : Nat) (line : String) : Option (String × Session) :=
  match Command.ofLine line with
  | .error error => some (s!"error: {error.message}", session)
  | .ok command => (session.execute budget command).map fun (result, after) => (replyText result, after)

end Session

end WordMachine
