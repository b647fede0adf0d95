import WordMachine.Assembly
import WordMachine.Computer.Run
import WordMachine.Listing.Text
import WordMachine.PrintedText
import WordMachine.Session.Script
import WordMachine.Tool.Arguments

/-!
# The command line tools

What a tool does with its arguments, its standard input and the files of the folder it is started
in: what it prints, which files it leaves behind, and whether it succeeds. A tool that fails may
have printed something before. Its paths lead where the host says.

The emulator needs a budget of steps, and has no result if the program does not end within it.
-/

namespace WordMachine

/-- What a tool came to. -/
structure ToolResult where
  succeeded : Bool
  stdout : String := ""
  stderr : String := ""
  folder : Folder
  deriving DecidableEq, Repr

namespace Tool

/-- The result of a tool that did nothing but fail. -/
def failed (folder : Folder) : ToolResult := { succeeded := false, folder }

/-- The result of a tool that printed a text. -/
def printed (text : String) (folder : Folder) : ToolResult :=
  { succeeded := true, stdout := text, folder }

/-- The result of a tool that wrote a file at last. -/
def wrote (before : Folder) : Except FileError Folder → ToolResult
  | .ok folder => { succeeded := true, folder }
  | .error _ => failed before

/-- The path of the image that is made from the file at a path: the extension of the file's name, if
it has one, is replaced by `bin`. A dot at the start of the name does not start an extension. What
is left of a name such as `..x` without its extension is `..`, which is the folder above and takes
no other extension. -/
def imagePath (path : String) : String :=
  let reversed := path.toList.reverse
  let name := reversed.takeWhile (· != '/')
  let parents := reversed.dropWhile (· != '/')
  let stem := (name.dropWhile (· != '.')).tail
  if stem = ['.'] then String.ofList (['.', '.'] ++ parents).reverse
  else String.ofList ((if stem.isEmpty then name else stem) ++ parents).reverse ++ ".bin"

/-- Assembles a file into an image. -/
def runAssemble (folder : Folder) (source : String) (target : Option String) (host : Host) :
    ToolResult :=
  match (folder.read source host).toOption.bind Text.Utf8.decode? with
  | none => failed folder
  | some text =>
    match WordMachine.assemble text with
    | .error _ => failed folder
    | .ok words => wrote folder (Image.save folder (target.getD (imagePath source)) words host)

/-- Turns an image into a text, which is printed or written to a file. -/
def runDisassemble (folder : Folder) (source : String) (target : Option String) (host : Host) :
    ToolResult :=
  match Image.load folder source host with
  | .error _ => failed folder
  | .ok words =>
    let text := WordMachine.disassemble words
    match target with
    | none => printed text folder
    | some path => wrote folder (folder.write path (Text.Utf8.encode text) host)

/-- Prints the texts of an image, each on a line of its own. -/
def runStrings (folder : Folder) (source : String) (host : Host) : ToolResult :=
  match Image.load folder source host with
  | .error _ => failed folder
  | .ok words => printed (String.join ((PrintedText.find words).map (· ++ "\n"))) folder

/-- Runs a program to its end. -/
def runProgram (budget : Nat) (folder : Folder) (program : Program) (input : List UInt8) :
    Option ToolResult :=
  ((Computer.start program input).run budget).map fun (ending, computer) =>
    let stdout := computer.console.outputText
    match ending with
    | .ok halt =>
      { succeeded := true, stdout, stderr := s!"{halt.message} at {computer.machine.pc}\n", folder }
    | .error _ => { succeeded := false, stdout, folder }

/-- The bytes up to the first newline, which is included. -/
def firstLine (bytes : List UInt8) : List UInt8 :=
  bytes.takeWhile (· != 0x0a) ++ (bytes.dropWhile (· != 0x0a)).take 1

/-- The session with other bytes for the program to read. -/
def withInput (session : Session) (input : List UInt8) : Session :=
  let computer := session.debugger.computer
  let console := { computer.console with input }
  { session with debugger := { session.debugger with computer := { computer with console } } }

/-- Parts what is left of an input into what is left of the bytes queued in front of it and what is
left of the `rest` behind them, when it was read from the front. -/
def partInput (queued rest left : List UInt8) : List UInt8 × List UInt8 :=
  if queued.isEmpty then ([], left) else left.splitAt (left.length - rest.length)

/-- Goes on with a session that reads its lines from standard input, where the program reads its
input too. The queued bytes come first for the program, and are no lines. Each round takes a line
and none adds to the input, so that its length is fuel enough. -/
def converse (budget : Nat) (stdout : String) (session : Session) (queued stdin : List UInt8) :
    (fuel : Nat) → Option ToolResult
  | 0 => none
  | fuel + 1 =>
    let line := firstLine stdin
    let rest := stdin.drop line.length
    let stdout := stdout ++ Session.prompt
    let ended (succeeded : Bool) (stdout : String) : Option ToolResult :=
      some { succeeded, stdout, folder := session.folder }
    if line.isEmpty then ended true (stdout ++ "\n")
    else
      match Text.Utf8.decode? line with
      | none => ended false stdout
      | some text =>
        match ScriptLine.ofText text.toList with
        | .blank => converse budget stdout session queued rest fuel
        | .leave => ended true stdout
        | .command text =>
          let printed := session.debugger.computer.console.output.size
          match (withInput session (queued ++ rest)).dispatch budget text with
          | none => none
          | some (reply, after) =>
            let console := after.debugger.computer.console
            let shown := (console.output.extract printed console.output.size).toList
            let (queued, stdin) := partInput queued rest console.input
            converse budget (stdout ++ Text.Utf8.decodeLossy shown ++ reply ++ "\n") after queued stdin
              fuel

/-- Runs an image, on its own or under the debugger. -/
def runEmulate (budget : Nat) (folder : Folder) (arguments : Arguments) (image : String)
    (stdin : List UInt8) (host : Host) : Option ToolResult :=
  let queued :=
    match arguments.value? .input with
    | none => some []
    | some path => (folder.read path host).toOption
  match (Image.load folder image host).toOption.bind (Program.ofWords · |>.toOption), queued with
  | some program, some queued =>
    if arguments.debug then
      let defaults : DumpPaths := {}
      let paths : DumpPaths :=
        { snapshot := (arguments.value? .snapshot).getD defaults.snapshot
          core := (arguments.value? .core).getD defaults.core }
      converse budget "" (.start program [] folder paths host) queued stdin (stdin.length + 1)
    else runProgram budget folder program (queued ++ stdin)
  | _, _ => some (failed folder)

/-- How a tool is used. -/
def usage (tool : Tool) : String :=
  match tool with
  | .assemble => "usage: asm [--log-level LEVEL] SOURCE [IMAGE]\n"
  | .disassemble => "usage: disasm [--log-level LEVEL] IMAGE [TEXT]\n"
  | .strings => "usage: strings [--log-level LEVEL] IMAGE\n"
  | .emulate =>
    "usage: emu [-d] [-i FILE] [--snapshot FILE] [--core FILE] [--log-level LEVEL] IMAGE\n"

/-- Runs a tool. -/
def run (tool : Tool) (budget : Nat) (texts : List String) (folder : Folder) (stdin : List UInt8)
    (host : Host := .flat) : Option ToolResult :=
  match Arguments.read? tool texts with
  | none => some (failed folder)
  | some arguments =>
    if arguments.help then some (printed tool.usage folder)
    else
      match tool, arguments.operands with
      | _, [] => some (failed folder)
      | .assemble, source :: rest => some (runAssemble folder source rest.head? host)
      | .disassemble, source :: rest => some (runDisassemble folder source rest.head? host)
      | .strings, source :: _ => some (runStrings folder source host)
      | .emulate, image :: _ => runEmulate budget folder arguments image stdin host

end Tool

end WordMachine
