/-!
# Arguments of the command line tools

Arguments that start with a dash are options, up to the first `--`; the others are taken by
position. The value of an option is the argument behind it, whatever it looks like, and an option
with a value may be given once. Anything unexpected is refused.
-/

namespace WordMachine

/-- The command line tools. -/
inductive Tool where
  /-- Assembles a text into an image. -/
  | assemble
  /-- Turns an image back into a text. -/
  | disassemble
  /-- Lists the texts that an image prints. -/
  | strings
  /-- Runs an image, perhaps under the debugger. -/
  | emulate
  deriving DecidableEq, Repr

/-- An option with a value. -/
inductive Setting where
  | logLevel
  /-- The file whose bytes the program reads first. -/
  | input
  /-- Where a dump writes the snapshot. -/
  | snapshot
  /-- Where a dump writes the memory. -/
  | core
  deriving DecidableEq, Repr

namespace Tool

/-- The name of a tool. -/
def name : Tool → String
  | assemble => "asm"
  | disassemble => "disasm"
  | strings => "strings"
  | emulate => "emu"

/-- The tool with a name. -/
def ofName? (text : String) : Option Tool :=
  [assemble, disassemble, strings, emulate].find? (fun tool => tool.name == text)

/-- The largest number of arguments that are taken by position. The first one must be given. -/
def maxOperands : Tool → Nat
  | assemble | disassemble => 2
  | strings | emulate => 1

/-- The option with a value that an argument names. -/
def setting? (tool : Tool) (argument : String) : Option Setting :=
  if argument = "--log-level" then some .logLevel
  else if tool ≠ .emulate then none
  else if argument = "--input" || argument = "-i" then some .input
  else if argument = "--snapshot" then some .snapshot
  else if argument = "--core" then some .core
  else none

/-- The argument asks for the debugger. -/
def isDebugFlag (tool : Tool) (argument : String) : Bool :=
  tool = .emulate && (argument = "--debug" || argument = "-d")

end Tool

/-- The text is a value that an option takes. -/
def Setting.accepts (setting : Setting) (value : String) : Bool :=
  match setting with
  | .logLevel => ["off", "error", "warn", "info", "debug", "trace"].contains value.toLower
  | .input | .snapshot | .core => true

/-- The arguments of a tool, sorted out. -/
structure Arguments where
  /-- The arguments taken by position. -/
  operands : List String := []
  settings : List (Setting × String) := []
  debug : Bool := false
  /-- The tool is asked how it is used, and for nothing else. -/
  help : Bool := false
  deriving DecidableEq, Repr

namespace Arguments

/-- The value of an option, if it was given. -/
def value? (arguments : Arguments) (setting : Setting) : Option String :=
  arguments.settings.lookup setting

/-- Takes an argument by position, unless there are enough of them. -/
def addOperand? (tool : Tool) (arguments : Arguments) (text : String) : Option Arguments :=
  if arguments.operands.length < tool.maxOperands then
    some { arguments with operands := arguments.operands ++ [text] }
  else none

/-- Takes an option and its value, unless it has one or does not take this one. -/
def addSetting? (arguments : Arguments) (setting : Setting) (value : String) : Option Arguments :=
  if (arguments.value? setting).isNone && setting.accepts value then
    some { arguments with settings := (setting, value) :: arguments.settings }
  else none

/-- Sorts out arguments behind those already sorted out. -/
def readOnto (tool : Tool) (arguments : Arguments) (optionsEnded : Bool) : List String → Option Arguments
  | [] => some arguments
  | text :: rest =>
    if optionsEnded then
      (addOperand? tool arguments text).bind fun arguments => readOnto tool arguments true rest
    else if text = "--help" || text = "help" then
      readOnto tool { arguments with help := true } false rest
    else if text = "--" then readOnto tool arguments true rest
    else if !text.startsWith "-" then
      (addOperand? tool arguments text).bind fun arguments => readOnto tool arguments false rest
    else if arguments.help then none
    else if tool.isDebugFlag text then readOnto tool { arguments with debug := true } false rest
    else
      match tool.setting? text, rest with
      | some setting, value :: rest =>
        (arguments.addSetting? setting value).bind fun arguments => readOnto tool arguments false rest
      | _, _ => none

/-- Sorts out the arguments of a tool, if nothing is wrong with them. -/
def read? (tool : Tool) (texts : List String) : Option Arguments := readOnto tool {} false texts

end Arguments

end WordMachine
