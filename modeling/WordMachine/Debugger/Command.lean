import WordMachine.Debugger.Target
import WordMachine.Text.Blank
import WordMachine.Text.Numeral
import WordMachine.Word

/-!
# Commands

What can be asked of a debugger, and how it is written: the name of a command and its arguments,
separated by blanks. The first thing that is wrong is reported, in this order: no words at all, an
unknown command, too many arguments, a missing argument, and then the arguments from left to right.
-/

namespace WordMachine

/-- The name of a command. -/
inductive Verb where
  | run
  | reset
  | step
  | view
  | set
  | dump
  | restore
  | breakpoint
  | watch
  | breakop
  deriving DecidableEq, Repr

namespace Verb

/-- Every verb. -/
def all : List Verb := [run, reset, step, view, set, dump, restore, breakpoint, watch, breakop]

/-- A verb as it is typed. -/
def name : Verb → String
  | run => "run"
  | reset => "reset"
  | step => "step"
  | view => "show"
  | set => "set"
  | dump => "dump"
  | restore => "restore"
  | breakpoint => "breakpoint"
  | watch => "watch"
  | breakop => "breakop"

/-- The verb that is typed as the given text. -/
def ofName? (text : String) : Option Verb := all.find? (fun verb => verb.name == text)

/-- The largest number of arguments; `set` has no limit. -/
def maxArguments? : Verb → Option Nat
  | run | reset | dump => some 0
  | step | restore | breakpoint | watch | breakop => some 1
  | view => some 3
  | set => none

/-- What the first argument is, where it must be given. -/
def needed : Verb → String
  | set => "a target"
  | restore => "a path"
  | breakpoint | watch => "an address"
  | breakop => "an opcode"
  | run | reset | dump | step | view => "nothing"

@[simp] theorem ofName?_name (verb : Verb) : ofName? verb.name = some verb := by
  cases verb <;> decide

/-- A text is at most one verb, and is then its name. -/
theorem ofName?_eq_some_iff {text : String} {verb : Verb} :
    ofName? text = some verb ↔ text = verb.name := by
  constructor
  · intro h
    have := List.find?_some h
    simpa using (beq_iff_eq.1 this).symm
  · rintro rfl; exact ofName?_name verb

end Verb

/-- A command with its arguments. -/
inductive Command where
  | run
  | reset
  | step (count : Nat)
  /-- Show a target, or the state of the machine. Only memory takes a range. -/
  | view (target : Option Target) (first last : Option Word)
  | set (target : Target) (values : List Word)
  | dump
  | restore (path : String)
  | breakpoint (address : Word)
  | watch (address : Word)
  | breakop (name : String)
  deriving DecidableEq, Repr

/-- Why a line is no command. -/
inductive CommandError where
  /-- The line has no words. -/
  | empty
  | unknown (word : String)
  | missing (verb : Verb)
  | tooManyArguments (verb : Verb) (limit : Nat)
  | unknownTarget (text : String)
  /-- The text is no number, or one that is too large. -/
  | invalidNumber (text : String)
  deriving DecidableEq, Repr

/-- The wording of a command error. -/
def CommandError.message : CommandError → String
  | .empty => "empty command"
  | .unknown word => s!"unknown command `{word}`"
  | .missing verb => s!"`{verb.name}` needs {verb.needed}"
  | .tooManyArguments verb limit => s!"`{verb.name}` takes at most {limit} arguments"
  | .unknownTarget text => s!"unknown target `{text}`"
  | .invalidNumber text => s!"failed to parse number `{text}`"

namespace Command

/-- Reads a number of at most the given number of bits. -/
def readNumber (bits : Nat) (text : String) : Except CommandError Nat :=
  match Text.Numeral.ofMarked? (1 <<< bits) text.toList with
  | some value => .ok value
  | none => .error (.invalidNumber text)

/-- Reads a word. -/
def readWord (text : String) : Except CommandError Word := UInt16.ofNat <$> readNumber 16 text

/-- Reads words, up to the first one that is none. -/
def readWords : List String → Except CommandError (List Word)
  | [] => .ok []
  | text :: texts => do
    let word ← readWord text
    return word :: (← readWords texts)

/-- Reads a target. -/
def readTarget (text : String) : Except CommandError Target :=
  match Target.ofName? text with
  | some target => .ok target
  | none => .error (.unknownTarget text)

/-- Reads an argument that may be left out. -/
def readOptional {α : Type} (read : String → Except CommandError α) :
    Option String → Except CommandError (Option α)
  | none => .ok none
  | some text => some <$> read text

/-- The first argument, which must be there. -/
def firstArgument (verb : Verb) : List String → Except CommandError String
  | [] => .error (.missing verb)
  | text :: _ => .ok text

/-- Reads the arguments of a command, when there are not too many. -/
def readArguments (verb : Verb) (arguments : List String) : Except CommandError Command :=
  match verb with
  | .run => return .run
  | .reset => return .reset
  | .dump => return .dump
  | .step => do
    let count ← readOptional (readNumber 64) arguments[0]?
    return .step (count.getD 1)
  | .view => do
    let target ← readOptional readTarget arguments[0]?
    let first ← readOptional readWord arguments[1]?
    let last ← readOptional readWord arguments[2]?
    return .view target first last
  | .set => do
    let target ← readTarget (← firstArgument .set arguments)
    return .set target (← readWords arguments.tail)
  | .restore => return .restore (← firstArgument .restore arguments)
  | .breakpoint => return .breakpoint (← readWord (← firstArgument .breakpoint arguments))
  | .watch => return .watch (← readWord (← firstArgument .watch arguments))
  | .breakop => return .breakop (← firstArgument .breakop arguments)

/-- Reads a command from its words. -/
def ofWords : List String → Except CommandError Command
  | [] => .error .empty
  | word :: arguments =>
    match Verb.ofName? word with
    | none => .error (.unknown word)
    | some verb =>
      match verb.maxArguments?.filter (· < arguments.length) with
      | some limit => .error (.tooManyArguments verb limit)
      | none => readArguments verb arguments

/-- Reads a command from a line. -/
def ofLine (line : String) : Except CommandError Command :=
  ofWords ((Text.words line.toList).map String.ofList)

end Command

end WordMachine
