/-!
# The journal

A record of what the parts of the toolchain do, entry by entry. Entries are worked out from the
state that they describe, beside the work itself, so that nothing depends on whether a journal is
kept.
-/

namespace WordMachine

/-- How much an entry matters. -/
inductive Level where
  | error
  | info
  | debug
  deriving DecidableEq, Repr

/-- The name of a level. -/
def Level.name : Level → String
  | .error => "ERROR"
  | .info => "INFO"
  | .debug => "DEBUG"

/-- The part of the toolchain that an entry comes from. -/
inductive Origin where
  | processor
  | assembler
  | disassembler
  | debugger
  | session
  deriving DecidableEq, Repr

/-- The name of a part. -/
def Origin.name : Origin → String
  | .processor => "processor"
  | .assembler => "assembler"
  | .disassembler => "disassembler"
  | .debugger => "debugger"
  | .session => "session"

/-- An entry of the journal. -/
structure Entry where
  level : Level
  origin : Origin
  message : String
  deriving DecidableEq, Repr

/-- An entry on one line. -/
def Entry.text (entry : Entry) : String :=
  s!"{entry.level.name} {entry.origin.name}: {entry.message}"

end WordMachine
