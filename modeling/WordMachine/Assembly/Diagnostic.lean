/-!
# Diagnostics

What can be wrong with an assembly text, as causes, and the wording of each in one place.
-/

namespace WordMachine.Assembly

/-- Why a token has no word or no address. -/
inductive Cause where
  /-- A number above the largest word. -/
  | numberTooLarge (text : String)
  /-- A register above the eighth. -/
  | noSuchRegister (text : String)
  /-- A quoted character that is not closed. -/
  | unclosedCharacter (text : String)
  /-- A quoted character with a code point above the largest word. -/
  | characterTooLarge (codePoint : Nat)
  | badLabel (name : String)
  | duplicateLabel (name : String)
  /-- A word that is neither a label nor a mnemonic. -/
  | unknownWord (text : String)
  /-- More words than memory has cells. -/
  | tooManyWords (count : Nat)
  deriving DecidableEq, Repr

/-- A cause and the line it was found on. -/
structure Diagnostic where
  line : Nat
  cause : Cause
  deriving DecidableEq, Repr

/-- The class of a cause, as it is shown first. -/
def Cause.summary : Cause → String
  | .numberTooLarge _ => "invalid literal"
  | .noSuchRegister _ => "invalid register"
  | .unclosedCharacter _ | .characterTooLarge _ => "invalid character literal"
  | .badLabel _ => "invalid label"
  | .duplicateLabel _ => "label defined twice"
  | .unknownWord _ => "unknown label or instruction"
  | .tooManyWords _ => "program does not fit into memory"

/-- What a cause is about, as it is shown after its class. -/
def Cause.detail : Cause → String
  | .numberTooLarge text => s!"`{text}` is larger than 32775"
  | .noSuchRegister text => s!"`{text}` does not exist"
  | .unclosedCharacter text => s!"unterminated character literal `{text}`"
  | .characterTooLarge codePoint => s!"code point {codePoint} does not fit into a word"
  | .badLabel name => s!"`{name}` is not a valid label name"
  | .duplicateLabel name => s!"`{name}`"
  | .unknownWord text => s!"`{text}`"
  | .tooManyWords count => s!"{count} words"

/-- The wording of a diagnostic. -/
def Diagnostic.message (diagnostic : Diagnostic) : String :=
  s!"error [ln: {diagnostic.line}]: {diagnostic.cause.summary} - {diagnostic.cause.detail}"

end WordMachine.Assembly
