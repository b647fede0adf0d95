import WordMachine.Assembly.Labels
import WordMachine.Opcode

/-!
# Assembling

Every word token and every quoted character becomes one word, in order. A word token is read by
its spelling: as a number, as a register, or as a name, which is a label if one is defined and
else a mnemonic.

All diagnostics are collected. They are listed by line; on one line unclosed characters come
first, then labels, then words and characters, then the size of the program.
-/

namespace WordMachine

/-- What assembling a text came to. -/
structure Assembly where
  labels : Assembly.Labels
  /-- The words of the tokens that have one. -/
  words : List Word
  /-- Everything that is wrong, in the order it is shown. -/
  diagnostics : List Assembly.Diagnostic

namespace Assembly

/-- What a word token looks like, before any label is looked up. -/
inductive Spelling where
  /-- A number, and its value unless it is too large for a word. -/
  | number (value : Option Nat)
  /-- A register, and its index unless there is no such register. -/
  | register (index : Option Nat)
  | name
  deriving DecidableEq, Repr

/-- How a word token is spelled: decimal digits only, the letter `r` and decimal digits, or
anything else. -/
def Spelling.ofText (text : String) : Spelling :=
  match text.toList with
  | 'r' :: c :: rest =>
    if (c :: rest).all Text.Numeral.isDecimalDigit then
      .register (Text.Numeral.ofDigits? 8 10 (c :: rest))
    else .name
  | chars =>
    if chars.all Text.Numeral.isDecimalDigit then
      .number (Text.Numeral.ofDigits? (maxWord + 1) 10 chars)
    else .name

/-- The word that a word token stands for. -/
def Labels.word (labels : Labels) (text : String) : Except Cause Word :=
  match Spelling.ofText text with
  | .number (some value) => .ok (UInt16.ofNat value)
  | .number none => .error (.numberTooLarge text)
  | .register index =>
    match index.bind Word.ofRegister? with
    | some word => .ok word
    | none => .error (.noSuchRegister text)
  | .name =>
    match labels.table[text]?, Opcode.ofMnemonic? text with
    | some address, _ => .ok address
    | none, some opcode => .ok opcode.toWord
    | none, none => .error (.unknownWord text)

/-- The word that a quoted character stands for: its code point. -/
def characterWord (value : Char) : Except Cause Word :=
  if value.toNat ≤ maxWord then .ok (UInt16.ofNat value.toNat)
  else .error (.characterTooLarge value.toNat)

/-- The word of a token that should have one, or what is wrong with it. -/
def Labels.tokenWord? (labels : Labels) (placed : PlacedToken) : Option (Except Diagnostic Word) :=
  match placed.token with
  | .word text => some ((labels.word text).mapError (⟨placed.line, ·⟩))
  | .character value => some ((characterWord value).mapError (⟨placed.line, ·⟩))
  | .label _ | .malformed _ => none

/-- The diagnostic of a quoted character that is not closed. -/
def PlacedToken.unclosed? (placed : PlacedToken) : Option Diagnostic :=
  match placed.token with
  | .malformed text => some ⟨placed.line, .unclosedCharacter text⟩
  | _ => none

/-- The line of the last token that is not malformed; zero if there is none. -/
def lastLine (tokens : List PlacedToken) : Nat :=
  tokens.foldl (fun line placed => if placed.unclosed?.isSome then line else placed.line) 0

/-- The diagnostic of a program with more words than memory has cells. -/
def sizeFault (tokens : List PlacedToken) (count : Nat) : List Diagnostic :=
  if memorySize < count then [⟨lastLine tokens, .tooManyWords count⟩] else []

/-- Assembles a list of tokens. -/
def ofTokens (tokens : List PlacedToken) : Assembly :=
  let labels := Labels.ofTokens tokens
  let read := tokens.filterMap labels.tokenWord?
  let words := read.filterMap Except.toOption
  let wordFaults := read.filterMap fun
    | .error diagnostic => some diagnostic
    | .ok _ => none
  let faults := tokens.filterMap PlacedToken.unclosed? ++ labels.faults.reverse ++ wordFaults ++
    sizeFault tokens words.length
  { labels, words, diagnostics := faults.mergeSort fun first second => first.line ≤ second.line }

/-- Assembles a text. -/
def ofText (text : String) : Assembly := ofTokens (scan text.toList)

/-- The words, unless something is wrong. -/
def result (assembly : Assembly) : Except (List Diagnostic) (List Word) :=
  if assembly.diagnostics.isEmpty then .ok assembly.words else .error assembly.diagnostics

end Assembly

/-- Assembles a text into words, or says everything that is wrong with it. -/
def assemble (text : String) : Except (List Assembly.Diagnostic) (List Word) :=
  (Assembly.ofText text).result

end WordMachine
