import WordMachine.Text.Utf8

/-!
# The console

Bytes the program has yet to read, and the bytes it has printed so far.
-/

namespace WordMachine

/-- The two ends of the machine's byte traffic. -/
structure Console where
  /-- Bytes still to be read, the next one first. -/
  input : List UInt8
  /-- Bytes printed, the first one first. -/
  output : Array UInt8
  deriving DecidableEq, Repr

namespace Console

/-- A console with bytes to read and nothing printed. -/
def ofInput (input : List UInt8) : Console := ⟨input, #[]⟩

/-- The next byte, which is taken from the input, or nothing once the input is used up. -/
def read (console : Console) : Option UInt8 × Console :=
  match console.input with
  | [] => (none, console)
  | byte :: rest => (some byte, { console with input := rest })

/-- Prints a byte. -/
def write (console : Console) (byte : UInt8) : Console :=
  { console with output := console.output.push byte }

/-- Adds bytes behind those still to be read. -/
def feed (console : Console) (bytes : List UInt8) : Console :=
  { console with input := console.input ++ bytes }

/-- What has been printed, as text. Bytes that are no UTF-8 show as replacement characters. -/
def outputText (console : Console) : String := Text.Utf8.decodeLossy console.output.toList

end Console

end WordMachine
