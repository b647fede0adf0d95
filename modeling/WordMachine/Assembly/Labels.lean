import Std.Data.HashMap
import WordMachine.Assembly.Diagnostic
import WordMachine.Assembly.Token
import WordMachine.Text.Numeral
import WordMachine.Word

/-!
# Labels

One pass over the tokens gives every label its address: the number of words in front of it. The
first definition of a name counts, and a later one is reported.

Addresses are cut off at the last cell. That shows only in a program that is refused for its size.
-/

namespace WordMachine.Assembly

/-- A label that was given an address. -/
structure Definition where
  line : Nat
  name : String
  address : Word
  deriving DecidableEq, Repr

/-- The text can name a label: it is not empty and has ASCII letters, digits and underscores
only. -/
def isName (text : String) : Bool :=
  !text.isEmpty && text.toList.all fun c => c.isAlphanum || c == '_'

/-- The labels found so far. -/
structure Labels where
  /-- The number of words so far. -/
  address : Nat
  table : Std.HashMap String Word
  /-- The labels in the table, the last one first. -/
  definitions : List Definition
  /-- The definitions that were refused, the last one first. -/
  faults : List Diagnostic

namespace Labels

/-- No labels, in front of the first word. -/
def empty : Labels := ⟨0, ∅, [], []⟩

/-- Takes note of a token. -/
def note (labels : Labels) (placed : PlacedToken) : Labels :=
  match placed.token with
  | .word _ | .character _ => { labels with address := labels.address + 1 }
  | .malformed _ => labels
  | .label name =>
    if !isName name then
      { labels with faults := ⟨placed.line, .badLabel name⟩ :: labels.faults }
    else if labels.table.contains name then
      { labels with faults := ⟨placed.line, .duplicateLabel name⟩ :: labels.faults }
    else
      let address := UInt16.ofNat (min labels.address (memorySize - 1))
      { labels with
        table := labels.table.insert name address
        definitions := ⟨placed.line, name, address⟩ :: labels.definitions }

/-- The labels that a list of tokens defines. -/
def ofTokens (tokens : List PlacedToken) : Labels := tokens.foldl note empty

end Labels

end WordMachine.Assembly
