import WordMachine.Opcode

/-!
# Printed text

The strings that a program prints character by character: the longest runs of `out` opcodes each
followed by a printable literal. Runs are found by their words alone, wherever they start.
-/

namespace WordMachine.PrintedText

/-- A text that is being put together from its characters, last one first, if there are any, in
front of the texts already found. -/
def close (current : List Char) (found : List String) : List String :=
  if current.isEmpty then found else String.ofList current.reverse :: found

/-- Goes through words with the characters of the current run, last one first, in front of the
texts already found, the last text first. -/
def findOnto (found : List String) (current : List Char) : List Word → List String
  | word :: value :: rest =>
    if word = Opcode.out.toWord && value.isPrintable then
      findOnto found (Char.ofNat value.toNat :: current) rest
    else findOnto (close current found) [] (value :: rest)
  | _ => close current found

/-- The texts that a list of words prints, in order. -/
def find (words : List Word) : List String := (findOnto [] [] words).reverse

end WordMachine.PrintedText
