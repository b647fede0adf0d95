import WordMachine.Listing

/-!
# Listings as assembly text

Each line of a listing is indented, and a label stands on a line of its own in front of the line
it names; a label for the address behind the last word stands at the end. The text is written the
way the assembler reads it: a target with a label is written as the label, a printed character as
a quoted character, and every other operand as a number or a register.
-/

namespace WordMachine

/-- A printable character in quotes. Blanks, the quote and the backslash are escaped. -/
def quoted (value : Word) : String :=
  let inner :=
    match value.toNat with
    | 0x09 => "\\t"
    | 0x0a => "\\n"
    | 0x0b => "\\v"
    | 0x0c => "\\f"
    | 0x0d => "\\r"
    | 0x20 => "\\s"
    | 0x5c => "\\\\"
    | 0x27 => "\\\x27"
    | code => String.singleton (Char.ofNat code)
  "\x27" ++ inner ++ "\x27"

namespace Listing

/-- An operand as the listing writes it. -/
def operandText (listing : Listing) (opcode : Opcode) (role : Role) (word : Word) : String :=
  match if role = .target then listing.label? word.toNat else none with
  | some label => label.name
  | none =>
    if opcode = .out && word.isPrintable then quoted word else Operand.textOfWord word

/-- What a line holds, as the listing writes it. -/
def contentText (listing : Listing) : Content → String
  | .data word => toString word
  | .instruction instruction =>
    String.intercalate " "
      (instruction.opcode.mnemonic ::
        instruction.operandsWithRoles.map fun (role, word) =>
          listing.operandText instruction.opcode role word)

/-- The definition of the label of an address, if it has one. -/
def labelText (listing : Listing) (address : Nat) : List String :=
  (listing.label? address).toList.map fun label => label.name ++ ":"

/-- A line with its label, as lines of text. -/
def lineText (listing : Listing) (line : Line) : List String :=
  listing.labelText line.address ++ ["    " ++ listing.contentText line.content]

/-- The lines of text of a listing. -/
def textLines (listing : Listing) : List String :=
  listing.lines.flatMap listing.lineText ++ listing.labelText listing.size

/-- The text of a listing. Every line of it ends in a newline. -/
def text (listing : Listing) : String :=
  String.join (listing.textLines.map fun line => line ++ "\n")

end Listing

/-- Turns words back into assembly text. -/
def disassemble (words : List Word) : String := (Listing.ofWords words).text

end WordMachine
