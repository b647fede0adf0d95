import WordMachine.Opcode
import WordMachine.Registers

/-!
# Views

What `show` shows, as data and as text. An empty list shows as `none`, and memory shows one cell on
a line, with a dash for a cell that is not written.
-/

namespace WordMachine

/-- A part of the debugger's state, read off at one moment. -/
inductive View where
  | state (pc : Word) (registers : Registers) (stack : List Word)
  | pc (pc : Word)
  | registers (registers : Registers)
  | stack (words : List Word)
  /-- Cells in address order. -/
  | memory (cells : List (Nat × Option Word))
  | breakpoints (addresses : List Word)
  | watchpoints (addresses : List Word)
  | breakops (opcodes : List Opcode)
  | cycles (count : Nat)
  deriving DecidableEq, Repr

namespace View

/-- Items on one line. -/
def itemsText (items : List String) : String :=
  if items.isEmpty then "none" else String.intercalate " " items

/-- Words on one line. -/
def wordsText (words : List Word) : String := itemsText (words.map toString)

/-- A number with blanks in front of it, at least five characters wide. -/
def padded (number : Nat) : String :=
  let digits := toString number
  String.ofList (List.replicate (5 - digits.length) ' ') ++ digits

/-- A memory cell. -/
def cellText : Nat × Option Word → String
  | (address, some word) => s!"{padded address}: {word}"
  | (address, none) => s!"{padded address}: -"

/-- A register on a line of its own. -/
def registerText (value : Literal) (index : Nat) : String := s!"r{index}: {value.val}"

/-- The values of the registers, `r0` first. -/
def registerValues (file : Registers) : List Literal := file.values.toList

/-- A view as text. -/
def text : View → String
  | .state counter file words =>
    let values := itemsText ((registerValues file).map (toString ·.val))
    s!"pc: {counter}\nregisters: {values}\nstack: {wordsText words}"
  | .pc counter => s!"pc: {counter}"
  | .registers file =>
    String.intercalate "\n"
      ((registerValues file).zipIdx.map fun (value, index) => registerText value index)
  | .stack words => s!"stack: {wordsText words}"
  | .memory cells => String.intercalate "\n" (cells.map cellText)
  | .breakpoints addresses => s!"breakpoints: {wordsText addresses}"
  | .watchpoints addresses => s!"watchpoints: {wordsText addresses}"
  | .breakops opcodes => s!"breakops: {itemsText (opcodes.map Opcode.mnemonic)}"
  | .cycles count => s!"cycles: {count}"

end View

end WordMachine
