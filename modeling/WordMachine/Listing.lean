import Std.Data.HashMap
import Std.Data.HashSet
import WordMachine.Instruction

/-!
# Listings

A program cut into lines from its first word to its last. A line is an instruction if one starts
at its address whose operands all make sense, and a single word of data if not. Lines follow each
other without gaps.

Addresses that are jumped to or called get a label, if a line starts there or the program ends
there. Labels are numbered in the order in which the lines mention them.
-/

namespace WordMachine

namespace Instruction

/-- An operand word fits its role: results go to registers, targets are literals, and a printed
literal is printable. -/
def accepts (opcode : Opcode) (role : Role) (word : Word) : Bool :=
  match role with
  | .destination => word.isRegister
  | .target => word.isLiteral
  | .value => if opcode = .out then word.isRegister || word.isPrintable else word.isValid

/-- Every operand fits its role. -/
def isWellFormed (instruction : Instruction) : Bool :=
  instruction.operandsWithRoles.all fun (role, word) => accepts instruction.opcode role word

/-- The operands that are targets. -/
def targets (instruction : Instruction) : List Word :=
  instruction.operandsWithRoles.filterMap fun (role, word) =>
    if role = .target then some word else none

end Instruction

/-- What a line holds. -/
inductive Content where
  | instruction (instruction : Instruction)
  | data (word : Word)
  deriving DecidableEq, Repr

/-- A line and the address of its first word. -/
structure Line where
  address : Nat
  content : Content
  deriving DecidableEq, Repr

/-- The name of an address that is jumped to. -/
inductive Label where
  /-- Mentioned first by a jump. -/
  | jump (number : Nat)
  /-- Mentioned first by a call. -/
  | call (number : Nat)
  deriving DecidableEq, Repr

/-- A label as assembly text writes it. -/
def Label.name : Label → String
  | .jump number => s!"label{number}"
  | .call number => s!"sub{number}"

namespace Line

/-- The instruction on a line, if the words at an address start with one that is well formed. -/
def instructionAt? (address : Nat) (words : List Word) : Option Instruction :=
  match Instruction.ofWords address words with
  | .ok instruction => if instruction.isWellFormed then some instruction else none
  | .error _ => none

/-- The line at an address, where `word` lies with `rest` behind it. -/
def ofWords (address : Nat) (word : Word) (rest : List Word) : Line :=
  match instructionAt? address (word :: rest) with
  | some instruction => ⟨address, .instruction instruction⟩
  | none => ⟨address, .data word⟩

/-- The number of words behind the first one of a line. -/
def tailWidth (line : Line) : Nat :=
  match line.content with
  | .instruction instruction => instruction.opcode.arity
  | .data _ => 0

/-- The number of words on a line. -/
def width (line : Line) : Nat := line.tailWidth + 1

/-- The words on a line. -/
def toWords (line : Line) : List Word :=
  match line.content with
  | .instruction instruction => instruction.toWords
  | .data word => [word]

/-- Cuts words that lie at an address into lines, in front of those already cut, the last line
first. -/
def sweepOnto (cut : List Line) (address : Nat) : List Word → List Line
  | [] => cut
  | word :: rest =>
    let line := ofWords address word rest
    sweepOnto (line :: cut) (address + line.width) (rest.drop line.tailWidth)
  termination_by words => words.length
  decreasing_by simp only [List.length_drop, List.length_cons]; omega

/-- Cuts words that lie at an address into lines. -/
def sweep (address : Nat) (words : List Word) : List Line := (sweepOnto [] address words).reverse

end Line

namespace Listing

/-- The labels given so far. -/
structure Naming where
  table : Std.HashMap Word Label
  /-- The labels with their addresses, the last one first. -/
  given : List (Word × Label)
  jumps : Nat
  calls : Nat

/-- No labels. -/
def Naming.empty : Naming := ⟨∅, [], 0, 0⟩

/-- Names an address that an instruction with the given opcode mentions, unless it has a name. -/
def Naming.mention (naming : Naming) (opcode : Opcode) (address : Word) : Naming :=
  if naming.table.contains address then naming
  else if opcode = .call then
    let label := .call naming.calls
    { naming with
      table := naming.table.insert address label
      given := (address, label) :: naming.given
      calls := naming.calls + 1 }
  else
    let label := .jump naming.jumps
    { naming with
      table := naming.table.insert address label
      given := (address, label) :: naming.given
      jumps := naming.jumps + 1 }

/-- The addresses a line mentions, with the opcode that mentions them. -/
def mentions (line : Line) : List (Opcode × Word) :=
  match line.content with
  | .instruction instruction => instruction.targets.map fun target => (instruction.opcode, target)
  | .data _ => []

end Listing

/-- A program as lines and labels. -/
structure Listing where
  lines : List Line
  naming : Listing.Naming
  /-- The number of words. -/
  size : Nat

namespace Listing

/-- Names the mentioned addresses at which a line starts or the program ends. -/
def name (lines : List Line) (size : Nat) : Naming :=
  let starts := Std.HashSet.ofList (lines.map Line.address)
  (lines.flatMap mentions).foldl
    (fun naming (opcode, address) =>
      if address.toNat = size || starts.contains address.toNat then naming.mention opcode address
      else naming)
    .empty

/-- The listing of a list of words. They need not be a program. -/
def ofWords (words : List Word) : Listing :=
  let lines := Line.sweep 0 words
  { lines, naming := name lines words.length, size := words.length }

/-- The label of an address. Addresses that are no words have none. -/
def label? (listing : Listing) (address : Nat) : Option Label :=
  if address < 65536 then listing.naming.table[UInt16.ofNat address]? else none

/-- The labels with their addresses, in the order in which they are mentioned. -/
def labels (listing : Listing) : List (Word × Label) := listing.naming.given.reverse

end Listing

end WordMachine
