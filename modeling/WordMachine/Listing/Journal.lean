import WordMachine.Journal
import WordMachine.Listing

/-!
# The journal of listing a program

Each label with its address, in the order in which the labels are given.
-/

namespace WordMachine.Listing

/-- What listing a program records. -/
def journal (listing : Listing) : List Entry :=
  listing.labels.map fun (address, label) => ⟨.debug, .disassembler, s!"{label.name} at {address}"⟩

end WordMachine.Listing
