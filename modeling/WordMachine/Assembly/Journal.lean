import WordMachine.Assembly
import WordMachine.Journal

/-!
# The journal of assembling

Each label that is given an address, then the number of words, or everything that is wrong.
-/

namespace WordMachine.Assembly

/-- The entry for a label. -/
def Definition.entry (definition : Definition) : Entry :=
  ⟨.debug, .assembler,
    s!"[{definition.line}] Found label `{definition.name}` at {definition.address}"⟩

/-- What assembling records. -/
def journal (assembly : Assembly) : List Entry :=
  assembly.labels.definitions.reverse.map Definition.entry ++
    match assembly.result with
    | .ok words => [⟨.debug, .assembler, s!"assembled {words.length} words"⟩]
    | .error diagnostics =>
      diagnostics.map fun diagnostic => ⟨.error, .assembler, diagnostic.message⟩

end WordMachine.Assembly
