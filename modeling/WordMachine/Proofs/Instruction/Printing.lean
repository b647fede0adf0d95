import WordMachine.Proofs.Computer.Refusing
import WordMachine.Proofs.Listing.Reassembly

/-!
# Printed instructions

The text of a single instruction, as it is shown where a machine has stopped, is printed without
regard to the roles of its operands: every operand is a number or a register. It is a line of
assembly text all the same, and assembles to the words of the instruction if all of them are valid
(`assemble_text_eq_ok_iff`).

The operands that are decoded from memory are valid, so that the text of what a machine decodes
assembles to the cells it was decoded from (`assembles_to_cells`). This goes for instructions that
a listing leaves out as well: here nothing has to fit its role.
-/

namespace WordMachine.Instruction

open Assembly (Labels PlacedToken Token labelNames)
open Listing (readWord)

variable (instruction : Instruction)

/-- The tokens of the text of an instruction. -/
def tokens : List Token :=
  .word instruction.opcode.mnemonic ::
    instruction.operands.toList.map fun word => .word (Operand.textOfWord word)

/-- The tokens of the printed text are those of the instruction. -/
theorem tokens_text : Assembly.tokens instruction.text.toList = instruction.tokens := by
  have hspells : Assembly.Spells instruction.text.toList instruction.tokens := by
    rw [text, String.toList_intercalate]
    refine Assembly.spells_intercalate ?_
    rw [List.map_cons, List.map_map]
    refine .cons (spells_mnemonic instruction.opcode) ?_
    rw [List.forall₂_map_left_iff, List.forall₂_map_right_iff, List.forall₂_same]
    exact fun word _ => spells_textOfWord word
  have htokens := hspells [] nofun
  rwa [List.append_nil, Assembly.tokens_nil, List.append_nil] at htokens

/-- All tokens of an instruction are words. -/
theorem exists_word_of_mem_tokens {token : Token} (h : token ∈ instruction.tokens) :
    ∃ text, token = .word text := by
  rcases List.mem_cons.mp h with rfl | hoperand
  · exact ⟨_, rfl⟩
  · obtain ⟨word, -, rfl⟩ := List.mem_map.mp hoperand
    exact ⟨_, rfl⟩

/-- The text of an instruction defines no label. -/
theorem label_not_mem_tokens (name : String) : .label name ∉ instruction.tokens := by
  intro h
  obtain ⟨text, htext⟩ := instruction.exists_word_of_mem_tokens h
  cases htext

theorem labelNames_tokens : labelNames instruction.tokens = [] :=
  List.eq_nil_iff_forall_not_mem.mpr fun name hname =>
    instruction.label_not_mem_tokens name (Assembly.mem_labelNames.mp hname)

/-- Where no label is defined, the tokens of an instruction are read as its words. -/
theorem filterMap_read_tokens {labels : Labels}
    (htable : labels.table[instruction.opcode.mnemonic]? = none) :
    instruction.tokens.filterMap labels.read = instruction.toWords.map readWord := by
  have hoperand (word : Word) :
      labels.read (.word (Operand.textOfWord word)) = some (readWord word) :=
    congrArg some (labels.word_textOfWord word)
  have hoperands : (instruction.operands.toList.map fun word =>
      Token.word (Operand.textOfWord word)).filterMap labels.read =
        instruction.operands.toList.map readWord := by
    rw [List.filterMap_map, ← List.filterMap_eq_map]
    exact List.filterMap_congr fun word _ => hoperand word
  rw [tokens, List.filterMap_cons_some (Listing.read_mnemonic htable), hoperands, toWords,
    List.map_cons]

/-- All words of an instruction are valid exactly if its operands are. -/
theorem forall_mem_toWords_isValid_iff :
    (∀ word ∈ instruction.toWords, word.isValid = true) ↔
      ∀ word ∈ instruction.operands.toList, word.isValid = true := by
  rw [toWords, List.forall_mem_cons, and_iff_right instruction.opcode.isValid_toWord]

/-- The text of an instruction assembles to the words of the instruction or not at all, and it
assembles exactly if all operands are valid. -/
theorem assemble_text_eq_ok_iff (words : List Word) :
    assemble instruction.text = .ok words ↔
      words = instruction.toWords ∧
        ∀ word ∈ instruction.operands.toList, word.isValid = true := by
  have hplaced : (Assembly.scan instruction.text.toList).map PlacedToken.token =
      instruction.tokens := instruction.tokens_text
  -- A label comes before a mnemonic of its name, but there is none.
  have htable : (Labels.ofTokens (Assembly.scan instruction.text.toList)).table[
      instruction.opcode.mnemonic]? = none := by
    rw [Labels.table_ofTokens, hplaced, Labels.addressIn?, if_neg]
    exact fun h => instruction.label_not_mem_tokens _ h.2
  rw [assemble, Assembly.ofText, Assembly.result_ofTokens_eq_ok_iff, hplaced,
    instruction.filterMap_read_tokens htable, Listing.map_readWord_eq_iff,
    Labels.faults_ofTokens_eq_nil_iff, hplaced, labelNames_tokens, forall_mem_toWords_isValid_iff]
  constructor
  · rintro ⟨-, -, hwords, -⟩
    exact hwords
  · rintro ⟨rfl, hvalid⟩
    have harity := instruction.opcode.arity_le
    have hfits : instruction.toWords.length ≤ memorySize := by
      rw [length_toWords, memorySize]
      omega
    have hnames : ∀ name ∈ ([] : List String), Assembly.isName name = true :=
      List.forall_mem_nil _
    refine ⟨fun text htext => ?_, ⟨hnames, List.nodup_nil⟩, ⟨rfl, hvalid⟩, hfits⟩
    obtain ⟨_, hword⟩ := instruction.exists_word_of_mem_tokens htext
    cases hword

variable {instruction}

/-- What a machine decodes is printed as a text that assembles to the cells it was decoded from, as
many as the opcode and its operands take up. -/
theorem assembles_to_cells {machine : Machine} {address : Word}
    (h : machine.decodeAt address = .ok instruction) :
    ∃ words, assemble instruction.text = .ok words ∧
      words.length = 1 + instruction.opcode.arity ∧
      ∀ index word, words[index]? = some word →
        machine.memory.read (address.toNat + index) = .ok word := by
  have hvalid := Machine.isValid_of_decodeAt h
  exact ⟨instruction.toWords, (instruction.assemble_text_eq_ok_iff _).mpr ⟨rfl, hvalid⟩,
    instruction.length_toWords, Machine.decodeAt_eq_ok_iff.mp h⟩

/-- The program `set 5 r7`. -/
def setLiteral : Program := ⟨[1, 5, 32775], by decide, List.all_eq_true.mp rfl⟩

/-- No listing shows `set 5 r7` as an instruction, but its text is that of the cells. -/
theorem assembles_to_cells_of_setLiteral :
    (⟨.set, #v[5, 32775]⟩ : Instruction).isWellFormed = false ∧
      (Machine.start setLiteral).decodeAt 0 = .ok ⟨.set, #v[5, 32775]⟩ ∧
      ∃ words, assemble (⟨.set, #v[5, 32775]⟩ : Instruction).text = .ok words ∧
        words.length = 3 ∧
        ∀ index word, words[index]? = some word →
          (Machine.start setLiteral).memory.read (0 + index) = .ok word := by
  have hdecode : (Machine.start setLiteral).decodeAt 0 = .ok ⟨.set, #v[5, 32775]⟩ := by
    rw [Machine.decodeAt_eq_ok_iff]
    exact holds_ofProgram.mpr (holds_cellsOf_iff.mpr (List.prefix_refl _))
  exact ⟨by decide, hdecode, assembles_to_cells hdecode⟩

end WordMachine.Instruction
