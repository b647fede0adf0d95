import WordMachine.Listing.Text
import WordMachine.Proofs.Assembly.Scanning
import WordMachine.Proofs.Listing.Naming

/-!
# The tokens of a listing

What the scanner sees in the text of a listing, said without the text: `Listing.tokens` puts the
tokens of the lines behind each other, and `tokens_text` says that these are the tokens of the
printed text.
-/

namespace WordMachine

/-! ## Printed words -/

/-- Printed letters and digits spell a word. -/
theorem spells_text {text : String} (hne : text.toList ≠ [])
    (h : ∀ c ∈ text.toList, c.isAlphanum = true) : Assembly.Spells text.toList [.word text] := by
  have hspells := Assembly.spells_word hne h
  rwa [String.ofList_toList] at hspells

/-- A printed number spells a word. -/
theorem spells_repr (n : Nat) : Assembly.Spells n.repr.toList [.word n.repr] :=
  spells_text (Text.Numeral.toList_repr_ne_nil n) fun _ => Text.Numeral.isAlphanum_of_mem_repr

/-- A printed operand is a number or a register. -/
theorem textOfWord_eq (word : Word) : Operand.textOfWord word = word.toNat.repr ∨
    ∃ index : Fin 8, Operand.textOfWord word = "r" ++ index.val.repr := by
  unfold Operand.textOfWord
  split
  · next operand hdecode =>
    obtain rfl := Operand.decode_eq_ok_iff.mp hdecode
    cases operand with
    | literal value =>
      refine .inl ?_
      rw [Operand.toWord, Literal.toNat_toWord]
      rfl
    | register index => exact .inr ⟨index, rfl⟩
  · exact .inl rfl

/-- A printed operand has letters and digits only. -/
theorem isAlphanum_of_mem_textOfWord {word : Word} {c : Char}
    (hc : c ∈ (Operand.textOfWord word).toList) : c.isAlphanum = true := by
  rcases textOfWord_eq word with hnumber | ⟨index, hregister⟩
  · rw [hnumber] at hc
    exact Text.Numeral.isAlphanum_of_mem_repr hc
  · rw [hregister, String.toList_append, List.mem_append] at hc
    rcases hc with hletter | hdigit
    · obtain rfl := List.mem_singleton.mp hletter
      decide
    · exact Text.Numeral.isAlphanum_of_mem_repr hdigit

/-- A printed operand spells a word. -/
theorem spells_textOfWord (word : Word) :
    Assembly.Spells (Operand.textOfWord word).toList [.word (Operand.textOfWord word)] := by
  refine spells_text ?_ fun _ => isAlphanum_of_mem_textOfWord
  rcases textOfWord_eq word with hnumber | ⟨index, hregister⟩
  · rw [hnumber]
    exact Text.Numeral.toList_repr_ne_nil _
  · rw [hregister, String.toList_append]
    exact List.cons_ne_nil _ _

/-- A mnemonic has letters only. -/
theorem isAlphanum_of_mem_mnemonic {opcode : Opcode} {c : Char}
    (hc : c ∈ opcode.mnemonic.toList) : c.isAlphanum = true := by
  have hall : opcode.mnemonic.toList.all Char.isAlphanum = true := by
    cases opcode <;> decide
  exact List.all_eq_true.mp hall c hc

/-- A mnemonic spells a word. -/
theorem spells_mnemonic (opcode : Opcode) :
    Assembly.Spells opcode.mnemonic.toList [.word opcode.mnemonic] := by
  refine spells_text ?_ fun _ => isAlphanum_of_mem_mnemonic
  cases opcode <;> decide

/-- The name of a label spells a word. -/
theorem spells_name (label : Label) : Assembly.Spells label.name.toList [.word label.name] :=
  spells_text label.toList_name_ne_nil fun _ => Label.isAlphanum_of_mem_name

/-- The name of a label and a colon spell its definition. -/
theorem spells_name_colon (label : Label) :
    Assembly.Spells (label.name ++ ":").toList [.label label.name] := by
  have hname : ∀ c ∈ label.name.toList, c.isAlphanum = true := fun _ => Label.isAlphanum_of_mem_name
  have hspells := Assembly.spells_label hname
  rw [String.ofList_toList] at hspells
  rw [String.toList_append]
  exact hspells

/-! ## Quoted characters -/

/-- The character with a small code has the code. -/
theorem toNat_ofNat_of_lt {code : Nat} (h : code < 0xd800) : (Char.ofNat code).toNat = code := by
  rw [Char.ofNat, dif_pos (Or.inl h)]
  rfl

/-- An escaped character in quotes spells the character it stands for. -/
theorem spells_escaped {c value : Char} (h : Assembly.unescape c = value) :
    Assembly.Spells ['\x27', '\\', c, '\x27'] [.character value] := by
  subst h
  exact fun rest _ => Assembly.tokens_escaped c rest

/-- A printable word in quotes spells the character it is the code of. -/
theorem spells_quoted {word : Word} (h : word.isPrintable = true) :
    Assembly.Spells (quoted word).toList [.character (Char.ofNat word.toNat)] := by
  have hlt := Word.lt_of_isPrintable h
  unfold quoted
  rw [String.toList_append, String.toList_append]
  generalize word.toNat = code at hlt ⊢
  split
  · exact spells_escaped (c := 't') rfl
  · exact spells_escaped (c := 'n') rfl
  · exact spells_escaped (c := 'v') rfl
  · exact spells_escaped (c := 'f') rfl
  · exact spells_escaped (c := 'r') rfl
  · exact spells_escaped (c := 's') rfl
  · exact spells_escaped (c := '\\') rfl
  · exact spells_escaped (c := '\x27') rfl
  · next hbackslash _ =>
    rw [String.toList_singleton]
    refine fun rest _ => Assembly.tokens_quoted ?_ rest
    intro heq
    have hcode := congrArg Char.toNat heq
    rw [toNat_ofNat_of_lt (by omega)] at hcode
    exact hbackslash hcode

/-- The word of a printable character is the word that was printed. -/
theorem characterWord_of_isPrintable {word : Word} (h : word.isPrintable = true) :
    Assembly.characterWord (Char.ofNat word.toNat) = .ok word := by
  have hlt := Word.lt_of_isPrintable h
  rw [Assembly.characterWord, toNat_ofNat_of_lt (by omega), if_pos (by rw [maxWord]; omega),
    UInt16.ofNat_toNat]

namespace Listing

variable (listing : Listing)

/-! ## Whole listings -/

/-- The token of an operand. -/
def operandToken (opcode : Opcode) (role : Role) (word : Word) : Assembly.Token :=
  match if role = .target then listing.label? word.toNat else none with
  | some label => .word label.name
  | none =>
    if opcode = .out && word.isPrintable then .character (Char.ofNat word.toNat)
    else .word (Operand.textOfWord word)

/-- The tokens of what a line holds. -/
def contentTokens : Content → List Assembly.Token
  | .data word => [.word (toString word)]
  | .instruction instruction =>
    .word instruction.opcode.mnemonic ::
      instruction.operandsWithRoles.map fun (role, word) =>
        listing.operandToken instruction.opcode role word

/-- The definition of the label of an address, if it has one. -/
def labelTokens (address : Nat) : List Assembly.Token :=
  (listing.label? address).toList.map fun label => .label label.name

/-- The tokens of a line and its label. -/
def lineTokens (line : Line) : List Assembly.Token :=
  listing.labelTokens line.address ++ listing.contentTokens line.content

/-- The tokens of a listing. -/
def tokens : List Assembly.Token :=
  listing.lines.flatMap listing.lineTokens ++ listing.labelTokens listing.size

theorem spells_operandText (opcode : Opcode) (role : Role) (word : Word) :
    Assembly.Spells (listing.operandText opcode role word).toList
      [listing.operandToken opcode role word] := by
  unfold operandText operandToken
  cases if role = .target then listing.label? word.toNat else none with
  | some label => exact spells_name label
  | none =>
    simp only
    split
    · next hprinted =>
      rw [Bool.and_eq_true] at hprinted
      exact spells_quoted hprinted.2
    · exact spells_textOfWord word

theorem spells_contentText (content : Content) :
    Assembly.Spells (listing.contentText content).toList (listing.contentTokens content) := by
  cases content with
  | data word => exact spells_repr word.toNat
  | instruction instruction =>
    unfold contentText
    rw [String.toList_intercalate]
    refine Assembly.spells_intercalate ?_
    rw [List.map_cons, List.map_map]
    refine .cons (spells_mnemonic instruction.opcode) ?_
    rw [List.forall₂_map_left_iff, List.forall₂_map_right_iff, List.forall₂_same]
    exact fun operand _ => listing.spells_operandText _ operand.1 operand.2

/-- Lines of text, each with its newline. -/
def printed (lines : List String) : List Char := lines.flatMap fun line => (line ++ "\n").toList

theorem printed_append (lines lines' : List String) :
    printed (lines ++ lines') = printed lines ++ printed lines' :=
  List.flatMap_append

theorem spellsAlways_printed_singleton {line : String} {found : List Assembly.Token}
    (h : Assembly.Spells line.toList found) : Assembly.SpellsAlways (printed [line]) found := by
  rw [printed, List.flatMap_singleton, String.toList_append]
  exact h.append_blank (by decide)

theorem spellsAlways_printed_labelText (address : Nat) :
    Assembly.SpellsAlways (printed (listing.labelText address)) (listing.labelTokens address) := by
  unfold labelText labelTokens
  cases listing.label? address with
  | none => exact Assembly.spellsAlways_nil
  | some label => exact spellsAlways_printed_singleton (spells_name_colon label)

theorem spellsAlways_printed_lineText (line : Line) :
    Assembly.SpellsAlways (printed (listing.lineText line)) (listing.lineTokens line) := by
  unfold lineText lineTokens
  rw [printed_append]
  refine (listing.spellsAlways_printed_labelText line.address).append
    (spellsAlways_printed_singleton ?_)
  rw [String.toList_append]
  have hindent : Assembly.SpellsAlways "    ".toList [] :=
    Assembly.spellsAlways_blanks (List.all_eq_true.mp (by decide))
  exact hindent.append_spells (listing.spells_contentText line.content)

/-- The tokens of the printed text are the tokens of the listing. -/
theorem tokens_text : Assembly.tokens listing.text.toList = listing.tokens := by
  have htext : listing.text.toList =
      listing.lines.flatMap (fun line => printed (listing.lineText line)) ++
        printed (listing.labelText listing.size) := by
    rw [text, String.toList_join, List.flatMap_map, textLines, List.flatMap_append,
      List.flatMap_assoc]
    rfl
  rw [htext]
  have hlines : Assembly.SpellsAlways
      (listing.lines.flatMap fun line => printed (listing.lineText line))
      (listing.lines.flatMap listing.lineTokens) :=
    Assembly.spellsAlways_flatMap fun line _ => listing.spellsAlways_printed_lineText line
  exact (hlines.append (listing.spellsAlways_printed_labelText listing.size)).tokens_eq

end Listing

end WordMachine
