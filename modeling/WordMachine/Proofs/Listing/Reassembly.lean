import WordMachine.Proofs.Assembly.Labelling
import WordMachine.Proofs.Listing.Numbering
import WordMachine.Proofs.Listing.Tokens

/-!
# Assembling what was disassembled

The text of a listing defines each of its labels once, in front of as many words as the address
of the label says (`table_name`), so that every token is read as the word it was printed for
(`filterMap_read_tokens`). Invalid words are the only ones refused: they are data, and a number
that is too large.

`assemble_disassemble` puts this together: the text of a list of words assembles to the words if
they are a program, and to nothing if not.
-/

namespace WordMachine.Listing

open Assembly (Token PlacedToken Labels labelNames)

/-! ## Words of a line -/

section Lines

variable (listing : Listing)

theorem length_operandsWithRoles (instruction : Instruction) :
    instruction.operandsWithRoles.length = instruction.opcode.arity := by
  rw [Instruction.operandsWithRoles, List.length_zip, Vector.length_toList, ← Opcode.arity,
    Nat.min_self]

theorem hasWord_operandToken (opcode : Opcode) (role : Role) (word : Word) :
    (listing.operandToken opcode role word).hasWord = true := by
  unfold operandToken
  split
  · rfl
  · split <;> rfl

theorem labelNames_labelTokens (address : Nat) :
    labelNames (listing.labelTokens address) =
      ((listing.label? address).map Label.name).toList := by
  unfold labelTokens
  cases listing.label? address <;> rfl

theorem contentTokens_instruction (instruction : Instruction) :
    listing.contentTokens (.instruction instruction) =
      .word instruction.opcode.mnemonic :: instruction.operandsWithRoles.map fun operand =>
        listing.operandToken instruction.opcode operand.1 operand.2 := rfl

theorem labelNames_contentTokens (content : Content) :
    labelNames (listing.contentTokens content) = [] := by
  cases content with
  | data word => rfl
  | instruction instruction =>
    refine List.filterMap_eq_nil_iff.mpr fun token htoken => ?_
    have hword : token.hasWord = true := by
      rcases List.mem_cons.mp htoken with rfl | hoperand
      · rfl
      · obtain ⟨operand, -, rfl⟩ := List.mem_map.mp hoperand
        exact listing.hasWord_operandToken _ _ _
    cases token <;> first | rfl | cases hword

/-- The definitions of labels are no words. -/
theorem countP_labelTokens (address : Nat) :
    (listing.labelTokens address).countP Token.hasWord = 0 := by
  unfold labelTokens
  cases listing.label? address <;> rfl

/-- A line has as many tokens with a word as it has words. -/
theorem countP_lineTokens (line : Line) :
    (listing.lineTokens line).countP Token.hasWord = line.toWords.length := by
  rw [lineTokens, List.countP_append, countP_labelTokens, Nat.zero_add, Line.length_toWords]
  obtain ⟨address, content⟩ := line
  cases content with
  | data word => rfl
  | instruction instruction =>
    have hall : ∀ token ∈ instruction.operandsWithRoles.map fun operand =>
        listing.operandToken instruction.opcode operand.1 operand.2, token.hasWord = true := by
      intro token htoken
      obtain ⟨operand, -, rfl⟩ := List.mem_map.mp htoken
      exact listing.hasWord_operandToken _ _ _
    rw [contentTokens_instruction, List.countP_cons_of_pos rfl, List.countP_eq_length.mpr hall,
      List.length_map, length_operandsWithRoles]
    rfl

/-- Lines have as many tokens with a word as they have words. -/
theorem countP_flatMap_lineTokens (lines : List Line) :
    (lines.flatMap listing.lineTokens).countP Token.hasWord =
      (lines.flatMap Line.toWords).length := by
  induction lines with
  | nil => rfl
  | cons line lines ih =>
    rw [List.flatMap_cons, List.flatMap_cons, List.countP_append, List.length_append, ih,
      countP_lineTokens]

/-- No token of a listing is malformed. -/
theorem malformed_not_mem_tokens (text : String) : .malformed text ∉ listing.tokens := by
  have hlabel (address : Nat) : .malformed text ∉ listing.labelTokens address := by
    intro h
    obtain ⟨label, -, hlabel⟩ := List.mem_map.mp h
    cases hlabel
  have hoperand (opcode : Opcode) (role : Role) (word : Word) :
      .malformed text ≠ listing.operandToken opcode role word := by
    intro h
    have hword := listing.hasWord_operandToken opcode role word
    rw [← h] at hword
    cases hword
  intro h
  rw [tokens, List.mem_append, List.mem_flatMap] at h
  rcases h with ⟨line, -, hline⟩ | hend
  · rcases List.mem_append.mp hline with hdefinition | hcontent
    · exact hlabel _ hdefinition
    · obtain ⟨address, content⟩ := line
      cases content with
      | data word =>
        cases List.mem_singleton.mp hcontent
      | instruction instruction =>
        rcases List.mem_cons.mp hcontent with hopcode | hrest
        · cases hopcode
        · obtain ⟨operand, -, heq⟩ := List.mem_map.mp hrest
          exact hoperand _ _ _ heq.symm
  · exact hlabel _ hend

/-- The names that a listing defines, in order. -/
theorem labelNames_tokens :
    labelNames listing.tokens =
      (listing.lines.map Line.address ++ [listing.size]).filterMap fun address =>
        (listing.label? address).map Label.name := by
  rw [tokens, Assembly.labelNames_append, labelNames_labelTokens, List.filterMap_append,
    List.filterMap_map]
  congr 1
  · induction listing.lines with
    | nil => rfl
    | cons line lines ih =>
      rw [List.flatMap_cons, Assembly.labelNames_append, lineTokens, Assembly.labelNames_append,
        labelNames_contentTokens, labelNames_labelTokens, List.append_nil, ih]
      simp only [List.filterMap_cons, Function.comp_apply]
      cases listing.label? line.address <;> rfl

end Lines

/-! ## Reading the tokens back -/

/-- What assembling makes of a word that was printed as a number. -/
def readWord (word : Word) : Except Assembly.Cause Word :=
  if word.isValid then .ok word else .error (.numberTooLarge word.toNat.repr)

theorem readWord_of_isValid {word : Word} (h : word.isValid = true) : readWord word = .ok word :=
  if_pos h

/-- A mnemonic that is no label is read as the word of its opcode. -/
theorem read_mnemonic {labels : Labels} {opcode : Opcode}
    (htable : labels.table[opcode.mnemonic]? = none) :
    labels.read (.word opcode.mnemonic) = some (readWord opcode.toWord) := by
  rw [readWord_of_isValid opcode.isValid_toWord]
  exact congrArg some (Labels.word_mnemonic htable)

/-- A word that fits a role is valid. -/
theorem isValid_of_accepts {opcode : Opcode} {role : Role} {word : Word}
    (h : Instruction.accepts opcode role word = true) : word.isValid = true := by
  unfold Instruction.accepts at h
  cases role with
  | destination => exact (Word.isValid_iff word).mpr (.inr h)
  | target => exact (Word.isValid_iff word).mpr (.inl h)
  | value =>
    simp only at h
    split at h
    · rcases (Bool.or_eq_true ..).mp h with hregister | hprintable
      · exact (Word.isValid_iff word).mpr (.inr hregister)
      · have hlt := Word.lt_of_isPrintable hprintable
        exact (Word.isValid_iff_le word).mpr (by omega)
    · exact h

section Words

variable {words : List Word} {placed : List PlacedToken}

/-- No name is defined twice. -/
theorem nodup_labelNames_tokens (words : List Word) :
    (labelNames (ofWords words).tokens).Nodup := by
  rw [labelNames_tokens]
  exact nodup_names words

/-- Where a label is defined, as many words stand in front of it as its address says. -/
theorem exists_tokens_eq {address : Nat} {label : Label}
    (h : (ofWords words).label? address = some label) :
    ∃ front back, (ofWords words).tokens = front ++ .label label.name :: back ∧
      front.countP Token.hasWord = address := by
  have htiles := Line.tiles_sweep 0 words
  have hdefinition : (ofWords words).labelTokens address = [.label label.name] := by
    rw [labelTokens, h]
    rfl
  rcases start_of_label? h with rfl | ⟨line, hline, rfl⟩
  · -- The label stands at the end, behind all lines.
    refine ⟨(Line.sweep 0 words).flatMap (ofWords words).lineTokens, [], ?_, ?_⟩
    · rw [← hdefinition]
      rfl
    · rw [countP_flatMap_lineTokens, htiles.flatMap_toWords]
  · obtain ⟨front, back, hsplit⟩ := List.append_of_mem hline
    have hlines : (ofWords words).lines = front ++ line :: back := hsplit
    rw [hsplit] at htiles
    refine ⟨front.flatMap (ofWords words).lineTokens, (ofWords words).contentTokens line.content ++
      back.flatMap (ofWords words).lineTokens ++ (ofWords words).labelTokens words.length, ?_, ?_⟩
    · rw [tokens, hlines, List.flatMap_append, List.flatMap_cons, lineTokens, hdefinition]
      simp only [List.append_assoc, List.cons_append, List.nil_append]
      rfl
    · rw [countP_flatMap_lineTokens, htiles.address_eq, Nat.zero_add]

variable (hplaced : placed.map PlacedToken.token = (ofWords words).tokens)

include hplaced

/-- The name of a label stands for the address the label was given to. -/
theorem table_name {word : Word} {label : Label} (hliteral : word.isLiteral = true)
    (h : (ofWords words).label? word.toNat = some label) :
    (Labels.ofTokens placed).table[label.name]? = some word := by
  obtain ⟨front, back, htokens, hcount⟩ := exists_tokens_eq h
  have hnodup := nodup_labelNames_tokens words
  rw [htokens, Assembly.labelNames_append] at hnodup
  have hnew : label.name ∉ labelNames front := by
    intro hmem
    exact (List.nodup_append.mp hnodup).2.2 _ hmem _ List.mem_cons_self rfl
  have hlt := (Word.isLiteral_iff word).mp hliteral
  rw [Labels.table_ofTokens, hplaced, htokens, Labels.addressIn?,
    if_pos ⟨label.isName_name, by simp⟩, Assembly.wordsBefore_append_of_not_mem hnew, hcount, Nat.zero_add, memorySize,
    Nat.min_eq_left (by omega), UInt16.ofNat_toNat]

/-- No label hides a mnemonic. -/
theorem table_mnemonic (opcode : Opcode) :
    (Labels.ofTokens placed).table[opcode.mnemonic]? = none := by
  rw [Labels.table_ofTokens, hplaced, Labels.addressIn?, if_neg]
  rintro ⟨-, hmem⟩
  rw [← Assembly.mem_labelNames, labelNames_tokens, List.mem_filterMap] at hmem
  obtain ⟨address, -, hname⟩ := hmem
  obtain ⟨label, -, hlabel⟩ := Option.map_eq_some_iff.mp hname
  exact label.name_ne_mnemonic opcode hlabel

/-- An operand that fits its role is read as the word it was printed for. -/
theorem read_operandToken {opcode : Opcode} {role : Role} {word : Word}
    (h : Instruction.accepts opcode role word = true) :
    (Labels.ofTokens placed).read ((ofWords words).operandToken opcode role word) =
      some (.ok word) := by
  unfold operandToken
  cases hlabel : if role = .target then (ofWords words).label? word.toNat else none with
  | some label =>
    split at hlabel
    · next htarget =>
      subst htarget
      have htable := table_name hplaced h hlabel
      exact congrArg some (Labels.word_of_table label.spelling_name htable)
    · cases hlabel
  | none =>
    simp only
    split
    · next hprinted =>
      rw [Bool.and_eq_true] at hprinted
      exact congrArg some (characterWord_of_isPrintable hprinted.2)
    · refine congrArg some ((Labels.word_textOfWord _ word).trans ?_)
      exact if_pos (isValid_of_accepts h)

/-- What stands on a line is read as the words it was printed for. -/
theorem filterMap_read_contentTokens {line : Line} (hsound : line.IsSound) :
    ((ofWords words).contentTokens line.content).filterMap (Labels.ofTokens placed).read =
      line.toWords.map readWord := by
  obtain ⟨address, content⟩ := line
  cases content with
  | data word =>
    have hread : (Labels.ofTokens placed).read (.word (toString word)) = some (readWord word) :=
      congrArg some (Labels.word_toString _ word)
    rw [contentTokens, List.filterMap_cons_some hread]
    rfl
  | instruction instruction =>
    have haccepts := List.all_eq_true.mp (hsound instruction rfl)
    have hopcode := read_mnemonic (table_mnemonic hplaced instruction.opcode)
    have hoperands : (instruction.operandsWithRoles.map fun operand =>
        (ofWords words).operandToken instruction.opcode operand.1 operand.2).filterMap
          (Labels.ofTokens placed).read =
        (instruction.operandsWithRoles.map Prod.snd).map readWord := by
      rw [List.filterMap_map, List.map_map, ← List.filterMap_eq_map]
      refine List.filterMap_congr fun operand hoperand => ?_
      have haccept := haccepts operand hoperand
      exact (read_operandToken hplaced haccept).trans
        (congrArg some (readWord_of_isValid (isValid_of_accepts haccept)).symm)
    have hwords : instruction.operandsWithRoles.map Prod.snd = instruction.operands.toList := by
      refine List.map_snd_zip (Nat.le_of_eq ?_)
      rw [Vector.length_toList, Opcode.arity]
    rw [contentTokens_instruction, List.filterMap_cons_some hopcode, hoperands, hwords]
    rfl

/-- The tokens of a listing are read as the words it was made from. -/
theorem filterMap_read_tokens :
    (ofWords words).tokens.filterMap (Labels.ofTokens placed).read = words.map readWord := by
  have htiles := Line.tiles_sweep 0 words
  have hlabel (address : Nat) : ((ofWords words).labelTokens address).filterMap
      (Labels.ofTokens placed).read = [] := by
    unfold labelTokens
    cases (ofWords words).label? address <;> rfl
  have hlines (lines : List Line) (hsound : ∀ line ∈ lines, line.IsSound) :
      (lines.flatMap (ofWords words).lineTokens).filterMap (Labels.ofTokens placed).read =
        (lines.flatMap Line.toWords).map readWord := by
    induction lines with
    | nil => rfl
    | cons line lines ih =>
      obtain ⟨hline, hrest⟩ := List.forall_mem_cons.mp hsound
      rw [List.flatMap_cons, List.flatMap_cons, List.filterMap_append, List.map_append, ih hrest,
        lineTokens, List.filterMap_append, hlabel, List.nil_append,
        filterMap_read_contentTokens hplaced hline]
  have hsweep : (ofWords words).lines = Line.sweep 0 words := rfl
  rw [tokens, List.filterMap_append, hlabel, List.append_nil, hsweep, hlines _ htiles.isSound,
    htiles.flatMap_toWords]

/-- No definition of a listing is refused. -/
theorem faults_eq_nil : (Labels.ofTokens placed).faults = [] := by
  rw [Labels.faults_ofTokens_eq_nil_iff, hplaced]
  refine ⟨fun name hname => ?_, nodup_labelNames_tokens words⟩
  rw [labelNames_tokens, List.mem_filterMap] at hname
  obtain ⟨address, -, hname⟩ := hname
  obtain ⟨label, -, rfl⟩ := Option.map_eq_some_iff.mp hname
  exact label.isName_name

end Words

/-! ## The words of the text -/

/-- Words are all read back exactly if all of them are valid. -/
theorem map_readWord_eq_iff (words words' : List Word) :
    words.map readWord = words'.map Except.ok ↔
      words' = words ∧ ∀ word ∈ words, word.isValid = true := by
  induction words generalizing words' with
  | nil => cases words' <;> simp
  | cons word words ih =>
    cases words' with
    | nil => simp
    | cons word' words' =>
      rw [List.map_cons, List.map_cons, List.cons.injEq, ih, List.cons.injEq, List.forall_mem_cons]
      by_cases hvalid : word.isValid = true
      · rw [readWord_of_isValid hvalid, Except.ok.injEq]
        simp only [hvalid, true_and, eq_comm, and_assoc]
      · have hrefused : readWord word = .error (.numberTooLarge word.toNat.repr) := if_neg hvalid
        simp [hrefused, hvalid]

/-- The text of a list of words assembles to the words themselves or not at all, and it assembles
exactly if the words are a program. -/
theorem assemble_disassemble_eq_ok_iff (words words' : List Word) :
    assemble (disassemble words) = .ok words' ↔
      words' = words ∧ words.length ≤ memorySize ∧ ∀ word ∈ words, word.isValid = true := by
  have hplaced : (Assembly.scan (disassemble words).toList).map PlacedToken.token =
      (ofWords words).tokens := tokens_text (ofWords words)
  rw [assemble, Assembly.ofText, Assembly.result_ofTokens_eq_ok_iff, hplaced,
    filterMap_read_tokens hplaced, map_readWord_eq_iff]
  constructor
  · rintro ⟨-, -, ⟨rfl, hvalid⟩, hfits⟩
    exact ⟨rfl, hfits, hvalid⟩
  · rintro ⟨rfl, hfits, hvalid⟩
    exact ⟨malformed_not_mem_tokens _, faults_eq_nil hplaced, ⟨rfl, hvalid⟩, hfits⟩

/-- Disassembling and assembling again gives back every list of words that is a program, and
refuses every other one. -/
theorem assemble_disassemble (words : List Word) :
    (words.length ≤ memorySize ∧ (∀ word ∈ words, word.isValid = true) →
      assemble (disassemble words) = .ok words) ∧
    (¬ (words.length ≤ memorySize ∧ ∀ word ∈ words, word.isValid = true) →
      ∃ diagnostics, assemble (disassemble words) = .error diagnostics) := by
  constructor
  · intro hprogram
    exact (assemble_disassemble_eq_ok_iff words words).mpr ⟨rfl, hprogram⟩
  · intro hnone
    cases hresult : assemble (disassemble words) with
    | error diagnostics => exact ⟨diagnostics, rfl⟩
    | ok words' => exact absurd ((assemble_disassemble_eq_ok_iff words words').mp hresult).2 hnone

end WordMachine.Listing
