import WordMachine.Proofs.Listing.Numbering
import WordMachine.Proofs.Listing.Tokens
import WordMachine.Proofs.Text.Cutting

/-!
# The printed listing

What stands on the lines of text of a listing. `lines_text` cuts the text, and `isPrinting` says
what the pieces are: the lines of the listing, indented, each once and in order, and in between the
definitions of the labels, each once, directly in front of the line that it names or behind all
lines. What a jump or call goes to is written as its label, or as a number if it has none.

`lines_and_labels_exact` adds how lines are cut and how labels are given.
-/

namespace WordMachine.Listing

/-! ## Lines of text -/

/-- The line of text that defines a label. -/
def definitionText (label : Label) : String := label.name ++ ":"

/-- The line of text for what a line of the listing holds. -/
def indentedText (listing : Listing) (line : Line) : String :=
  "    " ++ listing.contentText line.content

/-- The line of text starts with a blank. -/
def isIndented (text : String) : Bool := text.toList.head? == some ' '

/-- A target as it is written: as its label, or as a number. -/
def targetText (listing : Listing) (target : Word) : String :=
  match listing.label? target.toNat with
  | some label => label.name
  | none => target.toNat.repr

/-- The lines of text print the listing. -/
structure IsPrinting (listing : Listing) (texts : List String) : Prop where
  /-- Lines of the listing are printed in order, each once. -/
  contents : texts.filter isIndented = listing.lines.map listing.indentedText
  /-- Nothing else is printed but definitions of labels. -/
  definitions : ∀ text ∈ texts, isIndented text = true ∨
    ∃ address label, listing.label? address = some label ∧ text = definitionText label
  /-- A label is defined once: in front of the line at its address, or at the end. -/
  defined : ∀ address label, listing.label? address = some label →
    ∃ front back, texts = front ++ definitionText label :: back ∧
      definitionText label ∉ front ∧ definitionText label ∉ back ∧
      front.filter isIndented =
        (listing.lines.filter (·.address < address)).map listing.indentedText ∧
      ((∃ line ∈ listing.lines, line.address = address ∧
        ∃ rest, back = listing.indentedText line :: rest) ∨ address = listing.size ∧ back = [])
  /-- Targets are written as labels if they have one, and as numbers if not. -/
  branches : ∀ line ∈ listing.lines, ∀ opcode target, line.branch? = some (opcode, target) →
    ∃ conditions, line.toWords = opcode.toWord :: (conditions ++ [target]) ∧
      listing.contentText line.content = " ".intercalate
        (opcode.mnemonic :: (conditions.map Operand.textOfWord ++ [listing.targetText target]))

section Lines

variable {listing : Listing} {address : Nat} {label : Label}

@[simp] theorem isIndented_indentedText (line : Line) :
    isIndented (listing.indentedText line) = true := by
  unfold isIndented indentedText
  rw [String.toList_append]
  rfl

/-- No name starts with a blank. -/
@[simp] theorem isIndented_definitionText (label : Label) :
    isIndented (definitionText label) = false := by
  unfold isIndented definitionText
  rw [String.toList_append, Label.toList_name]
  rcases label.stem_eq with hstem | hstem <;> rw [hstem] <;> rfl

theorem labelText_eq (address : Nat) :
    listing.labelText address = (listing.label? address).toList.map definitionText := rfl

theorem textLines_eq : listing.textLines =
    listing.lines.flatMap listing.lineText ++ listing.labelText listing.size := rfl

theorem filter_isIndented_labelText (address : Nat) :
    (listing.labelText address).filter isIndented = [] := by
  rw [labelText_eq]
  cases listing.label? address <;> simp

/-- Of the lines of text of some lines those are indented that are not definitions. -/
theorem filter_isIndented_flatMap (lines : List Line) :
    (lines.flatMap listing.lineText).filter isIndented = lines.map listing.indentedText := by
  have hline (line : Line) :
      (listing.lineText line).filter isIndented = [listing.indentedText line] := by
    rw [lineText, List.filter_append, filter_isIndented_labelText]
    exact List.filter_cons_of_pos (isIndented_indentedText line)
  rw [List.filter_flatMap, List.map_eq_flatMap]
  simp only [hline]

/-- The other lines of text are the definitions at the starts of lines and at the end. -/
theorem filter_not_isIndented_textLines :
    listing.textLines.filter (!isIndented ·) =
      (listing.lines.map Line.address ++ [listing.size]).flatMap listing.labelText := by
  have hlabel (address : Nat) :
      (listing.labelText address).filter (!isIndented ·) = listing.labelText address := by
    rw [labelText_eq]
    cases listing.label? address <;> simp
  have hline (line : Line) :
      (listing.lineText line).filter (!isIndented ·) = listing.labelText line.address := by
    have hcontent : isIndented ("    " ++ listing.contentText line.content) = true :=
      isIndented_indentedText line
    rw [lineText, List.filter_append, hlabel, List.filter_singleton, hcontent]
    exact List.append_nil _
  rw [textLines_eq, List.filter_append, List.filter_flatMap, hlabel, List.flatMap_append,
    List.flatMap_map, List.flatMap_singleton]
  simp only [hline]

/-- Definitions are the definitions of names. -/
theorem flatMap_labelText (addresses : List Nat) :
    addresses.flatMap listing.labelText =
      (addresses.filterMap fun address => (listing.label? address).map Label.name).map
        (· ++ ":") := by
  rw [List.filterMap_eq_flatMap_toList, List.map_flatMap]
  refine congrArg (addresses.flatMap ·) (funext fun address => ?_)
  rw [labelText_eq]
  cases listing.label? address <;> rfl

end Lines

/-- No label is defined twice. -/
theorem nodup_definitions (words : List Word) :
    ((ofWords words).textLines.filter (!isIndented ·)).Nodup := by
  rw [filter_not_isIndented_textLines, flatMap_labelText]
  exact (nodup_names words).map fun _ _ => String.append_left_inj _ |>.mp

/-- A definition has one place in the text if it has one. -/
theorem definitionText_not_mem {words : List Word} {label : Label} {front back : List String}
    (h : (ofWords words).textLines = front ++ definitionText label :: back) :
    definitionText label ∉ front ∧ definitionText label ∉ back := by
  have hnodup := nodup_definitions words
  have hdefinition : (!isIndented (definitionText label)) = true := by simp
  rw [h, List.filter_append, List.filter_cons_of_pos (p := (!isIndented ·)) hdefinition,
    List.nodup_append, List.nodup_cons] at hnodup
  obtain ⟨-, ⟨hback, -⟩, hfront⟩ := hnodup
  constructor
  · intro hmem
    exact hfront _ (List.mem_filter.mpr ⟨hmem, hdefinition⟩) _ List.mem_cons_self rfl
  · intro hmem
    exact hback (List.mem_filter.mpr ⟨hmem, hdefinition⟩)

/-- A label is defined in front of the line at its address, or at the end. -/
theorem exists_textLines_eq {words : List Word} {address : Nat} {label : Label}
    (h : (ofWords words).label? address = some label) :
    ∃ front back, (ofWords words).textLines = front ++ definitionText label :: back ∧
      front.filter isIndented =
        ((ofWords words).lines.filter (·.address < address)).map (ofWords words).indentedText ∧
      ((∃ line ∈ (ofWords words).lines, line.address = address ∧
        ∃ rest, back = (ofWords words).indentedText line :: rest) ∨
          address = (ofWords words).size ∧ back = []) := by
  have htiles := Line.tiles_sweep 0 words
  have hdefinition : (ofWords words).labelText address = [definitionText label] := by
    rw [labelText_eq, h]
    rfl
  rcases start_of_label? h with hend | ⟨line, hline, rfl⟩
  · -- All lines are in front of the end.
    have hall : (Line.sweep 0 words).filter (·.address < address) = Line.sweep 0 words := by
      refine List.filter_eq_self.mpr fun line hline => decide_eq_true ?_
      have hlt := (htiles.address_mem line hline).2
      omega
    refine ⟨(Line.sweep 0 words).flatMap (ofWords words).lineText, [], ?_, ?_, .inr ⟨hend, rfl⟩⟩
    · rw [← hdefinition, hend]
      rfl
    · rw [filter_isIndented_flatMap]
      exact congrArg _ hall.symm
  · obtain ⟨front, back, hsplit⟩ := List.append_of_mem hline
    have hlines : (ofWords words).lines = front ++ line :: back := hsplit
    refine ⟨front.flatMap (ofWords words).lineText, (ofWords words).indentedText line ::
      (back.flatMap (ofWords words).lineText ++ (ofWords words).labelText words.length), ?_, ?_,
      .inl ⟨line, hline, rfl, _, rfl⟩⟩
    · rw [textLines_eq, hlines, List.flatMap_append, List.flatMap_cons, lineText, hdefinition]
      simp only [List.append_assoc, List.cons_append, List.nil_append]
      rfl
    · rw [hsplit] at htiles
      rw [filter_isIndented_flatMap, hlines, htiles.filter_address_lt]

/-! ## Cutting the text -/

/-- Letters and digits are no newlines. -/
theorem newline_not_mem_of_isAlphanum {text : List Char} (h : ∀ c ∈ text, c.isAlphanum = true) :
    '\n' ∉ text :=
  fun hmem => absurd (h '\n' hmem) (by decide)

/-- A quoted newline is written with an escape. -/
theorem newline_not_mem_quoted {word : Word} (h : word.isPrintable = true) :
    '\n' ∉ (quoted word).toList := by
  have hlt := Word.lt_of_isPrintable h
  unfold quoted
  rw [String.toList_append, String.toList_append]
  generalize word.toNat = code at hlt ⊢
  split
  case h_9 hnewline _ _ _ _ _ _ =>
    rw [String.toList_singleton]
    have hne : Char.ofNat code ≠ '\n' := by
      intro heq
      have hcode := congrArg Char.toNat heq
      rw [toNat_ofNat_of_lt (by omega)] at hcode
      exact hnewline hcode
    simp [hne.symm]
  all_goals decide

theorem newline_not_mem_operandText (listing : Listing) (opcode : Opcode) (role : Role)
    (word : Word) : '\n' ∉ (listing.operandText opcode role word).toList := by
  unfold operandText
  split
  · next label _ => exact newline_not_mem_of_isAlphanum fun _ => Label.isAlphanum_of_mem_name
  · split
    · next hprinted =>
      rw [Bool.and_eq_true] at hprinted
      exact newline_not_mem_quoted hprinted.2
    · exact newline_not_mem_of_isAlphanum fun _ => isAlphanum_of_mem_textOfWord

/-- Texts with blanks between them have no newline if they have none themselves. -/
theorem newline_not_mem_intercalate {texts : List (List Char)} (h : ∀ text ∈ texts, '\n' ∉ text) :
    '\n' ∉ [' '].intercalate texts := by
  induction texts with
  | nil => exact List.not_mem_nil
  | cons text texts ih =>
    obtain ⟨htext, htexts⟩ := List.forall_mem_cons.mp h
    cases texts with
    | nil =>
      rw [List.intercalate_singleton]
      exact htext
    | cons second texts =>
      rw [List.intercalate_cons_cons, List.mem_append, List.mem_append, not_or, not_or]
      exact ⟨⟨htext, by decide⟩, ih htexts⟩

/-- What a line holds is written on one line of text. -/
theorem newline_not_mem_contentText (listing : Listing) (content : Content) :
    '\n' ∉ (listing.contentText content).toList := by
  cases content with
  | data word => exact newline_not_mem_of_isAlphanum fun _ => Text.Numeral.isAlphanum_of_mem_repr
  | instruction instruction =>
    unfold contentText
    rw [String.toList_intercalate]
    refine newline_not_mem_intercalate ?_
    rw [List.map_cons, List.map_map]
    refine List.forall_mem_cons.mpr ⟨?_, ?_⟩
    · exact newline_not_mem_of_isAlphanum fun _ => isAlphanum_of_mem_mnemonic
    · intro text htext
      obtain ⟨⟨role, word⟩, -, rfl⟩ := List.mem_map.mp htext
      exact newline_not_mem_operandText listing _ role word

/-- No line of text has a newline in it. -/
theorem newline_not_mem_textLines (listing : Listing) :
    ∀ line ∈ listing.textLines, '\n' ∉ line.toList := by
  have hlabel (address : Nat) : ∀ line ∈ listing.labelText address, '\n' ∉ line.toList := by
    intro line hline
    obtain ⟨label, -, rfl⟩ := List.mem_map.mp hline
    rw [String.toList_append, List.mem_append, not_or]
    exact ⟨newline_not_mem_of_isAlphanum fun _ => Label.isAlphanum_of_mem_name, by decide⟩
  intro text htext
  rw [textLines, List.mem_append, List.mem_flatMap] at htext
  rcases htext with ⟨line, -, hline⟩ | hend
  · rcases List.mem_append.mp hline with hdefinition | hcontent
    · exact hlabel _ text hdefinition
    · rw [List.mem_singleton.mp hcontent, String.toList_append, List.mem_append, not_or]
      exact ⟨by decide, newline_not_mem_contentText listing line.content⟩
  · exact hlabel _ text hend

/-- The text of a listing falls into its lines of text. -/
theorem lines_text (listing : Listing) :
    Text.lines listing.text.toList = listing.textLines.map fun line => (line ++ "\n").toList := by
  have hcut : ∀ line ∈ listing.textLines.map String.toList, '\n' ∉ line := by
    intro line hline
    obtain ⟨text, htext, rfl⟩ := List.mem_map.mp hline
    exact newline_not_mem_textLines listing text htext
  have hlines := Text.lines_flatMap hcut
  rw [text, String.toList_join, List.flatMap_map]
  simp only [List.flatMap_map, List.map_map, Function.comp_def] at hlines
  simp only [String.toList_append]
  exact hlines

/-! ## Targets -/

/-- A number is written as a number. -/
theorem textOfWord_of_isLiteral {word : Word} (h : word.isLiteral = true) :
    Operand.textOfWord word = word.toNat.repr := by
  rw [Operand.textOfWord, Operand.decode, dif_pos ((Word.isLiteral_iff word).mp h)]
  rfl

/-- What a jump or call goes to is written as its label or as a number. -/
theorem operandText_target (listing : Listing) {opcode : Opcode} {target : Word}
    (h : Instruction.accepts opcode .target target = true) (hout : opcode ≠ .out) :
    listing.operandText opcode .target target = listing.targetText target := by
  unfold operandText targetText
  rw [if_pos rfl]
  cases listing.label? target.toNat with
  | some label => rfl
  | none =>
    simp only [hout, decide_false, Bool.false_and, Bool.false_eq_true, if_false]
    exact textOfWord_of_isLiteral h

/-- A number that is neither printed nor a target is written as it is. -/
theorem operandText_value (listing : Listing) {opcode : Opcode} (hout : opcode ≠ .out)
    (word : Word) : listing.operandText opcode .value word = Operand.textOfWord word := by
  simp [operandText, hout]

/-- A jump or call has what it goes to at its end, and in front of it at most a number to test. -/
theorem exists_of_branch? {line : Line} {opcode : Opcode} {target : Word}
    (h : line.branch? = some (opcode, target)) :
    opcode ≠ .out ∧ ∃ instruction conditions, line.content = .instruction instruction ∧
      instruction.opcode = opcode ∧ instruction.operands.toList = conditions ++ [target] ∧
      opcode.roles = conditions.map (fun _ => .value) ++ [.target] := by
  unfold Line.branch? at h
  split at h
  · cases h
  next instruction hcontent =>
  split at h
  · next hopcode hoperands =>
    obtain ⟨rfl, rfl⟩ := Prod.mk.inj (Option.some.inj h)
    exact ⟨by decide, instruction, [], hcontent, hopcode, hoperands, rfl⟩
  · next condition _ hopcode hoperands =>
    obtain ⟨rfl, rfl⟩ := Prod.mk.inj (Option.some.inj h)
    exact ⟨by decide, instruction, [condition], hcontent, hopcode, hoperands, rfl⟩
  · next condition _ hopcode hoperands =>
    obtain ⟨rfl, rfl⟩ := Prod.mk.inj (Option.some.inj h)
    exact ⟨by decide, instruction, [condition], hcontent, hopcode, hoperands, rfl⟩
  · next hopcode hoperands =>
    obtain ⟨rfl, rfl⟩ := Prod.mk.inj (Option.some.inj h)
    exact ⟨by decide, instruction, [], hcontent, hopcode, hoperands, rfl⟩
  · cases h

/-- A jump or call is written with what it goes to at its end. -/
theorem contentText_of_branch? (listing : Listing) {line : Line} {opcode : Opcode} {target : Word}
    (hsound : line.IsSound) (hbranch : line.branch? = some (opcode, target)) :
    ∃ conditions, line.toWords = opcode.toWord :: (conditions ++ [target]) ∧
      listing.contentText line.content = " ".intercalate
        (opcode.mnemonic :: (conditions.map Operand.textOfWord ++ [listing.targetText target])) := by
  obtain ⟨hout, instruction, conditions, hcontent, rfl, hoperands, hroles⟩ :=
    exists_of_branch? hbranch
  have hpaired : instruction.operandsWithRoles =
      conditions.map (fun word => (.value, word)) ++ [(.target, target)] := by
    have hvalues (words : List Word) : (words.map fun _ => Role.value).zip words =
        words.map fun word => (.value, word) := by
      induction words with
      | nil => rfl
      | cons word words ih => rw [List.map_cons, List.zip_cons_cons, ih, List.map_cons]
    rw [Instruction.operandsWithRoles, hroles, hoperands, List.zip_append (by simp), hvalues]
    rfl
  have haccepts := List.all_eq_true.mp (hsound instruction hcontent) (.target, target)
    (by rw [hpaired]; simp)
  refine ⟨conditions, ?_, ?_⟩
  · rw [Line.toWords, hcontent]
    simp only [Instruction.toWords, hoperands]
  · rw [hcontent, contentText, hpaired, List.map_append, List.map_map, List.map_singleton]
    simp only [Function.comp_def, operandText_value listing hout,
      operandText_target listing haccepts hout]

/-! ## The whole listing -/

/-- The lines of text of a listing print it. -/
theorem isPrinting (words : List Word) : IsPrinting (ofWords words) (ofWords words).textLines where
  contents := by
    rw [textLines_eq, List.filter_append, filter_isIndented_flatMap, filter_isIndented_labelText,
      List.append_nil]
  definitions := by
    intro text htext
    by_cases hindented : isIndented text = true
    · exact .inl hindented
    · refine .inr ?_
      have hkept : text ∈ (ofWords words).textLines.filter (!isIndented ·) :=
        List.mem_filter.mpr ⟨htext, by simpa using hindented⟩
      rw [filter_not_isIndented_textLines] at hkept
      obtain ⟨address, -, hdefinition⟩ := List.mem_flatMap.mp hkept
      obtain ⟨label, hlabel, rfl⟩ := List.mem_map.mp hdefinition
      exact ⟨address, label, Option.mem_toList.mp hlabel, rfl⟩
  defined := by
    intro address label h
    obtain ⟨front, back, htexts, hfront, hback⟩ := exists_textLines_eq h
    obtain ⟨hfirst, hlast⟩ := definitionText_not_mem htexts
    exact ⟨front, back, htexts, hfirst, hlast, hfront, hback⟩
  branches := by
    intro line hline opcode target hbranch
    exact contentText_of_branch? _ ((Line.tiles_sweep 0 words).isSound line hline) hbranch

/-- What a list of words is listed as, and how this is printed. The lines are cut from the words.
An address has a label if a jump or call goes to it and a line starts or the program ends there; the
labels of jumps and those of calls are numbered in the order in which their addresses are first
referred to, and no two addresses have labels with one name. The text falls into lines that print
the listing. -/
theorem lines_and_labels_exact (words : List Word) :
    Line.AreCutFrom (ofWords words).lines words ∧
      (∀ address, (∃ label, (ofWords words).label? address = some label) ↔
        (∃ line ∈ (ofWords words).lines, ∃ opcode target,
          line.branch? = some (opcode, target) ∧ target.toNat = address) ∧
          IsStart (ofWords words).lines words.length address) ∧
      (∀ address number, (ofWords words).label? address = some (.jump number) ↔
        ((jumped (firstReferences words)).map UInt16.toNat)[number]? = some address) ∧
      (∀ address number, (ofWords words).label? address = some (.call number) ↔
        ((called (firstReferences words)).map UInt16.toNat)[number]? = some address) ∧
      (∀ address other label label', (ofWords words).label? address = some label →
        (ofWords words).label? other = some label' → label.name = label'.name →
          address = other) ∧
      ∃ texts, Text.lines (disassemble words).toList =
          texts.map (fun line => (line ++ "\n").toList) ∧
        IsPrinting (ofWords words) texts := by
  refine ⟨Line.areCutFrom_sweep words, fun address => exists_label?_iff,
    fun address number => label?_eq_jump_iff, fun address number => label?_eq_call_iff, ?_,
    _, lines_text (ofWords words), isPrinting words⟩
  intro address other label label' h hother hname
  obtain rfl := Label.name_inj hname
  exact label?_inj h hother

end WordMachine.Listing
