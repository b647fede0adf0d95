import WordMachine.Proofs.Assembly.Resolution
import WordMachine.Proofs.Assembly.Scanning

/-!
# The addresses of labels

Tokens become words one after the other, so that the place of a token among the tokens fixes the
place of its word in the program (`Labels.Emits.exists_append`). A word token that names a label
becomes the number of words in front of the label's definition, wherever the token stands.

There is one exception, and `word_of_label` says that there is no other: behind the last cell of a
full memory the number of words is no literal any more, and a label defined there stands for the
last cell. `assemble_forwardText` has programs of every size with a label at their end.
-/

namespace WordMachine.Assembly

/-! ## Names of labels in use -/

/-- The text is a number: decimal digits only. -/
def IsNumeral (text : String) : Prop :=
  ∀ c ∈ text.toList, Text.Numeral.isDecimalDigit c = true

/-- The text is an `r` and decimal digits, whether there is such a register or not. -/
def IsRegisterName (text : String) : Prop :=
  ∃ digits, digits ≠ [] ∧ text.toList = 'r' :: digits ∧
    ∀ c ∈ digits, Text.Numeral.isDecimalDigit c = true

/-- What is neither a number nor a register is a name. -/
theorem Spelling.ofText_of_not {text : String} (hnumeral : ¬ IsNumeral text)
    (hregister : ¬ IsRegisterName text) : Spelling.ofText text = .name := by
  rw [Spelling.ofText]
  split
  · next c rest heq =>
    refine if_neg fun hall => hregister ⟨c :: rest, List.cons_ne_nil _ _, heq, ?_⟩
    exact List.all_eq_true.mp hall
  · exact if_neg fun hall => hnumeral (List.all_eq_true.mp hall)

/-! ## Words in their places -/

namespace Labels

variable {labels : Labels} {front back : List Token} {words : List Word}

/-- The tokens become the words, if labels stand for what they do here. -/
def Emits (labels : Labels) (tokens : List Token) (words : List Word) : Prop :=
  tokens.filterMap labels.read = words.map Except.ok

/-- A token has a reading exactly if it becomes a word. -/
theorem isSome_read (labels : Labels) (token : Token) :
    (labels.read token).isSome = token.hasWord := by
  cases token <;> rfl

/-- There are as many words as tokens that become words. -/
theorem Emits.length_eq {tokens : List Token} (h : labels.Emits tokens words) :
    words.length = tokens.countP Token.hasWord := by
  have hlength := congrArg List.length h
  rw [List.length_map, List.length_filterMap_eq_countP] at hlength
  rw [← hlength]
  exact List.countP_congr fun token _ => by rw [isSome_read]

/-- The words of a series of tokens are those of its front and then those of its back. -/
theorem Emits.exists_append (h : labels.Emits (front ++ back) words) :
    ∃ before after, words = before ++ after ∧ labels.Emits front before ∧
      labels.Emits back after := by
  unfold Emits at h
  rw [List.filterMap_append] at h
  obtain ⟨before, after, hwords, hfront, hback⟩ := List.map_eq_append_iff.mp h.symm
  exact ⟨before, after, hwords, hfront.symm, hback.symm⟩

/-- A word token at the front becomes the first word. -/
theorem Emits.exists_cons {text : String} (h : labels.Emits (.word text :: back) words) :
    ∃ word after, words = word :: after ∧ labels.word text = .ok word := by
  have hread : labels.word text :: back.filterMap labels.read = words.map Except.ok := h
  obtain ⟨word, after, rfl, hword, -⟩ := List.map_eq_cons_iff.mp hread.symm
  exact ⟨word, after, rfl, hword.symm⟩

/-- A label that is defined once stands for the number of words in front of its definition, cut off
at the last cell. -/
theorem table_of_label {placed : List PlacedToken} {name : String}
    (hfaults : (ofTokens placed).faults = [])
    (hlabel : placed.map PlacedToken.token = front ++ .label name :: back) :
    (ofTokens placed).table[name]? =
      some (UInt16.ofNat (min (front.countP Token.hasWord) (memorySize - 1))) := by
  obtain ⟨hnames, hnodup⟩ := (faults_ofTokens_eq_nil_iff placed).mp hfaults
  rw [hlabel] at hnames hnodup
  have hdefined : Token.label name ∈ front ++ .label name :: back :=
    List.mem_append_right _ List.mem_cons_self
  have hnew : name ∉ labelNames front := by
    rw [labelNames_append] at hnodup
    intro hold
    exact (List.nodup_append.mp hnodup).2.2 name hold name List.mem_cons_self rfl
  have hname : isName name = true := hnames name (mem_labelNames.mpr hdefined)
  rw [table_ofTokens, hlabel, addressIn?, if_pos ⟨hname, hdefined⟩,
    wordsBefore_append_of_not_mem hnew, Nat.zero_add]

end Labels

/-! ## Labels mean addresses -/

/-- A program that assembles has the words of its tokens, and they fit into memory. -/
theorem emits_of_assemble {text : String} {words : List Word} (h : assemble text = .ok words) :
    (Labels.ofTokens (scan text.toList)).faults = [] ∧
      (Labels.ofTokens (scan text.toList)).Emits (tokens text.toList) words ∧
      words.length ≤ memorySize := by
  obtain ⟨-, hfaults, hread, hfits⟩ := (result_ofTokens_eq_ok_iff (scan text.toList) words).mp h
  exact ⟨hfaults, hread, hfits⟩

/-- In a text that assembles, a word token that names a label becomes the number of words in front
of the definition of the label, in front of which and behind which it may stand. The number is cut
off at the last cell, so that the label means its address exactly if its definition does not stand
behind a full memory. -/
theorem word_of_label {text name : String} {words : List Word}
    {front back front' back' : List Token} (hassemble : assemble text = .ok words)
    (hlabel : tokens text.toList = front ++ .label name :: back)
    (hword : tokens text.toList = front' ++ .word name :: back')
    (hnumeral : ¬ IsNumeral name) (hregister : ¬ IsRegisterName name) :
    ∃ preceding before word after,
      (Labels.ofTokens (scan text.toList)).Emits front preceding ∧ preceding <+: words ∧
      (Labels.ofTokens (scan text.toList)).Emits front' before ∧ words = before ++ word :: after ∧
      word.toNat = min preceding.length (memorySize - 1) ∧
      (word.toNat = preceding.length ↔ preceding.length < memorySize) := by
  obtain ⟨hfaults, hemits, hfits⟩ := emits_of_assemble hassemble
  have htable := Labels.table_of_label hfaults hlabel
  obtain ⟨preceding, following, hsplit, hpreceding, -⟩ := (hlabel ▸ hemits).exists_append
  obtain ⟨before, rest, hplace, hbefore, hrest⟩ := (hword ▸ hemits).exists_append
  obtain ⟨word, after, rfl, hread⟩ := hrest.exists_cons
  rw [Labels.word_of_table (Spelling.ofText_of_not hnumeral hregister) htable,
    ← hpreceding.length_eq] at hread
  have hvalue : word.toNat = min preceding.length (memorySize - 1) := by
    rw [← Except.ok.inj hread, UInt16.toNat_ofNat', memorySize]
    omega
  refine ⟨preceding, before, word, after, hpreceding, ⟨following, hsplit.symm⟩, hbefore, hplace,
    hvalue, ?_⟩
  rw [hvalue, memorySize]
  omega

/-! ## Labels at the end -/

/-- A text that refers to a label behind a number of instructions, which is defined at the end. -/
def forwardText (count : Nat) : String :=
  "end " ++ String.join (List.replicate count "noop ") ++ "end:"

theorem tokens_forwardText (count : Nat) :
    tokens (forwardText count).toList =
      (.word "end" :: List.replicate count (.word "noop")) ++ [.label "end"] := by
  have hend : SpellsAlways "end ".toList [.word "end"] :=
    (@spells_word "end".toList (by decide) (List.all_eq_true.mp rfl)).append_blank (by decide)
  have hnoop : SpellsAlways "noop ".toList [.word "noop"] :=
    (@spells_word "noop".toList (by decide) (List.all_eq_true.mp rfl)).append_blank (by decide)
  have hlabel : Spells "end:".toList [.label "end"] :=
    @spells_label "end".toList (List.all_eq_true.mp rfl)
  have hnoops : SpellsAlways (List.replicate count "noop ".toList).flatten
      (List.replicate count (.word "noop")) := by
    induction count with
    | zero => exact spellsAlways_nil
    | succ count ih => exact hnoop.append ih
  have htext : (forwardText count).toList =
      "end ".toList ++ (List.replicate count "noop ".toList).flatten ++ "end:".toList := by
    rw [forwardText, String.toList_append, String.toList_append, String.toList_join,
      List.flatMap_replicate]
  have hspells := (hend.append hnoops).append_spells hlabel [] nofun
  rw [List.append_nil, tokens_nil, List.append_nil] at hspells
  rw [htext, hspells]
  rfl

theorem labelNames_forwardText (count : Nat) :
    labelNames (tokens (forwardText count).toList) = ["end"] := by
  have hnoops : labelNames (List.replicate count (.word "noop")) = [] :=
    List.filterMap_replicate_of_none rfl
  rw [tokens_forwardText, labelNames_append]
  change labelNames (List.replicate count (.word "noop")) ++ ["end"] = ["end"]
  rw [hnoops, List.nil_append]

/-- The label at the end stands for the number of words, unless they fill the memory. -/
theorem assemble_forwardText {count : Nat} (h : count < memorySize) :
    assemble (forwardText count) =
      .ok (UInt16.ofNat (min (count + 1) (memorySize - 1)) ::
        List.replicate count Opcode.noop.toWord) := by
  have hnames := labelNames_forwardText count
  have htokens := tokens_forwardText count
  rw [tokens] at hnames htokens
  have hfaults : (Labels.ofTokens (scan (forwardText count).toList)).faults = [] := by
    rw [Labels.faults_ofTokens_eq_nil_iff, hnames]
    exact ⟨by decide, by decide⟩
  have hend : (Labels.ofTokens (scan (forwardText count).toList)).word "end" =
      .ok (UInt16.ofNat (min (count + 1) (memorySize - 1))) := by
    refine Labels.word_of_table rfl ?_
    rw [Labels.table_of_label hfaults htokens, List.countP_cons,
      List.countP_replicate]
    rfl
  have hnoop : (Labels.ofTokens (scan (forwardText count).toList)).word "noop" =
      .ok Opcode.noop.toWord := by
    refine @Labels.word_mnemonic _ .noop ?_
    rw [Labels.table_ofTokens, Labels.addressIn?, if_neg]
    rw [← mem_labelNames, hnames]
    decide
  refine (result_ofTokens_eq_ok_iff _ _).mpr ⟨?_, hfaults, ?_, ?_⟩
  · rw [htokens]
    simp
  · rw [htokens, List.filterMap_append, List.filterMap_cons, List.map_cons, List.map_replicate]
    simp only [Labels.read, hend]
    rw [List.filterMap_replicate_of_some (by rw [Labels.read, hnoop])]
    exact List.append_nil _
  · rw [List.length_cons, List.length_replicate]
    exact h

/-- A label in the last cell means its address: the word for it is the number of words. -/
theorem word_of_label_in_last_cell :
    ∃ words word after preceding, assemble (forwardText 32766) = .ok words ∧
      words = word :: after ∧
      (Labels.ofTokens (scan (forwardText 32766).toList)).Emits
        (.word "end" :: List.replicate 32766 (.word "noop")) preceding ∧
      preceding.length = 32767 ∧ word.toNat = preceding.length := by
  have hassemble : assemble (forwardText 32766) = _ := assemble_forwardText (by decide)
  have hlabel := tokens_forwardText 32766
  have hword : tokens (forwardText 32766).toList = [] ++ .word "end" :: _ := hlabel
  have hnumeral : ¬ IsNumeral "end" := fun h => absurd (h 'e' (by decide)) (by decide)
  have hregister : ¬ IsRegisterName "end" := by
    rintro ⟨digits, -, h, -⟩
    exact absurd (List.cons.inj h).1 (by decide)
  obtain ⟨preceding, before, word, after, hpreceding, -, hbefore, hwords, -, haddress⟩ :=
    word_of_label hassemble hlabel hword hnumeral hregister
  obtain rfl : before = [] := List.eq_nil_of_length_eq_zero hbefore.length_eq
  have hlength : preceding.length = 32767 := by
    rw [hpreceding.length_eq, List.countP_cons, List.countP_replicate]
    rfl
  exact ⟨_, word, after, preceding, hassemble, hwords, hpreceding, hlength,
    haddress.mpr (by rw [hlength]; decide)⟩

/-- A label behind a full memory does not mean its address: there are `32768` words in front of its
definition, and the word for it is the last cell. -/
theorem word_of_label_behind_last_cell :
    tokens (forwardText 32767).toList =
        (.word "end" :: List.replicate 32767 (.word "noop")) ++ [.label "end"] ∧
      ∃ words word, assemble (forwardText 32767) = .ok words ∧ words.head? = some word ∧
        words.length = 32768 ∧ word.toNat = 32767 := by
  refine ⟨tokens_forwardText 32767, _, _, assemble_forwardText (by decide), rfl, ?_, ?_⟩
  · rw [List.length_cons, List.length_replicate]
  · decide

end WordMachine.Assembly
