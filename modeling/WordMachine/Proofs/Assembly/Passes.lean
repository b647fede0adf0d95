import WordMachine.Proofs.Assembly.Meaning
import WordMachine.Proofs.Assembly.Placing

/-!
# Readings, and the passes that find them

A text is read token by token (`Reading`): a token gives its word, or one diagnostic if it offends
against the language. The assembler goes over the tokens three times instead and keeps a table of
labels on the way. `Reading.unclosed_eq`, `Reading.faults_eq` and
`Reading.words_eq_and_wordFaults_eq` say that each time it finds the part of a reading that it looks
for.
-/

namespace WordMachine.Assembly

/-! ## Readings -/

/-- The tokens behind `front` are read one after the other, each as a word or as one offence; a
definition that is in order gives nothing. -/
inductive Reading (all : List Token) :
    List Token → List PlacedToken → List Word → List Diagnostic → Prop where
  | nil (front : List Token) : Reading all front [] [] []
  | label {front : List Token} {line : Nat} {name : String} {rest : List PlacedToken}
      {words : List Word} {found : List Diagnostic} (hname : IsLabelName name)
      (hnew : .label name ∉ front)
      (hrest : Reading all (front ++ [.label name]) rest words found) :
      Reading all front (⟨line, .label name⟩ :: rest) words found
  | word {front : List Token} {line : Nat} {token : Token} {word : Word}
      {rest : List PlacedToken} {words : List Word} {found : List Diagnostic}
      (hmeans : Means all token word) (hrest : Reading all (front ++ [token]) rest words found) :
      Reading all front (⟨line, token⟩ :: rest) (word :: words) found
  | offence {front : List Token} {line : Nat} {token : Token} {cause : Cause}
      {rest : List PlacedToken} {words : List Word} {found : List Diagnostic}
      (hoffends : Offends all front token cause)
      (hrest : Reading all (front ++ [token]) rest words found) :
      Reading all front (⟨line, token⟩ :: rest) words (⟨line, cause⟩ :: found)

/-- On one line the causes are listed in this order: quotes that are not closed, then labels, then
words and characters, then the size of the program. -/
def Cause.pass : Cause → Nat
  | .unclosedCharacter _ => 0
  | .badLabel _ | .duplicateLabel _ => 1
  | .numberTooLarge _ | .noSuchRegister _ | .characterTooLarge _ | .unknownWord _ => 2
  | .tooManyWords _ => 3

/-- There are no more than four passes. -/
theorem Cause.pass_le (cause : Cause) : cause.pass ≤ 3 := by
  cases cause <;> simp [pass]

/-! ## Every text has a reading -/

/-- No word token is empty. -/
theorem word_empty_not_mem_scanFrom (line : Nat) (text : List Char) :
    .word "" ∉ (scanFrom line text).map PlacedToken.token := by
  induction line, text using scanFrom_induct with
  | nil line =>
    rw [scanFrom_nil]
    exact List.not_mem_nil
  | blank line c rest hc ih => rwa [scanFrom_blank hc]
  | comment line rest ih => rwa [scanFrom_comment]
  | quoted line rest ih =>
    rw [scanFrom_quote, List.map_cons, List.mem_cons, not_or]
    refine ⟨?_, ih⟩
    unfold Quoted.token
    split <;> simp
  | word line word rest hne hword hstop ih =>
    rw [scanFrom_word hne hword hstop, List.map_cons, List.mem_cons, not_or]
    refine ⟨?_, ih⟩
    unfold wordToken
    split
    · simp
    · intro heq
      exact hne (String.ofList_eq_empty_iff.mp (Token.word.inj heq).symm)

/-- Tokens have a reading, unless there is an empty word token. -/
theorem exists_reading (all front : List Token) {rest : List PlacedToken}
    (hne : .word "" ∉ rest.map PlacedToken.token) :
    ∃ words found, Reading all front rest words found := by
  induction rest generalizing front with
  | nil => exact ⟨[], [], .nil front⟩
  | cons placed rest ih =>
    obtain ⟨line, token⟩ := placed
    rw [List.map_cons, List.mem_cons, not_or] at hne
    obtain ⟨words, found, hrest⟩ := ih (front ++ [token]) hne.2
    by_cases hword : token.hasWord = true
    · rcases exists_means_or_offends all front hword (Ne.symm hne.1) with
        ⟨word, hmeans⟩ | ⟨cause, hoffends⟩
      · exact ⟨_, _, .word hmeans hrest⟩
      · exact ⟨_, _, .offence hoffends hrest⟩
    · cases token with
      | word | character => exact absurd rfl hword
      | malformed text => exact ⟨_, _, .offence (.unclosed text) hrest⟩
      | label name =>
        by_cases hname : IsLabelName name
        · by_cases hold : .label name ∈ front
          · exact ⟨_, _, .offence (.duplicateLabel ⟨hname, hold⟩) hrest⟩
          · exact ⟨_, _, .label hname hold hrest⟩
        · exact ⟨_, _, .offence (.badLabel hname) hrest⟩

/-! ## What each pass finds -/

namespace Labels

/-- What is wrong with the word tokens and the characters. -/
def wordFaults (labels : Labels) (placed : List PlacedToken) : List Diagnostic :=
  (placed.filterMap labels.tokenWord?).filterMap fun
    | .error diagnostic => some diagnostic
    | .ok _ => none

/-- The table has the names that are defined. -/
theorem contains_table_iff (placed : List PlacedToken) (name : String) :
    (ofTokens placed).table.contains name = true ↔
      IsDefined (placed.map PlacedToken.token) name := by
  rw [← Std.HashMap.isSome_getElem?_eq_contains]
  by_cases h : IsDefined (placed.map PlacedToken.token) name
  · simp [table_of_isDefined h, h]
  · simp [table_of_not_isDefined h, h]

/-- The labels of one token more. -/
theorem ofTokens_append_singleton (placed : List PlacedToken) (token : PlacedToken) :
    ofTokens (placed ++ [token]) = (ofTokens placed).note token := by
  rw [ofTokens, List.foldl_append]
  rfl

end Labels

namespace Reading

variable {all front : List Token} {rest placed : List PlacedToken} {words : List Word}
  {found : List Diagnostic}

/-- A reading finds nothing about the size of the program. -/
theorem pass_lt (h : Reading all front rest words found) : ∀ fault ∈ found, fault.cause.pass < 3 := by
  induction h with
  | nil => exact fun fault hfault => absurd hfault List.not_mem_nil
  | label _ _ _ ih => exact ih
  | word _ _ ih => exact ih
  | offence hoffends _ ih =>
    refine List.forall_mem_cons.mpr ⟨?_, ih⟩
    cases hoffends <;> simp [Cause.pass]

/-- What is found is on the lines of the tokens, in their order. -/
theorem sublist_line (h : Reading all front rest words found) :
    (found.map Diagnostic.line).Sublist (rest.map PlacedToken.line) := by
  induction h with
  | nil => exact .slnil
  | label _ _ _ ih => exact ih.cons _
  | word _ _ ih => exact ih.cons _
  | offence _ _ ih => exact ih.cons_cons _

/-- The first pass finds the quotes that are not closed. -/
theorem unclosed_eq (h : Reading all front rest words found) :
    rest.filterMap PlacedToken.unclosed? = found.filter (·.cause.pass = 0) := by
  induction h with
  | nil => rfl
  | label _ _ _ ih => exact ih
  | word hmeans _ ih => cases hmeans <;> exact ih
  | offence hoffends _ ih =>
    cases hoffends with
    | unclosed text => exact congrArg (_ :: ·) ih
    | _ => exact ih

/-- The second pass finds the definitions that are not in order, since it knows the names that are
defined in front. -/
theorem faults_eq (h : Reading all front rest words found) {before : List PlacedToken}
    (hfront : before.map PlacedToken.token = front) :
    (rest.foldl Labels.note (Labels.ofTokens before)).faults =
      (found.filter (·.cause.pass = 1)).reverse ++ (Labels.ofTokens before).faults := by
  -- The labels of what stands in front are carried along, one token further at each step.
  induction h generalizing before with
  | nil => rfl
  | @label front line name rest words found hname hnew hrest ih =>
    have hfresh : (Labels.ofTokens before).table.contains name = false := by
      rw [← Bool.not_eq_true, Labels.contains_table_iff, hfront]
      exact fun hdefined => hnew hdefined.2
    rw [List.foldl_cons, ← Labels.ofTokens_append_singleton, ih (by simp [hfront]),
      Labels.ofTokens_append_singleton]
    simp [Labels.note, isName_iff.mpr hname, hfresh]
  | @word front line token word rest words found hmeans hrest ih =>
    rw [List.foldl_cons, ← Labels.ofTokens_append_singleton, ih (by simp [hfront]),
      Labels.ofTokens_append_singleton]
    cases hmeans <;> rfl
  | @offence front line token cause rest words found hoffends hrest ih =>
    rw [List.foldl_cons, ← Labels.ofTokens_append_singleton, ih (by simp [hfront]),
      Labels.ofTokens_append_singleton]
    cases hoffends with
    | badLabel hname =>
      have hbad := (Bool.not_eq_true _).mp (mt isName_iff.mp hname)
      simp [Labels.note, hbad, Cause.pass]
    | duplicateLabel hdefined =>
      have hold := (Labels.contains_table_iff before _).mpr (hfront ▸ hdefined)
      simp [Labels.note, isName_iff.mpr hdefined.1, hold, Cause.pass]
    | _ => rfl

/-- The third pass finds the words, and the word tokens and characters without one. -/
theorem words_eq_and_wordFaults_eq
    (h : Reading (placed.map PlacedToken.token) front rest words found) :
    (rest.filterMap (Labels.ofTokens placed).tokenWord?).filterMap Except.toOption = words ∧
      (Labels.ofTokens placed).wordFaults rest = found.filter (·.cause.pass = 2) := by
  induction h with
  | nil => exact ⟨rfl, rfl⟩
  | label _ _ _ ih => exact ih
  | @word front line token word rest words found hmeans _ ih =>
    have hread : (Labels.ofTokens placed).tokenWord? ⟨line, token⟩ = some (.ok word) := by
      rw [Labels.tokenWord?_eq, read_of_means hmeans]
      rfl
    unfold Labels.wordFaults
    rw [List.filterMap_cons_some hread]
    exact ⟨congrArg (word :: ·) ih.1, ih.2⟩
  | @offence front line token cause rest words found hoffends _ ih =>
    -- Offences of labels and of open quotes are for the passes before.
    by_cases hword : token.hasWord = true
    · have hread : (Labels.ofTokens placed).tokenWord? ⟨line, token⟩ = some (.error ⟨line, cause⟩) := by
        rw [Labels.tokenWord?_eq, read_of_offends hoffends hword]
        rfl
      unfold Labels.wordFaults
      rw [List.filterMap_cons_some hread]
      refine ⟨ih.1, ?_⟩
      have hpass : cause.pass = 2 := by
        cases hoffends <;> first | rfl | cases hword
      rw [List.filter_cons_of_pos (by simpa using hpass)]
      exact congrArg (_ :: ·) ih.2
    · cases hoffends with
      | unclosed | badLabel | duplicateLabel => exact ih
      | _ => exact absurd rfl hword

end Reading

end WordMachine.Assembly
