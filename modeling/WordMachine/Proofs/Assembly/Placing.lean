import WordMachine.Proofs.Assembly.Scanning

/-!
# Where tokens stand

The scan with its lines. `scanFrom` is the scan of a text that starts on any line, with an equation
for each kind of piece that a text can start with, and `Reaches` says how far a scan has come and
what it found on the way: `Reaches.scanFrom_eq` cuts the tokens of a text there, and
`Reaches.exists_append` says that the line is the one that the newlines passed over give. What is
said about all the tokens of a text is shown piece by piece with `scanFrom_induct`.

Lines only shift the tokens (`scanFrom_add`), and they never go down (`pairwise_line_scanFrom`).
-/

namespace WordMachine.Assembly

/-! ## Scanning from any line -/

/-- The tokens of a text that starts on a line, in order. -/
def scanFrom (line : Nat) (text : List Char) : List PlacedToken := (scanOnto [] line text).reverse

/-- The tokens already found stand in front. -/
theorem scanOnto_eq_reverse_append (found : List PlacedToken) (line : Nat) (text : List Char) :
    scanOnto found line text = (scanFrom line text).reverse ++ found := by
  rw [scanOnto_eq_append, scanFrom, List.reverse_reverse]

@[simp] theorem scanFrom_nil (line : Nat) : scanFrom line [] = [] := by
  simp [scanFrom, scanOnto]

/-- A blank is passed over, and counts if it is a newline. -/
theorem scanFrom_blank {c : Char} (hc : Text.isBlank c = true) (line : Nat) (rest : List Char) :
    scanFrom line (c :: rest) = scanFrom (line + [c].count '\n') rest := by
  unfold scanFrom
  rw [scanOnto_blank hc]
  by_cases hnewline : c = '\n'
  · simp [hnewline]
  · simp [hnewline]

/-- A comment is passed over up to its newline. -/
theorem scanFrom_comment (line : Nat) (rest : List Char) :
    scanFrom line (';' :: rest) = scanFrom line (rest.dropWhile (· != '\n')) := by
  unfold scanFrom
  rw [scanOnto_comment]

/-- A quote makes a token of what stands behind it. -/
theorem scanFrom_quote (line : Nat) (rest : List Char) :
    scanFrom line (quote :: rest) =
      ⟨line, (Quoted.ofText rest).token⟩ ::
        scanFrom (line + (Quoted.ofText rest).used.count '\n') (Quoted.ofText rest).rest := by
  rw [scanFrom, scanOnto_quote, scanOnto_eq_reverse_append]
  simp

/-- A word reaches to the first character that belongs to none. -/
theorem scanFrom_word {word rest : List Char} (hne : word ≠ [])
    (hword : ∀ c ∈ word, isWordChar c = true) (hrest : ∀ c ∈ rest.head?, isWordChar c = false)
    (line : Nat) :
    scanFrom line (word ++ rest) = ⟨line, wordToken word⟩ :: scanFrom line rest := by
  rw [scanFrom, scanOnto_word hne hword hrest, scanOnto_eq_reverse_append]
  simp

/-! ## Newlines -/

/-- The newlines of a text are those of its first character and of the rest. -/
theorem count_newline_cons (c : Char) (rest : List Char) :
    (c :: rest).count '\n' = [c].count '\n' + rest.count '\n' := by
  rw [← List.count_append, List.singleton_append]

/-- No newline belongs to a word. -/
theorem count_newline_of_isWordChar {word : List Char} (h : ∀ c ∈ word, isWordChar c = true) :
    word.count '\n' = 0 := by
  rw [List.count_eq_zero]
  intro hmem
  exact absurd (h '\n' hmem) (by decide)

/-- What a comment passes over has no newline. -/
theorem count_newline_takeWhile (text : List Char) :
    (text.takeWhile (· != '\n')).count '\n' = 0 := by
  rw [List.count_eq_zero]
  intro hmem
  have hne := List.all_eq_true.mp (List.all_takeWhile (p := (· != '\n')) (l := text)) '\n' hmem
  simp at hne

/-- The characters that a quoted character uses and the text behind them make up the text. -/
theorem Quoted.used_append_close (value : Char) (used text : List Char) :
    (Quoted.close value used text).used ++ (Quoted.close value used text).rest = used ++ text := by
  fun_cases Quoted.close value used text with
  | case1 rest => simp [quote]
  | case2 rest hclosed => simp [List.takeWhile_append_dropWhile]

theorem Quoted.used_append_rest (text : List Char) :
    (Quoted.ofText text).used ++ (Quoted.ofText text).rest = text := by
  fun_cases Quoted.ofText text with
  | case1 => rfl
  | case2 => rfl
  | case3 c rest => exact used_append_close _ _ _
  | case4 c rest _ _ => exact used_append_close _ _ _

/-! ## How far a scan has come -/

/-- Scanning a text that starts on `line` gets to `rest` on the line `last`, with the tokens `found`
on the way. The cases are the pieces that a text can start with. -/
inductive Reaches : Nat → List Char → List PlacedToken → Nat → List Char → Prop where
  | here (line : Nat) (rest : List Char) : Reaches line rest [] line rest
  | blank {line last : Nat} {c : Char} {text rest : List Char} {found : List PlacedToken}
      (hc : Text.isBlank c = true) (h : Reaches (line + [c].count '\n') text found last rest) :
      Reaches line (c :: text) found last rest
  | comment {line last : Nat} {text rest : List Char} {found : List PlacedToken}
      (h : Reaches line (text.dropWhile (· != '\n')) found last rest) :
      Reaches line (';' :: text) found last rest
  | quoted {line last : Nat} {text rest : List Char} {found : List PlacedToken}
      (h : Reaches (line + (Quoted.ofText text).used.count '\n') (Quoted.ofText text).rest found
        last rest) :
      Reaches line (quote :: text) (⟨line, (Quoted.ofText text).token⟩ :: found) last rest
  | word {line last : Nat} {word text rest : List Char} {found : List PlacedToken}
      (hne : word ≠ []) (hword : ∀ c ∈ word, isWordChar c = true)
      (hstop : ∀ c ∈ text.head?, isWordChar c = false) (h : Reaches line text found last rest) :
      Reaches line (word ++ text) (⟨line, wordToken word⟩ :: found) last rest

namespace Reaches

variable {line middle last : Nat} {text between rest : List Char}
  {found found' : List PlacedToken}

/-- A scan goes on from where it got to. -/
theorem trans (h : Reaches line text found middle between)
    (h' : Reaches middle between found' last rest) :
    Reaches line text (found ++ found') last rest := by
  induction h with
  | here => exact h'
  | blank hc _ ih => exact .blank hc (ih h')
  | comment _ ih => exact .comment (ih h')
  | quoted _ ih => exact .quoted (ih h')
  | word hne hword hstop _ ih => exact .word hne hword hstop (ih h')

/-- The tokens of a text are those found on the way and those of the rest. -/
theorem scanFrom_eq (h : Reaches line text found last rest) :
    scanFrom line text = found ++ scanFrom last rest := by
  induction h with
  | here => rfl
  | blank hc _ ih => rw [scanFrom_blank hc, ih]
  | comment _ ih => rw [scanFrom_comment, ih]
  | quoted _ ih => rw [scanFrom_quote, ih, List.cons_append]
  | word hne hword hstop _ ih => rw [scanFrom_word hne hword hstop, ih, List.cons_append]

/-- The rest is the end of the text, and every newline in front of it counts as a line. -/
theorem exists_append (h : Reaches line text found last rest) :
    ∃ passed, text = passed ++ rest ∧ last = line + passed.count '\n' := by
  induction h with
  | here => exact ⟨[], rfl, rfl⟩
  | @blank line last c text rest found hc _ ih =>
    obtain ⟨passed, rfl, rfl⟩ := ih
    refine ⟨c :: passed, rfl, ?_⟩
    rw [count_newline_cons c passed, Nat.add_assoc]
  | @comment line last text rest found _ ih =>
    obtain ⟨passed, hrest, rfl⟩ := ih
    refine ⟨';' :: (text.takeWhile (· != '\n') ++ passed), ?_, ?_⟩
    · rw [List.cons_append, List.append_assoc, ← hrest, List.takeWhile_append_dropWhile]
    · have hpassed := count_newline_takeWhile text
      simp [List.count_append, hpassed]
  | @quoted line last text rest found _ ih =>
    obtain ⟨passed, hrest, rfl⟩ := ih
    refine ⟨quote :: ((Quoted.ofText text).used ++ passed), ?_, ?_⟩
    · rw [List.cons_append, List.append_assoc, ← hrest, Quoted.used_append_rest]
    · simp [List.count_append, quote]
      omega
  | @word line last word text rest found hne hword hstop _ ih =>
    obtain ⟨passed, rfl, rfl⟩ := ih
    refine ⟨word ++ passed, (List.append_assoc ..).symm, ?_⟩
    rw [List.count_append, count_newline_of_isWordChar hword]
    omega

end Reaches

/-! ## Induction along a scan -/

/-- A text is empty, or it starts with a blank, a comment, a quote or a word. What holds of the
empty text, and of a text if it holds behind its first piece, holds of every text on every line. -/
@[elab_as_elim]
theorem scanFrom_induct {motive : Nat → List Char → Prop} (nil : ∀ line, motive line [])
    (blank : ∀ line c rest, Text.isBlank c = true → motive (line + [c].count '\n') rest →
      motive line (c :: rest))
    (comment : ∀ line rest, motive line (rest.dropWhile (· != '\n')) → motive line (';' :: rest))
    (quoted : ∀ line rest,
      motive (line + (Quoted.ofText rest).used.count '\n') (Quoted.ofText rest).rest →
        motive line (quote :: rest))
    (word : ∀ line word rest, word ≠ [] → (∀ c ∈ word, isWordChar c = true) →
      (∀ c ∈ rest.head?, isWordChar c = false) → motive line rest → motive line (word ++ rest))
    (line : Nat) (text : List Char) : motive line text := by
  -- Each piece has a character, so the text behind it is shorter.
  induction hlength : text.length using Nat.strongRecOn generalizing text line with
  | ind n ih =>
    subst hlength
    by_cases hne : text = []
    · subst hne
      exact nil line
    obtain ⟨c, text, rfl⟩ := List.exists_cons_of_ne_nil hne
    by_cases hblank : Text.isBlank c = true
    · exact blank line c text hblank (ih _ (Nat.lt_succ_self _) _ _ rfl)
    by_cases hcomment : c = ';'
    · subst hcomment
      have hshorter : (text.dropWhile (· != '\n')).length < text.length + 1 :=
        Nat.lt_succ_of_le (List.dropWhile_sublist _).length_le
      exact comment line text (ih _ hshorter _ _ rfl)
    by_cases hquote : c = quote
    · subst hquote
      have hshorter := Nat.lt_succ_of_le (Quoted.length_ofText_le text)
      exact quoted line text (ih _ hshorter _ _ rfl)
    have hc : isWordChar c = true := by simp [isWordChar, hblank, hcomment, hquote]
    have hword : ∀ d ∈ c :: text.takeWhile isWordChar, isWordChar d = true :=
      List.forall_mem_cons.mpr ⟨hc, List.all_eq_true.mp List.all_takeWhile⟩
    have hstop : ∀ d ∈ (text.dropWhile isWordChar).head?, isWordChar d = false := by
      intro d hd
      have hnot := List.head?_dropWhile_not isWordChar text
      rw [Option.mem_def.mp hd] at hnot
      simpa using hnot
    have hshorter : (text.dropWhile isWordChar).length < text.length + 1 :=
      Nat.lt_succ_of_le (List.dropWhile_sublist _).length_le
    have hmotive := word line _ _ (List.cons_ne_nil _ _) hword hstop (ih _ hshorter line _ rfl)
    rwa [List.cons_append, List.takeWhile_append_dropWhile] at hmotive

/-- Every scan gets to the end of its text. -/
theorem reaches_nil (line : Nat) (text : List Char) :
    ∃ last, Reaches line text (scanFrom line text) last [] := by
  induction line, text using scanFrom_induct with
  | nil line =>
    rw [scanFrom_nil]
    exact ⟨line, .here line []⟩
  | blank line c rest hc ih =>
    obtain ⟨last, hrest⟩ := ih
    rw [scanFrom_blank hc]
    exact ⟨last, .blank hc hrest⟩
  | comment line rest ih =>
    obtain ⟨last, hrest⟩ := ih
    rw [scanFrom_comment]
    exact ⟨last, .comment hrest⟩
  | quoted line rest ih =>
    obtain ⟨last, hrest⟩ := ih
    rw [scanFrom_quote]
    exact ⟨last, .quoted hrest⟩
  | word line word rest hne hword hstop ih =>
    obtain ⟨last, hrest⟩ := ih
    rw [scanFrom_word hne hword hstop]
    exact ⟨last, .word hne hword hstop hrest⟩

/-! ## Shifting lines -/

/-- The token, some lines further down. -/
def PlacedToken.down (lines : Nat) (placed : PlacedToken) : PlacedToken :=
  { placed with line := placed.line + lines }

/-- A text that starts some lines further down has its tokens as many lines further down. -/
theorem scanFrom_add (line lines : Nat) (text : List Char) :
    scanFrom (line + lines) text = (scanFrom line text).map (·.down lines) := by
  induction line, text using scanFrom_induct with
  | nil line => rw [scanFrom_nil, scanFrom_nil, List.map_nil]
  | blank line c rest hc ih => rw [scanFrom_blank hc, scanFrom_blank hc, Nat.add_right_comm, ih]
  | comment line rest ih => rw [scanFrom_comment, scanFrom_comment, ih]
  | quoted line rest ih =>
    rw [scanFrom_quote, scanFrom_quote, Nat.add_right_comm, ih, List.map_cons]
    rfl
  | word line word rest hne hword hstop ih =>
    rw [scanFrom_word hne hword hstop, scanFrom_word hne hword hstop, ih, List.map_cons]
    rfl

/-- Lines never go down: the tokens of a text are in the order of their lines, from its first line
on. -/
theorem pairwise_line_scanFrom (line : Nat) (text : List Char) :
    (scanFrom line text).Pairwise (fun first second => first.line ≤ second.line) ∧
      ∀ placed ∈ scanFrom line text, line ≤ placed.line := by
  induction line, text using scanFrom_induct with
  | nil line =>
    rw [scanFrom_nil]
    exact ⟨.nil, fun placed h => absurd h List.not_mem_nil⟩
  | blank line c rest hc ih =>
    rw [scanFrom_blank hc]
    exact ⟨ih.1, fun placed h => Nat.le_of_add_right_le (ih.2 placed h)⟩
  | comment line rest ih =>
    rw [scanFrom_comment]
    exact ih
  | quoted line rest ih =>
    have hbehind := fun placed h => Nat.le_of_add_right_le (ih.2 placed h)
    rw [scanFrom_quote]
    exact ⟨.cons hbehind ih.1, List.forall_mem_cons.mpr ⟨Nat.le_refl _, hbehind⟩⟩
  | word line word rest hne hword hstop ih =>
    rw [scanFrom_word hne hword hstop]
    exact ⟨.cons ih.2 ih.1, List.forall_mem_cons.mpr ⟨Nat.le_refl _, ih.2⟩⟩

end WordMachine.Assembly
