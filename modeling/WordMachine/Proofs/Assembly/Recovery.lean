import WordMachine.Assembly
import WordMachine.Proofs.Assembly.Placing
import WordMachine.Proofs.Assembly.Resolution

/-!
# Behind a malformed character

What the scan does behind a quote without a partner. `Reaches.append` says that a text can be cut in
front of a newline and scanned in two parts, unless a quote stands open at the cut, so that the
newline would be its character.

From this `resumes_behind_malformed` says what a malformed character costs: its line is scanned on
from the next blank, and the lines below as if they stood alone. There is one exception, and it is
the one for the cut: a newline that is the character itself is used up, and then what is given up
reaches into the next line. `scan_lostDefinition` is a text that loses the definition of a label in
this way.
-/

namespace WordMachine.Assembly

namespace Quoted

/-! ## What a quote uses up -/

/-- Unless there is not so much text, a quote looks at one character, or at two if the first is a
backslash, and at nothing behind them but for closing. -/
theorem exists_close (text : List Char) :
    text = [] ∨ text = ['\\'] ∨ ∃ value looked rest, text = looked ++ rest ∧
      ((∃ c, looked = [c]) ∨ ∃ c, looked = ['\\', c]) ∧
      ∀ tail, ofText (text ++ tail) = close value looked (rest ++ tail) := by
  cases text with
  | nil => exact .inl rfl
  | cons c rest =>
    by_cases hc : c = '\\'
    · subst hc
      cases rest with
      | nil => exact .inr (.inl rfl)
      | cons d rest =>
        exact .inr (.inr ⟨unescape d, ['\\', d], rest, rfl, .inr ⟨d, rfl⟩, fun tail => rfl⟩)
    · refine .inr (.inr ⟨c, [c], rest, rfl, .inl ⟨c, rfl⟩, fun tail => ?_⟩)
      rw [List.cons_append, ofText]
      · intro h
        exact absurd h hc
      · intro d rest' h
        exact absurd h hc

/-- Without a quote the text up to the next blank is given up. -/
theorem close_of_head?_ne {text : List Char} (h : text.head? ≠ some quote) (value : Char)
    (looked : List Char) :
    close value looked text =
      ⟨none, looked ++ text.takeWhile Text.isSolid, text.dropWhile Text.isSolid⟩ := by
  fun_cases Quoted.close value looked text with
  | case1 rest => exact absurd rfl h
  | case2 rest hopen => rfl

/-- What is given up has no blanks, and goes up to one. -/
theorem isBlank_takeWhile_isSolid (text : List Char) :
    (∀ c ∈ text.takeWhile Text.isSolid, Text.isBlank c = false) ∧
      ∀ c ∈ (text.dropWhile Text.isSolid).head?, Text.isBlank c = true := by
  constructor
  · intro c hc
    have hsolid := List.all_eq_true.mp (List.all_takeWhile (p := Text.isSolid) (l := text)) c hc
    simpa [Text.isSolid] using hsolid
  · intro c hc
    have hstop := List.head?_dropWhile_not Text.isSolid text
    rw [Option.mem_def.mp hc] at hstop
    simpa [Text.isSolid] using hstop

/-- A malformed character uses the characters that were looked at, and then all up to the next
blank. -/
theorem exists_of_malformed {text : List Char} (h : (ofText text).value = none) :
    ∃ looked swallowed, (ofText text).used = looked ++ swallowed ∧
      (looked = [] ∨ looked = ['\\'] ∨ (∃ c, looked = [c]) ∨ ∃ c, looked = ['\\', c]) ∧
      (∀ c ∈ swallowed, Text.isBlank c = false) ∧
      ∀ c ∈ (ofText text).rest.head?, Text.isBlank c = true := by
  rcases exists_close text with rfl | rfl | ⟨value, looked, rest, -, hlooked, hclose⟩
  · exact ⟨[], [], rfl, .inl rfl, nofun, nofun⟩
  · exact ⟨['\\'], [], rfl, .inr (.inl rfl), nofun, nofun⟩
  · have hclosed := hclose []
    rw [List.append_nil, List.append_nil] at hclosed
    rw [hclosed] at h ⊢
    have hopen : rest.head? ≠ some quote := by
      intro hhead
      obtain ⟨rest, rfl⟩ := List.head?_eq_some_iff.mp hhead
      cases h
    rw [close_of_head?_ne hopen]
    exact ⟨looked, _, rfl, .inr (.inr hlooked), isBlank_takeWhile_isSolid rest⟩

/-- A malformed character uses a newline only if it is the character looked at, and then only this
one. -/
theorem newline_of_malformed {text : List Char} (h : (ofText text).value = none)
    (hnewline : '\n' ∈ (ofText text).used) :
    ∃ swallowed, ((ofText text).used = '\n' :: swallowed ∨
        (ofText text).used = '\\' :: '\n' :: swallowed) ∧
      (∀ c ∈ swallowed, Text.isBlank c = false) ∧ (ofText text).used.count '\n' = 1 := by
  obtain ⟨looked, swallowed, hused, hlooked, hsolid, -⟩ := exists_of_malformed h
  have hnot : '\n' ∉ swallowed := by
    intro hmem
    exact absurd (hsolid '\n' hmem) (by decide)
  rw [hused] at hnewline ⊢
  have hmem : '\n' ∈ looked := (List.mem_append.mp hnewline).resolve_right hnot
  have hcount : (looked ++ swallowed).count '\n' = looked.count '\n' := by
    rw [List.count_append, List.count_eq_zero.mpr hnot, Nat.add_zero]
  rw [hcount]
  rcases hlooked with rfl | rfl | ⟨c, rfl⟩ | ⟨c, rfl⟩
  · cases hmem
  · exact absurd hmem (by decide)
  · obtain rfl := List.mem_singleton.mp hmem
    exact ⟨swallowed, .inl rfl, hsolid, rfl⟩
  · obtain rfl : '\n' = c := by simpa using hmem
    exact ⟨swallowed, .inr rfl, hsolid, rfl⟩

/-- Nothing changes at the front if a text with a blank in front follows. -/
theorem close_append {tail : List Char} (htail : ∀ c ∈ tail.head?, Text.isBlank c = true)
    (value : Char) (looked rest : List Char) :
    close value looked (rest ++ tail) =
      ⟨(close value looked rest).value, (close value looked rest).used,
        (close value looked rest).rest ++ tail⟩ := by
  by_cases hclosed : rest.head? = some quote
  · obtain ⟨rest, rfl⟩ := List.head?_eq_some_iff.mp hclosed
    rfl
  · have hopen : (rest ++ tail).head? ≠ some quote := by
      cases rest with
      | nil =>
        intro hhead
        exact absurd (htail quote hhead) (by decide)
      | cons c rest => exact hclosed
    have hstop : ∀ c ∈ tail.head?, Text.isSolid c = false := by
      intro c hc
      simp [Text.isSolid, htail c hc]
    obtain ⟨htake, hdrop⟩ := Text.takeWhile_dropWhile_append hstop rest
    rw [close_of_head?_ne hclosed, close_of_head?_ne hopen, htake, hdrop]

/-- So it is for a quoted character, if there is text enough for one. -/
theorem ofText_append {text tail : List Char} (hempty : text ≠ []) (hescape : text ≠ ['\\'])
    (htail : ∀ c ∈ tail.head?, Text.isBlank c = true) :
    ofText (text ++ tail) = ⟨(ofText text).value, (ofText text).used, (ofText text).rest ++ tail⟩ := by
  rcases exists_close text with h | h | ⟨value, looked, rest, -, -, hclose⟩
  · exact absurd h hempty
  · exact absurd h hescape
  · have hclosed := hclose []
    rw [List.append_nil, List.append_nil] at hclosed
    rw [hclose, hclosed, close_append htail]

end Quoted

/-! ## Cutting in front of a newline -/

/-- The token is a quote that has no character yet, with or without a backslash. It can only be the
last one of its text. -/
def Token.IsOpen (token : Token) : Prop :=
  token = .malformed "\x27" ∨ token = .malformed "\x27\\"

/-- A scan that gets to the end of a text gets as far if a text with a newline in front follows,
unless the newline could be the character of a quote. -/
theorem Reaches.append {line last : Nat} {front tail : List Char} {found : List PlacedToken}
    (h : Reaches line front found last []) (htail : ∀ c ∈ tail.head?, c = '\n')
    (hopen : ∀ placed ∈ found, ¬ placed.token.IsOpen) :
    Reaches line (front ++ tail) found last tail := by
  have hblank : ∀ c ∈ tail.head?, Text.isBlank c = true := by
    intro c hc
    rw [htail c hc]
    decide
  generalize hrest : ([] : List Char) = rest at h
  induction h with
  | here line rest =>
    subst hrest
    exact .here line tail
  | blank hc _ ih => exact .blank hc (ih hopen hrest)
  | @comment line last text rest found _ ih =>
    have hstop : ∀ c ∈ tail.head?, (c != '\n') = false := by
      intro c hc
      simp [htail c hc]
    rw [List.cons_append]
    refine .comment ?_
    rw [(Text.takeWhile_dropWhile_append hstop text).2]
    exact ih hopen hrest
  | @quoted line last text rest found _ ih =>
    obtain ⟨hfirst, hfound⟩ := List.forall_mem_cons.mp hopen
    have hempty : text ≠ [] := by
      rintro rfl
      exact hfirst (.inl rfl)
    have hescape : text ≠ ['\\'] := by
      rintro rfl
      exact hfirst (.inr rfl)
    have happend := Quoted.ofText_append hempty hescape hblank
    have htoken : (Quoted.ofText (text ++ tail)).token = (Quoted.ofText text).token := by
      rw [happend]
      rfl
    rw [← htoken, List.cons_append]
    refine .quoted ?_
    rw [happend]
    exact ih hfound hrest
  | @word line last word text rest found hne hword hstop _ ih =>
    have hstop' : ∀ c ∈ (text ++ tail).head?, isWordChar c = false := by
      cases text with
      | nil => exact fun c hc => isWordChar_of_isBlank (hblank c hc)
      | cons c text => exact hstop
    rw [List.append_assoc]
    exact .word hne hword hstop' (ih (List.forall_mem_cons.mp hopen).2 hrest)

/-- The tokens of a text are those of the two parts it is cut into in front of a newline. -/
theorem scanFrom_append {line : Nat} {front tail : List Char} (hnewline : '\n' ∉ front)
    (htail : ∀ c ∈ tail.head?, c = '\n')
    (hopen : ∀ placed ∈ scanFrom line front, ¬ placed.token.IsOpen) :
    scanFrom line (front ++ tail) = scanFrom line front ++ scanFrom line tail := by
  obtain ⟨last, hreaches⟩ := reaches_nil line front
  obtain ⟨passed, hpassed, hlast⟩ := hreaches.exists_append
  rw [List.append_nil] at hpassed
  rw [← hpassed, List.count_eq_zero.mpr hnewline, Nat.add_zero] at hlast
  rw [(hreaches.append htail hopen).scanFrom_eq, hlast]

/-! ## Malformed characters -/

theorem Quoted.token_eq_malformed {quoted : Quoted} {spelled : String}
    (h : quoted.token = .malformed spelled) :
    quoted.value = none ∧ spelled = String.ofList (quote :: quoted.used) := by
  unfold Quoted.token at h
  split at h
  · cases h
  · next hnone => exact ⟨hnone, (Token.malformed.inj h).symm⟩

/-- A word is not malformed. -/
theorem wordToken_ne_malformed (word : List Char) (spelled : String) :
    wordToken word ≠ .malformed spelled := by
  unfold wordToken
  split
  · simp
  · simp

/-- Where a malformed character was found, there is a quote that the scan got to. -/
theorem Reaches.exists_of_malformed {first line last : Nat} {text rest : List Char}
    {all found others : List PlacedToken} {spelled : String} (h : Reaches first text all last rest)
    (hall : all = found ++ ⟨line, .malformed spelled⟩ :: others) :
    ∃ behind, Reaches first text found line (quote :: behind) ∧
      (Quoted.ofText behind).token = .malformed spelled := by
  induction h generalizing found with
  | here => exact absurd hall (by simp)
  | blank hc _ ih =>
    obtain ⟨behind, hreaches, htoken⟩ := ih hall
    exact ⟨behind, .blank hc hreaches, htoken⟩
  | comment _ ih =>
    obtain ⟨behind, hreaches, htoken⟩ := ih hall
    exact ⟨behind, .comment hreaches, htoken⟩
  | @quoted first last text rest all _ ih =>
    cases found with
    | nil =>
      obtain ⟨hfirst, -⟩ := List.cons.inj hall
      obtain ⟨rfl, htoken⟩ := PlacedToken.mk.inj hfirst
      exact ⟨text, .here _ _, htoken⟩
    | cons placed found =>
      obtain ⟨rfl, hrest⟩ := List.cons.inj hall
      obtain ⟨behind, hreaches, htoken⟩ := ih hrest
      exact ⟨behind, .quoted hreaches, htoken⟩
  | @word first last word text rest all hne hword hstop _ ih =>
    cases found with
    | nil =>
      obtain ⟨hfirst, -⟩ := List.cons.inj hall
      exact absurd (PlacedToken.mk.inj hfirst).2 (wordToken_ne_malformed word spelled)
    | cons placed found =>
      obtain ⟨rfl, hrest⟩ := List.cons.inj hall
      obtain ⟨behind, hreaches, htoken⟩ := ih hrest
      exact ⟨behind, .word hne hword hstop hreaches, htoken⟩

/-- Tokens behind a line are those of the text from there on, some lines further down. -/
theorem scanFrom_eq_map_down {line : Nat} (h : 0 < line) (text : List Char) :
    scanFrom line text = (scan text).map (·.down (line - 1)) := by
  have hline : line = 1 + (line - 1) := by omega
  have hscan := scanFrom_add 1 (line - 1) text
  rw [← hline] at hscan
  exact hscan

/-- A malformed character is given up from its quote to the next blank behind the characters that
were looked at. If these are on one line, so is all that is given up: the rest of the line gives its
tokens, and so do the lines from the next newline on, as if there were nothing else, unless another
quote takes this newline for its character. If a newline was looked at, then right behind the quote
or its backslash, and the next line is given up to its first blank. -/
theorem resumes_behind_malformed {text : List Char} {found others : List PlacedToken} {line : Nat}
    {spelled : String} (h : scan text = found ++ ⟨line, .malformed spelled⟩ :: others) :
    ∃ front used behind, text = front ++ quote :: (used ++ behind) ∧
      Reaches 1 text found line (quote :: (used ++ behind)) ∧
      spelled = String.ofList (quote :: used) ∧ line = 1 + front.count '\n' ∧
      (∀ c ∈ behind.head?, Text.isBlank c = true) ∧
      ('\n' ∉ used → others = (scan behind).map (·.down (line - 1)) ∧
        ∀ onLine later, behind = onLine ++ later → '\n' ∉ onLine → (∀ c ∈ later.head?, c = '\n') →
          (∀ token ∈ tokens onLine, ¬ token.IsOpen) →
          others = (scan onLine).map (·.down (line - 1)) ++
            (scan later).map (·.down (line - 1))) ∧
      ('\n' ∈ used → others = (scan behind).map (·.down line) ∧
        ∃ swallowed, (used = '\n' :: swallowed ∨ used = '\\' :: '\n' :: swallowed) ∧
          ∀ c ∈ swallowed, Text.isBlank c = false) := by
  obtain ⟨last, hreaches⟩ := reaches_nil 1 text
  obtain ⟨rest, hquote, htoken⟩ := hreaches.exists_of_malformed h
  obtain ⟨front, htext, hline⟩ := hquote.exists_append
  obtain ⟨hnone, hspelled⟩ := Quoted.token_eq_malformed htoken
  obtain ⟨-, -, -, -, -, hblank⟩ := Quoted.exists_of_malformed hnone
  have hothers : others =
      scanFrom (line + (Quoted.ofText rest).used.count '\n') (Quoted.ofText rest).rest := by
    have hscan : scan text = _ := hquote.scanFrom_eq
    rw [h, scanFrom_quote, List.append_right_inj] at hscan
    exact (List.cons.inj hscan).2
  rw [← Quoted.used_append_rest rest] at htext hquote
  refine ⟨front, _, _, htext, hquote, hspelled, hline, hblank, fun hnewline => ?_, fun hnewline => ?_⟩
  · rw [List.count_eq_zero.mpr hnewline, Nat.add_zero] at hothers
    have hpositive : 0 < line := by omega
    have hscan := scanFrom_eq_map_down hpositive
    refine ⟨hothers.trans (hscan _), ?_⟩
    intro onLine later hbehind hone hlater hopen
    have hopen' : ∀ placed ∈ scanFrom line onLine, ¬ placed.token.IsOpen := by
      intro placed hplaced
      rw [hscan, List.mem_map] at hplaced
      obtain ⟨first, hfirst, rfl⟩ := hplaced
      exact hopen first.token (List.mem_map_of_mem hfirst)
    rw [hothers, hbehind, scanFrom_append hone hlater hopen', hscan, hscan]
  · obtain ⟨swallowed, hused, hsolid, hcount⟩ := Quoted.newline_of_malformed hnone hnewline
    rw [hcount, Nat.add_comm, scanFrom_add] at hothers
    exact ⟨hothers, swallowed, hused, hsolid⟩

/-- Behind a malformed character its line goes on at the next blank, and the next line is whole. -/
theorem resumes_behind_malformed_on_its_line :
    scan "out \x27ab lp\nlp:".toList =
        [⟨1, .word "out"⟩] ++ ⟨1, .malformed "\x27ab"⟩ :: [⟨1, .word "lp"⟩, ⟨2, .label "lp"⟩] ∧
      ∃ front behind, "out \x27ab lp\nlp:".toList = front ++ quote :: 'a' :: 'b' :: behind ∧
        (scan behind).map (·.down 0) = [⟨1, .word "lp"⟩, ⟨2, .label "lp"⟩] := by
  have hscan : scan "out \x27ab lp\nlp:".toList =
      [⟨1, .word "out"⟩] ++ ⟨1, .malformed "\x27ab"⟩ :: [⟨1, .word "lp"⟩, ⟨2, .label "lp"⟩] := by
    decide +kernel
  obtain ⟨front, used, behind, htext, -, hspelled, -, -, honLine, -⟩ :=
    resumes_behind_malformed hscan
  obtain rfl : ['a', 'b'] = used := (List.cons.inj (String.ofList_injective hspelled)).2
  exact ⟨hscan, front, behind, htext, (honLine (by decide)).1.symm⟩

/-- A line that ends in a quote, with the definition of a label on the next line. -/
def lostDefinition : String := "out \x27\nlp: halt\njmp lp"

/-- The quote takes the newline and the definition with it. -/
theorem scan_quote_newline : scan lostDefinition.toList =
    [⟨1, .word "out"⟩, ⟨1, .malformed "\x27\nlp:"⟩, ⟨2, .word "halt"⟩, ⟨3, .word "jmp"⟩,
      ⟨3, .word "lp"⟩] := by
  decide +kernel

/-- Where no label is defined, `lp` stands for nothing. -/
theorem word_lp : Labels.word ⟨4, ∅, [], []⟩ "lp" = .error (.unknownWord "lp") := by
  have hlower : "lp".toLower = "lp" := by
    rw [← String.toList_inj]
    change ("lp".map Char.toLower).toList = _
    rw [String.toList_map]
    rfl
  have hopcode : Opcode.ofMnemonic? "lp" = none := by
    rw [Opcode.ofMnemonic?, hlower]
    rfl
  have hspelling : Spelling.ofText "lp" = .name := rfl
  rw [Labels.word, hspelling]
  simp only [Std.HashMap.getElem?_empty, hopcode]

theorem diagnostics_lostDefinition : (ofText lostDefinition).diagnostics =
    [⟨1, .unclosedCharacter "\x27\nlp:"⟩, ⟨3, .unknownWord "lp"⟩] := by
  have hlabels : Labels.ofTokens (scan lostDefinition.toList) = ⟨4, ∅, [], []⟩ := by
    rw [scan_quote_newline]
    rfl
  have hmnemonic (opcode : Opcode) :
      Labels.word ⟨4, ∅, [], []⟩ opcode.mnemonic = .ok opcode.toWord :=
    Labels.word_mnemonic Std.HashMap.getElem?_empty
  have hout : Labels.word ⟨4, ∅, [], []⟩ "out" = .ok 19 := hmnemonic .out
  have hhalt : Labels.word ⟨4, ∅, [], []⟩ "halt" = .ok 0 := hmnemonic .halt
  have hjmp : Labels.word ⟨4, ∅, [], []⟩ "jmp" = .ok 6 := hmnemonic .jmp
  have hread : (scan lostDefinition.toList).filterMap (Labels.tokenWord? ⟨4, ∅, [], []⟩) =
      [.ok 19, .ok 0, .ok 6, .error ⟨3, .unknownWord "lp"⟩] := by
    rw [scan_quote_newline]
    simp only [List.filterMap_cons, Labels.tokenWord?, hout, hhalt, hjmp, word_lp]
    rfl
  rw [ofText, ofTokens]
  simp only [hlabels, hread]
  rw [scan_quote_newline]
  exact List.mergeSort_of_pairwise (by decide)

/-- The quote takes the newline for its character and the definition goes with it, although the
lines below the quote define the label if they stand alone. The label is then unknown where it is
used. -/
theorem scan_lostDefinition :
    lostDefinition.toList = "out ".toList ++ [quote] ++ "\nlp: halt\njmp lp".toList ∧
      scan lostDefinition.toList =
        [⟨1, .word "out"⟩, ⟨1, .malformed "\x27\nlp:"⟩, ⟨2, .word "halt"⟩, ⟨3, .word "jmp"⟩,
          ⟨3, .word "lp"⟩] ∧
      scan "\nlp: halt\njmp lp".toList =
        [⟨2, .label "lp"⟩, ⟨2, .word "halt"⟩, ⟨3, .word "jmp"⟩, ⟨3, .word "lp"⟩] ∧
      assemble lostDefinition =
        .error [⟨1, .unclosedCharacter "\x27\nlp:"⟩, ⟨3, .unknownWord "lp"⟩] := by
  refine ⟨rfl, scan_quote_newline, by decide +kernel, ?_⟩
  rw [assemble, result, diagnostics_lostDefinition]
  rfl

end WordMachine.Assembly
