import Mathlib.Data.List.Chain
import Mathlib.Data.List.TakeWhile
import WordMachine.Proofs.Assembly.Placing

/-!
# Layout

What a text of tokens may look like: lexemes with gaps between them. A gap is made of blanks and
comments, and may be missing next to a quoted character. `scan_layout` says that the scan finds the
lexemes again however they are laid out, each on the line its first character is on.

A quoted character may be anything, also a quote, a blank or a newline, so gaps are not found by
looking for blanks: the proof goes from lexeme to lexeme, and follows the line through each.
-/

namespace WordMachine.Assembly

/-! ## Lexemes -/

/-- A piece of text that makes a token. -/
inductive Lexeme where
  /-- A number, a register, a mnemonic or the name of a label. -/
  | word (text : List Char)
  /-- A name with a colon behind it. -/
  | label (name : List Char)
  /-- A character in quotes. -/
  | character (value : Char)
  /-- A backslash and a letter in quotes. -/
  | escape (letter : Char)

/-- The letters that stand for another character behind a backslash, with these characters. -/
def escapes : List (Char × Char) :=
  [('a', '\x07'), ('b', '\x08'), ('t', '\t'), ('n', '\n'), ('v', '\x0b'), ('f', '\x0c'), ('r', '\r'),
    ('s', ' '), ('0', '\x00')]

namespace Lexeme

/-- The characters of a lexeme. -/
def text : Lexeme → List Char
  | word text => text
  | label name => name ++ [':']
  | character value => [quote, value, quote]
  | escape letter => [quote, '\\', letter, quote]

/-- The token that a lexeme makes. -/
def token : Lexeme → Token
  | word text => .word (String.ofList text)
  | label name => .label (String.ofList name)
  | character value => .character value
  | escape letter => .character ((escapes.lookup letter).getD letter)

/-- The lexeme is spelled as its kind asks for: words and names have no blanks, quotes and
semicolons, a word has a character and no colon at its end, and a backslash is quoted only by
another one. A name may be anything else, also empty. -/
def IsProper : Lexeme → Prop
  | word text => text ≠ [] ∧ text.getLast? ≠ some ':' ∧ ∀ c ∈ text, isWordChar c = true
  | label name => ∀ c ∈ name, isWordChar c = true
  | character value => value ≠ '\\'
  | escape _ => True

instance : DecidablePred IsProper
  | word text => decidable_of_iff
    (text ≠ [] ∧ text.getLast? ≠ some ':' ∧ text.all isWordChar = true)
    (by rw [List.all_eq_true]; exact Iff.rfl)
  | label name => decidable_of_iff (name.all isWordChar = true) List.all_eq_true
  | character value => inferInstanceAs (Decidable (value ≠ '\\'))
  | escape _ => inferInstanceAs (Decidable True)

/-- The lexeme is a word or a label, which must be kept apart from its like. -/
def IsBare : Lexeme → Prop
  | word _ | label _ => True
  | character _ | escape _ => False

end Lexeme

/-- The character behind a backslash stands for the one in the table, or else for itself. -/
theorem unescape_eq (letter : Char) : unescape letter = (escapes.lookup letter).getD letter := by
  unfold unescape
  split
  case h_10 =>
    have hnone : escapes.lookup letter = none := by
      rw [List.lookup_eq_none_iff]
      simp_all [escapes]
    rw [hnone]
    rfl
  all_goals rfl

/-! ## Gaps -/

/-- The text consists of blanks and of comments, each ended by its newline. -/
inductive IsGap : List Char → Prop where
  | nil : IsGap []
  | blank {c : Char} {gap : List Char} (hc : Text.isBlank c = true) (hgap : IsGap gap) :
      IsGap (c :: gap)
  | comment {body gap : List Char} (hbody : '\n' ∉ body) (hgap : IsGap gap) :
      IsGap (';' :: (body ++ '\n' :: gap))

/-- The text is a gap, behind which a last comment may reach to the end. -/
inductive IsEnding : List Char → Prop where
  | gap {gap : List Char} (hgap : IsGap gap) : IsEnding gap
  | comment {gap body : List Char} (hgap : IsGap gap) (hbody : '\n' ∉ body) :
      IsEnding (gap ++ ';' :: body)

/-- A lexeme and the gap in front of it. -/
structure Piece where
  gap : List Char
  lexeme : Lexeme

namespace Piece

/-- The text of pieces behind each other. -/
def written (pieces : List Piece) : List Char :=
  pieces.flatMap fun piece => piece.gap ++ piece.lexeme.text

/-- A word or a label keeps a distance from a word or a label in front of it. -/
def KeepsApart (first second : Piece) : Prop :=
  first.lexeme.IsBare → second.lexeme.IsBare → second.gap ≠ []

/-- The tokens of pieces that start on a line. -/
def placedFrom (line : Nat) : List Piece → List PlacedToken
  | [] => []
  | piece :: pieces =>
    ⟨line + piece.gap.count '\n', piece.lexeme.token⟩ ::
      placedFrom (line + piece.gap.count '\n' + piece.lexeme.text.count '\n') pieces

end Piece

/-- A text laid out from lexemes. -/
structure Layout where
  pieces : List Piece
  /-- What follows the last lexeme. -/
  ending : List Char
  gaps : ∀ piece ∈ pieces, IsGap piece.gap
  proper : ∀ piece ∈ pieces, piece.lexeme.IsProper
  apart : pieces.IsChain Piece.KeepsApart
  isEnding : IsEnding ending

/-- The whole text of a layout. -/
def Layout.text (layout : Layout) : List Char := Piece.written layout.pieces ++ layout.ending

/-! ## Passing over gaps -/

/-- A comment is passed over up to the newline that ends it. -/
theorem dropWhile_comment {body : List Char} (hbody : '\n' ∉ body) (rest : List Char) :
    (body ++ '\n' :: rest).dropWhile (· != '\n') = '\n' :: rest := by
  have hpassed : ∀ c ∈ body, (c != '\n') = true := by
    intro c hc
    rw [bne_iff_ne]
    rintro rfl
    exact hbody hc
  rw [List.dropWhile_append_of_pos hpassed, List.dropWhile_cons_of_neg (by simp)]

/-- There is no token in a gap, but there are lines. -/
theorem IsGap.reaches {gap : List Char} (h : IsGap gap) (line : Nat) (rest : List Char) :
    Reaches line (gap ++ rest) [] (line + gap.count '\n') rest := by
  induction h generalizing line with
  | nil => exact .here line rest
  | @blank c gap hc _ ih =>
    rw [count_newline_cons c gap, ← Nat.add_assoc]
    exact .blank hc (ih _)
  | @comment body gap hbody _ ih =>
    have hcount : (';' :: (body ++ '\n' :: gap)).count '\n' = 1 + gap.count '\n' := by
      simp [List.count_append, List.count_eq_zero.mpr hbody, Nat.add_comm]
    rw [hcount, ← Nat.add_assoc]
    have htext : ';' :: (body ++ '\n' :: gap) ++ rest = ';' :: (body ++ '\n' :: (gap ++ rest)) := by
      simp
    rw [htext]
    refine .comment ?_
    rw [dropWhile_comment hbody]
    exact .blank (by decide) (ih _)

/-- There is no token in an ending. -/
theorem IsEnding.scanFrom_eq {ending : List Char} (h : IsEnding ending) (line : Nat) :
    scanFrom line ending = [] := by
  cases h with
  | gap hgap =>
    have hreaches := hgap.reaches line []
    rw [List.append_nil] at hreaches
    rw [hreaches.scanFrom_eq, scanFrom_nil, List.append_nil]
  | @comment gap body hgap hbody =>
    have hnone : body.dropWhile (· != '\n') = [] := by
      rw [List.dropWhile_eq_nil_iff]
      intro c hc
      rw [bne_iff_ne]
      rintro rfl
      exact hbody hc
    rw [(hgap.reaches line _).scanFrom_eq, List.nil_append, scanFrom_comment, hnone, scanFrom_nil]

/-- A gap starts with a character that belongs to no word. -/
theorem IsGap.head?_eq {gap : List Char} (h : IsGap gap) :
    ∀ c ∈ gap.head?, isWordChar c = false := by
  intro c hc
  cases h with
  | nil => cases hc
  | blank hblank =>
    obtain rfl := Option.some.inj hc
    exact isWordChar_of_isBlank hblank
  | comment =>
    obtain rfl := Option.some.inj hc
    decide

/-- So does an ending. -/
theorem IsEnding.head?_eq {ending : List Char} (h : IsEnding ending) :
    ∀ c ∈ ending.head?, isWordChar c = false := by
  cases h with
  | gap hgap => exact hgap.head?_eq
  | @comment gap body hgap hbody =>
    intro c hc
    cases gap with
    | nil =>
      obtain rfl := Option.some.inj hc
      decide
    | cons d gap => exact hgap.head?_eq c hc

/-! ## Reading lexemes -/

/-- A quoted character is closed by the quote behind it, whatever it is. -/
theorem Quoted.ofText_character {value : Char} (hvalue : value ≠ '\\') (rest : List Char) :
    Quoted.ofText (value :: quote :: rest) = ⟨some value, [value, quote], rest⟩ := by
  rw [Quoted.ofText]
  · rfl
  · intro h
    exact absurd h hvalue
  · intro c rest h
    exact absurd h hvalue

/-- A lexeme makes its token, if behind a word or a label no character follows that belongs to it.
The line goes on by the newlines in the lexeme. -/
theorem Lexeme.reaches {lexeme : Lexeme} (h : lexeme.IsProper) (line : Nat) {rest : List Char}
    (hrest : lexeme.IsBare → ∀ c ∈ rest.head?, isWordChar c = false) :
    Reaches line (lexeme.text ++ rest) [⟨line, lexeme.token⟩]
      (line + lexeme.text.count '\n') rest := by
  cases lexeme with
  | word text =>
    obtain ⟨hne, hcolon, htext⟩ := h
    have hword := Reaches.word hne htext (hrest trivial) (.here line rest)
    rw [wordToken_of_getLast?_ne hcolon] at hword
    simpa only [Lexeme.text, token, count_newline_of_isWordChar htext, Nat.add_zero] using hword
  | label name =>
    have htext : ∀ c ∈ name ++ [':'], isWordChar c = true := by
      intro c hc
      rcases List.mem_append.mp hc with hname | hcolon
      · exact h c hname
      · obtain rfl := List.mem_singleton.mp hcolon
        decide
    have hword := Reaches.word (by simp) htext (hrest trivial) (.here line rest)
    rw [wordToken_append_colon] at hword
    simpa only [Lexeme.text, token, count_newline_of_isWordChar htext, Nat.add_zero] using hword
  | character value =>
    have hquoted := Quoted.ofText_character h rest
    have hreaches : Reaches line (quote :: value :: quote :: rest) _ _ _ := .quoted (.here _ _)
    rw [hquoted] at hreaches
    exact hreaches
  | escape letter =>
    have hreaches : Reaches line (quote :: '\\' :: letter :: quote :: rest) _ _ _ :=
      .quoted (.here _ _)
    have htoken : (escape letter).token = .character (unescape letter) := by
      rw [unescape_eq]
      rfl
    rw [htoken]
    exact hreaches

namespace Piece

variable {pieces : List Piece} {ending : List Char}

/-- Behind a word or a label no character follows that belongs to it: the next gap is not empty, or
a quoted character comes next, or nothing does. -/
theorem head?_written_append (hgaps : ∀ piece ∈ pieces, IsGap piece.gap)
    (hapart : ∀ next ∈ pieces.head?, next.lexeme.IsBare → next.gap ≠ [])
    (hending : IsEnding ending) : ∀ c ∈ (written pieces ++ ending).head?, isWordChar c = false := by
  cases pieces with
  | nil => exact hending.head?_eq
  | cons next pieces =>
    intro c hc
    have hgap := hgaps next List.mem_cons_self
    obtain ⟨gap, lexeme⟩ := next
    cases gap with
    | cons d gap => exact hgap.head?_eq c hc
    | nil =>
      -- The lexeme starts here, so that it is neither a word nor a label.
      cases lexeme with
      | word text => exact absurd rfl (hapart _ rfl trivial)
      | label name => exact absurd rfl (hapart _ rfl trivial)
      | character value =>
        obtain rfl := Option.some.inj hc
        decide
      | escape letter =>
        obtain rfl := Option.some.inj hc
        decide

/-- Pieces make their tokens, whichever line they start on. -/
theorem scanFrom_written_append (hgaps : ∀ piece ∈ pieces, IsGap piece.gap)
    (hproper : ∀ piece ∈ pieces, piece.lexeme.IsProper) (hapart : pieces.IsChain KeepsApart)
    (hending : IsEnding ending) (line : Nat) :
    scanFrom line (written pieces ++ ending) = placedFrom line pieces := by
  induction pieces generalizing line with
  | nil => exact hending.scanFrom_eq line
  | cons piece pieces ih =>
    obtain ⟨hgap, hgaps⟩ := List.forall_mem_cons.mp hgaps
    obtain ⟨hlexeme, hproper⟩ := List.forall_mem_cons.mp hproper
    obtain ⟨hnext, hapart⟩ := List.isChain_cons.mp hapart
    have hstop : piece.lexeme.IsBare →
        ∀ c ∈ (written pieces ++ ending).head?, isWordChar c = false := by
      intro hbare
      exact head?_written_append hgaps (fun next hmem => hnext next hmem hbare) hending
    have hwritten : written (piece :: pieces) ++ ending =
        piece.gap ++ (piece.lexeme.text ++ (written pieces ++ ending)) := by
      simp [written]
    have hfirst := (hgap.reaches line _).trans (Lexeme.reaches hlexeme _ hstop)
    rw [hwritten, hfirst.scanFrom_eq, ih hgaps hproper hapart]
    rfl

@[simp] theorem length_placedFrom (line : Nat) (pieces : List Piece) :
    (placedFrom line pieces).length = pieces.length := by
  induction pieces generalizing line with
  | nil => rfl
  | cons piece pieces ih => simp [placedFrom, ih]

/-- The token of a piece is on the line that the newlines in front of its lexeme give. -/
theorem getElem?_placedFrom (line : Nat) (front : List Piece) (piece : Piece) (back : List Piece) :
    (placedFrom line (front ++ piece :: back))[front.length]? =
      some ⟨line + (written front ++ piece.gap).count '\n', piece.lexeme.token⟩ := by
  induction front generalizing line with
  | nil => simp [placedFrom, written]
  | cons first front ih =>
    have hcount : line + (written (first :: front) ++ piece.gap).count '\n' =
        line + first.gap.count '\n' + first.lexeme.text.count '\n' +
          (written front ++ piece.gap).count '\n' := by
      simp only [written, List.flatMap_cons, List.count_append]
      omega
    rw [hcount, ← ih]
    simp [placedFrom]

end Piece

/-! ## Layouts -/

/-- The scan undoes every layout: it finds the lexemes in order and nothing else, and each of them
on the line given by the newlines in front of its first character. -/
theorem scan_layout (layout : Layout) :
    (scan layout.text).length = layout.pieces.length ∧
      ∀ front piece back, layout.pieces = front ++ piece :: back →
        (scan layout.text)[front.length]? =
          some ⟨1 + (Piece.written front ++ piece.gap).count '\n', piece.lexeme.token⟩ := by
  have hscan : scan layout.text = Piece.placedFrom 1 layout.pieces :=
    Piece.scanFrom_written_append layout.gaps layout.proper layout.apart layout.isEnding 1
  rw [hscan]
  refine ⟨Piece.length_placedFrom 1 _, ?_⟩
  intro front piece back hpieces
  rw [hpieces]
  exact Piece.getElem?_placedFrom 1 front piece back

/-- A label, a quoted quote and a word without anything between them, a comment that ends the first
line, and a quoted newline on the second. -/
def tightLayout : Layout where
  pieces := [⟨[], .label ['l', 'p']⟩, ⟨[], .character quote⟩, ⟨[], .word ['j', 'm', 'p']⟩,
    ⟨[';', quote, '\n'], .character '\n'⟩, ⟨[], .word ['l', 'p']⟩]
  ending := [';']
  gaps := by
    have hcomment : IsGap (';' :: ([quote] ++ '\n' :: [])) := .comment (by decide) .nil
    simpa [IsGap.nil] using hcomment
  proper := by decide
  apart := by
    simp [Piece.KeepsApart, Lexeme.IsBare]
  isEnding := @IsEnding.comment [] [] .nil List.not_mem_nil

/-- The quoted newline starts on the second line, and what is behind it is on the third. -/
theorem scan_layout_of_tightLayout :
    scan tightLayout.text =
      [⟨1, .label "lp"⟩, ⟨1, .character quote⟩, ⟨1, .word "jmp"⟩, ⟨2, .character '\n'⟩,
        ⟨3, .word "lp"⟩] := by
  obtain ⟨hlength, hplaced⟩ := scan_layout tightLayout
  apply List.ext_getElem?
  intro i
  match i with
  | 0 => exact hplaced [] _ _ rfl
  | 1 => exact hplaced [_] _ _ rfl
  | 2 => exact hplaced [_, _] _ _ rfl
  | 3 => exact hplaced [_, _, _] _ _ rfl
  | 4 => exact hplaced [_, _, _, _] _ _ rfl
  | i + 5 =>
    have hend : 5 ≤ i + 5 := Nat.le_add_left 5 i
    rw [List.getElem?_eq_none (hlength ▸ hend), List.getElem?_eq_none hend]

end WordMachine.Assembly
