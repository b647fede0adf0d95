import Mathlib.Data.List.Forall2
import WordMachine.Assembly.Labels
import WordMachine.Proofs.Text.Words

/-!
# Scanning piece by piece

What the scan makes of each kind of piece at the start of a text: `scanOnto_blank`,
`scanOnto_comment`, `scanOnto_quote` and `scanOnto_word` say which token it finds there, and where
it goes on. Where the lines do not matter, `tokens` is the scan without them, and the same four
facts hold of it without a line to keep track of.

`Spells` says which tokens a text is made of if a blank follows it, and `SpellsAlways` the same
whatever follows. Printed text is put together from pieces of these two kinds.
-/

namespace WordMachine.Assembly

/-! ## Characters of words -/

/-- Letters and digits separate nothing, open no quote and start no comment. -/
theorem isWordChar_of_isAlphanum {c : Char} (hc : c.isAlphanum = true) : isWordChar c = true := by
  have hquote : c ≠ quote := by rintro rfl; exact absurd hc (by decide)
  have hcomment : c ≠ ';' := by rintro rfl; exact absurd hc (by decide)
  have hblank : Text.isBlank c = false := by
    change ((decide (65 ≤ c.val ∧ c.val ≤ 90) || (97 ≤ c.val && c.val ≤ 122)) ||
      (48 ≤ c.val && c.val ≤ 57)) = true at hc
    simp only [Bool.or_eq_true, Bool.and_eq_true, decide_eq_true_eq, UInt32.le_iff_toNat_le] at hc
    simp only [Text.isBlank, Text.blankRanges, List.any_cons, List.any_nil, Bool.or_false,
      Bool.or_eq_false_iff, Bool.and_eq_false_iff, decide_eq_false_iff_not, Char.toNat]
    simp only [UInt32.reduceToNat] at hc
    omega
  simp [isWordChar, hblank, hquote, hcomment]

/-- A blank belongs to no word. -/
theorem isWordChar_of_isBlank {c : Char} (hc : Text.isBlank c = true) : isWordChar c = false := by
  simp [isWordChar, hc]

/-! ## One piece of text -/

/-- A blank is passed over. -/
theorem scanOnto_blank {c : Char} (hc : Text.isBlank c = true) (found : List PlacedToken)
    (line : Nat) (rest : List Char) :
    scanOnto found line (c :: rest) =
      scanOnto found (if c = '\n' then line + 1 else line) rest := by
  rw [scanOnto, if_pos hc]

/-- A comment is passed over up to its newline. -/
theorem scanOnto_comment (found : List PlacedToken) (line : Nat) (rest : List Char) :
    scanOnto found line (';' :: rest) = scanOnto found line (rest.dropWhile (· != '\n')) := by
  rw [scanOnto, if_neg (by decide), if_pos rfl]

/-- A quote makes a token of what stands behind it. -/
theorem scanOnto_quote (found : List PlacedToken) (line : Nat) (rest : List Char) :
    scanOnto found line (quote :: rest) =
      scanOnto (⟨line, (Quoted.ofText rest).token⟩ :: found)
        (line + (Quoted.ofText rest).used.count '\n') (Quoted.ofText rest).rest := by
  rw [scanOnto, if_neg (by decide), if_neg (by decide), if_pos rfl]

/-- A word reaches to the first character that belongs to none. -/
theorem scanOnto_word {word rest : List Char} (hne : word ≠ [])
    (hword : ∀ c ∈ word, isWordChar c = true) (hrest : ∀ c ∈ rest.head?, isWordChar c = false)
    (found : List PlacedToken) (line : Nat) :
    scanOnto found line (word ++ rest) = scanOnto (⟨line, wordToken word⟩ :: found) line rest := by
  obtain ⟨c, word, rfl⟩ := List.exists_cons_of_ne_nil hne
  have hc := hword c List.mem_cons_self
  have htail : ∀ d ∈ word, isWordChar d = true := fun d hd => hword d (List.mem_cons_of_mem _ hd)
  obtain ⟨htake, hdrop⟩ := Text.takeWhile_dropWhile_of_forall htail hrest
  simp only [isWordChar, Bool.and_eq_true, Bool.not_eq_true', bne_iff_ne, ne_eq] at hc
  obtain ⟨⟨hblank, hquote⟩, hcomment⟩ := hc
  rw [List.cons_append, scanOnto, if_neg (by simp [hblank]), if_neg hcomment, if_neg hquote, htake,
    hdrop]

/-! ## Tokens without their lines -/

/-- The tokens do not depend on the line the text starts on. -/
theorem map_token_scanOnto_congr (found found' : List PlacedToken) (line line' : Nat)
    (text : List Char) (h : found.map PlacedToken.token = found'.map PlacedToken.token) :
    (scanOnto found line text).map PlacedToken.token =
      (scanOnto found' line' text).map PlacedToken.token := by
  fun_induction scanOnto found line text generalizing found' line' with
  | case1 found line => rw [scanOnto]; exact h
  | case2 found line c rest hblank ih => rw [scanOnto_blank hblank]; exact ih _ _ h
  | case3 found line rest hblank ih => rw [scanOnto_comment]; exact ih _ _ h
  | case4 found line rest hblank hcomment quoted ih =>
    rw [scanOnto_quote]
    exact ih _ _ (by simp only [List.map_cons, h]; rfl)
  | case5 found line c rest hblank hcomment hquote ih =>
    rw [scanOnto, if_neg hblank, if_neg hcomment, if_neg hquote]
    exact ih _ _ (by simp only [List.map_cons, h])

/-- The tokens of a text, without their lines. -/
def tokens (text : List Char) : List Token := (scan text).map PlacedToken.token

/-- The tokens found on the way stand behind those of the rest of the text. -/
theorem map_token_scanOnto (found : List PlacedToken) (line : Nat) (text : List Char) :
    (scanOnto found line text).map PlacedToken.token =
      (tokens text).reverse ++ found.map PlacedToken.token := by
  rw [scanOnto_eq_append, List.map_append, tokens, scan, List.map_reverse, List.reverse_reverse,
    map_token_scanOnto_congr [] [] line 1 text rfl]

/-- A scan that goes on behind one token found the token and then those of the rest. -/
theorem tokens_of_scanOnto {text rest : List Char} {token : Token} {line : Nat}
    (h : scanOnto [] 1 text = scanOnto [⟨1, token⟩] line rest) :
    tokens text = token :: tokens rest := by
  rw [tokens, scan, h, List.map_reverse, map_token_scanOnto]
  simp

/-- There is no token in an empty text. -/
@[simp] theorem tokens_nil : tokens [] = [] := by simp [tokens, scan, scanOnto]

/-- A blank in front changes nothing. -/
theorem tokens_blank {c : Char} (hc : Text.isBlank c = true) (rest : List Char) :
    tokens (c :: rest) = tokens rest := by
  rw [tokens, scan, scanOnto_blank hc, List.map_reverse, map_token_scanOnto]
  simp

/-- Blanks in front change nothing. -/
theorem tokens_blanks {blanks : List Char} (h : ∀ c ∈ blanks, Text.isBlank c = true)
    (rest : List Char) : tokens (blanks ++ rest) = tokens rest := by
  induction blanks with
  | nil => rfl
  | cons c blanks ih =>
    rw [List.cons_append, tokens_blank (h c List.mem_cons_self),
      ih fun d hd => h d (List.mem_cons_of_mem _ hd)]

/-- A word in front is the first token. -/
theorem tokens_word {word rest : List Char} (hne : word ≠ [])
    (hword : ∀ c ∈ word, isWordChar c = true) (hrest : ∀ c ∈ rest.head?, isWordChar c = false) :
    tokens (word ++ rest) = wordToken word :: tokens rest :=
  tokens_of_scanOnto (scanOnto_word hne hword hrest [] 1)

/-- A quoted character in front is the first token. -/
theorem tokens_quoted {c : Char} (hc : c ≠ '\\') (rest : List Char) :
    tokens (quote :: c :: quote :: rest) = .character c :: tokens rest := by
  have hquoted : Quoted.ofText (c :: quote :: rest) = ⟨some c, [c] ++ [quote], rest⟩ := by
    rw [Quoted.ofText]
    · rfl
    · intro h; exact absurd h hc
    · intro d _ h; exact absurd h hc
  have hscan := scanOnto_quote [] 1 (c :: quote :: rest)
  rw [hquoted] at hscan
  exact tokens_of_scanOnto hscan

/-- A character escaped in quotes in front is the first token. -/
theorem tokens_escaped (c : Char) (rest : List Char) :
    tokens (quote :: '\\' :: c :: quote :: rest) = .character (unescape c) :: tokens rest :=
  tokens_of_scanOnto (scanOnto_quote [] 1 ('\\' :: c :: quote :: rest))

/-! ## Words as tokens -/

/-- A word without a colon at its end is a word token. -/
theorem wordToken_of_getLast?_ne {word : List Char} (h : word.getLast? ≠ some ':') :
    wordToken word = .word (String.ofList word) := by
  rw [wordToken, if_neg h]

/-- A word with a colon behind it defines a label. -/
theorem wordToken_append_colon (name : List Char) :
    wordToken (name ++ [':']) = .label (String.ofList name) := by
  simp [wordToken]

/-! ## Texts that spell tokens -/

/-- The text is made of the tokens, whatever follows it. -/
def SpellsAlways (text : List Char) (found : List Token) : Prop :=
  ∀ rest : List Char, tokens (text ++ rest) = found ++ tokens rest

/-- The text is made of the tokens, if a blank or nothing follows it. -/
def Spells (text : List Char) (found : List Token) : Prop :=
  ∀ rest : List Char, (∀ c ∈ rest.head?, Text.isBlank c = true) →
    tokens (text ++ rest) = found ++ tokens rest

section Spells

variable {text text' : List Char} {found found' : List Token}

/-- The tokens of a text are those it spells. -/
theorem SpellsAlways.tokens_eq (h : SpellsAlways text found) : tokens text = found := by
  have htokens := h []
  rwa [List.append_nil, tokens_nil, List.append_nil] at htokens

theorem SpellsAlways.spells (h : SpellsAlways text found) : Spells text found :=
  fun rest _ => h rest

theorem spellsAlways_nil : SpellsAlways [] [] := fun _ => rfl

/-- Blanks spell nothing. -/
theorem spellsAlways_blanks {blanks : List Char} (h : ∀ c ∈ blanks, Text.isBlank c = true) :
    SpellsAlways blanks [] :=
  fun rest => tokens_blanks h rest

/-- Letters and digits spell a word. -/
theorem spells_word (hne : text ≠ []) (h : ∀ c ∈ text, c.isAlphanum = true) :
    Spells text [.word (String.ofList text)] := by
  intro rest hrest
  have hlast : text.getLast? ≠ some ':' := by
    intro hlast
    exact absurd (h ':' (List.mem_of_getLast? hlast)) (by decide)
  rw [tokens_word hne (fun c hc => isWordChar_of_isAlphanum (h c hc))
    fun c hc => isWordChar_of_isBlank (hrest c hc), wordToken_of_getLast?_ne hlast]
  rfl

/-- Letters and digits with a colon behind them spell the definition of a label. -/
theorem spells_label (h : ∀ c ∈ text, c.isAlphanum = true) :
    Spells (text ++ [':']) [.label (String.ofList text)] := by
  intro rest hrest
  have hword : ∀ c ∈ text ++ [':'], isWordChar c = true := by
    intro c hc
    rcases List.mem_append.mp hc with hname | hcolon
    · exact isWordChar_of_isAlphanum (h c hname)
    · obtain rfl := List.mem_singleton.mp hcolon
      decide
  rw [tokens_word (by simp) hword fun c hc => isWordChar_of_isBlank (hrest c hc),
    wordToken_append_colon]
  rfl

/-- Texts that spell tokens whatever follows can be put in front of any text. -/
theorem SpellsAlways.append (h : SpellsAlways text found) (h' : SpellsAlways text' found') :
    SpellsAlways (text ++ text') (found ++ found') := by
  intro rest
  rw [List.append_assoc, h, h' rest, List.append_assoc]

theorem SpellsAlways.append_spells (h : SpellsAlways text found) (h' : Spells text' found') :
    Spells (text ++ text') (found ++ found') := by
  intro rest hrest
  rw [List.append_assoc, h, h' rest hrest, List.append_assoc]

/-- A blank between two texts keeps their tokens apart. -/
theorem Spells.append_blank_append {blank : Char} (h : Spells text found)
    (hblank : Text.isBlank blank = true) (h' : Spells text' found') :
    Spells (text ++ blank :: text') (found ++ found') := by
  intro rest hrest
  rw [List.append_assoc, h _ (by simpa using hblank), List.cons_append, tokens_blank hblank,
    h' rest hrest, List.append_assoc]

/-- With a blank at its end a text spells its tokens whatever follows. -/
theorem Spells.append_blank {blank : Char} (h : Spells text found)
    (hblank : Text.isBlank blank = true) : SpellsAlways (text ++ [blank]) found := by
  intro rest
  rw [List.append_assoc, h _ (by simpa using hblank), List.singleton_append, tokens_blank hblank]

/-- Texts with single blanks between them spell their tokens one after the other. -/
theorem spells_intercalate {texts : List (List Char)} {found : List Token}
    (h : List.Forall₂ (fun text token => Spells text [token]) texts found) :
    Spells ([' '].intercalate texts) found := by
  induction h with
  | nil => exact spellsAlways_nil.spells
  | @cons text token texts found hfirst hrest ih =>
    cases hrest with
    | nil =>
      rw [List.intercalate_singleton]
      exact hfirst
    | cons hsecond hrest =>
      rw [List.intercalate_cons_cons, List.append_assoc]
      exact hfirst.append_blank_append (by decide) ih

/-- Texts that spell tokens whatever follows spell them one after the other. -/
theorem spellsAlways_flatMap {α : Type} {items : List α} {text : α → List Char}
    {found : α → List Token} (h : ∀ item ∈ items, SpellsAlways (text item) (found item)) :
    SpellsAlways (items.flatMap text) (items.flatMap found) := by
  induction items with
  | nil => exact spellsAlways_nil
  | cons item items ih =>
    rw [List.flatMap_cons, List.flatMap_cons]
    exact (h item List.mem_cons_self).append
      (ih fun other hother => h other (List.mem_cons_of_mem _ hother))

end Spells

end WordMachine.Assembly
