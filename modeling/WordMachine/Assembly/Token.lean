import WordMachine.Text.Blank

/-!
# Tokens of assembly text

Blanks separate words, a semicolon starts a comment that runs to the end of its line, and a quoted
character is a token by itself that needs no blank around it. A word with a colon at its end
defines a label.

A quoted character that is not closed is a token too, `malformed`: it reaches to the next blank
behind the characters looked at, and scanning goes on from there.
-/

namespace WordMachine.Assembly

/-- A piece of assembly text. -/
inductive Token where
  /-- A number, a register, a mnemonic or the name of a label. -/
  | word (text : String)
  /-- The definition of a label, without its colon. -/
  | label (name : String)
  /-- A quoted character. -/
  | character (value : Char)
  /-- A quote without a partner, and the text up to where scanning went on. -/
  | malformed (text : String)
  deriving DecidableEq, Repr

/-- A token and the line its first character is on, counted from one. -/
structure PlacedToken where
  line : Nat
  token : Token
  deriving DecidableEq, Repr

/-- The quote around a character. -/
def quote : Char := '\x27'

/-- The character may be part of a word. -/
def isWordChar (c : Char) : Bool := !Text.isBlank c && c != quote && c != ';'

/-- The character that a backslash and the given character stand for. -/
def unescape (c : Char) : Char :=
  match c with
  | 'a' => '\x07'
  | 'b' => '\x08'
  | 't' => '\t'
  | 'n' => '\n'
  | 'v' => '\x0b'
  | 'f' => '\x0c'
  | 'r' => '\r'
  | 's' => ' '
  | '0' => '\x00'
  | other => other

/-- A quoted character as far as it was looked at: the value if it is closed, the characters used,
and the text behind them. -/
structure Quoted where
  value : Option Char
  used : List Char
  rest : List Char

/-- Closes a quoted character whose value stands in `used`, if a quote follows. Otherwise the text
up to the next blank is given up. -/
def Quoted.close (value : Char) (used : List Char) : List Char → Quoted
  | '\x27' :: rest => ⟨some value, used ++ [quote], rest⟩
  | rest => ⟨none, used ++ rest.takeWhile Text.isSolid, rest.dropWhile Text.isSolid⟩

/-- Reads the text behind an opening quote. -/
def Quoted.ofText : List Char → Quoted
  | [] => ⟨none, [], []⟩
  | ['\\'] => ⟨none, ['\\'], []⟩
  | '\\' :: c :: rest => .close (unescape c) ['\\', c] rest
  | c :: rest => .close c [c] rest

/-- The token that a quoted character makes. -/
def Quoted.token (quoted : Quoted) : Token :=
  match quoted.value with
  | some value => .character value
  | none => .malformed (String.ofList (quote :: quoted.used))

/-- The token that a word makes: a colon at its end makes it the definition of a label. -/
def wordToken (text : List Char) : Token :=
  if text.getLast? = some ':' then .label (String.ofList text.dropLast)
  else .word (String.ofList text)

theorem Quoted.length_close_le (value : Char) (used text : List Char) :
    (Quoted.close value used text).rest.length ≤ text.length := by
  fun_cases Quoted.close value used text
  · exact Nat.le_succ _
  · exact (List.dropWhile_sublist _).length_le

theorem Quoted.length_ofText_le (text : List Char) :
    (Quoted.ofText text).rest.length ≤ text.length := by
  fun_cases Quoted.ofText text
  · exact Nat.le_refl _
  · exact Nat.zero_le _
  · exact Nat.le_trans (length_close_le ..) (by simp; omega)
  · exact Nat.le_trans (length_close_le ..) (by simp)

/-- Scans a text that starts on `line`, in front of the tokens already found, the last token
first. -/
def scanOnto (found : List PlacedToken) (line : Nat) : List Char → List PlacedToken
  | [] => found
  | c :: rest =>
    if Text.isBlank c then scanOnto found (if c = '\n' then line + 1 else line) rest
    else if c = ';' then scanOnto found line (rest.dropWhile (· != '\n'))
    else if c = quote then
      let quoted := Quoted.ofText rest
      scanOnto (⟨line, quoted.token⟩ :: found) (line + quoted.used.count '\n') quoted.rest
    else
      scanOnto (⟨line, wordToken (c :: rest.takeWhile isWordChar)⟩ :: found) line
        (rest.dropWhile isWordChar)
  termination_by text => text.length
  decreasing_by
    · simp
    · have := (List.dropWhile_sublist (· != '\n') (l := rest)).length_le
      simp only [List.length_cons]; omega
    · have := Quoted.length_ofText_le rest
      simp only [List.length_cons]; omega
    · have := (List.dropWhile_sublist isWordChar (l := rest)).length_le
      simp only [List.length_cons]; omega

/-- The tokens of a text, in order. -/
def scan (text : List Char) : List PlacedToken := (scanOnto [] 1 text).reverse

/-- The scan of a text does not depend on the tokens in front of it. -/
theorem scanOnto_eq_append (found : List PlacedToken) (line : Nat) (text : List Char) :
    scanOnto found line text = scanOnto [] line text ++ found := by
  induction hlen : text.length using Nat.strongRecOn generalizing text found line with
  | ind n ih =>
    subst hlen
    cases text with
    | nil => simp [scanOnto]
    | cons c rest =>
      rw [scanOnto, scanOnto]
      split
      · exact ih _ (by simp) _ _ _ rfl
      · split
        · refine ih _ ?_ _ _ _ rfl
          have := (List.dropWhile_sublist (· != '\n') (l := rest)).length_le
          simp only [List.length_cons]; omega
        · split
          · have := Quoted.length_ofText_le rest
            rw [ih _ (by simp only [List.length_cons]; omega) (_ :: found) _ _ rfl,
              ih _ (by simp only [List.length_cons]; omega) [_] _ _ rfl]
            simp
          · have := (List.dropWhile_sublist isWordChar (l := rest)).length_le
            rw [ih _ (by simp only [List.length_cons]; omega) (_ :: found) _ _ rfl,
              ih _ (by simp only [List.length_cons]; omega) [_] _ _ rfl]
            simp

end WordMachine.Assembly
