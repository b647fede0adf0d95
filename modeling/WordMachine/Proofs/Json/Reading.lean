import WordMachine.Json.Value
import WordMachine.Proofs.Text.Encoding
import WordMachine.Proofs.Text.Words

/-!
# Reading what was printed

A printed number is read as that number, a text without escapes as its bytes, and a list with one
word on each line as its words. Each of these holds with any bytes behind what is read, as long as
they do not run into it: `Separates` is what stands behind a number on every line of a list.
-/

namespace WordMachine.Json

/-- A number in decimal. -/
def decimal (n : Nat) : List UInt8 := Text.Utf8.encode n.repr

/-- The bytes start with a comma or a new line. -/
def Separates (bytes : List UInt8) : Prop :=
  ∃ byte rest, bytes = byte :: rest ∧ (byte = 0x2c ∨ byte = 0x0a)

/-! ## Digits -/

/-- The byte of a decimal digit. -/
def digitByte (digit : Nat) : UInt8 := UInt8.ofNat (0x30 + digit)

theorem isDigit_digitByte {digit : Nat} (h : digit < 10) : isDigit (digitByte digit) = true := by
  have hall : ∀ digit < 10, isDigit (digitByte digit) = true := by decide
  exact hall digit h

theorem digitValue_digitByte {digit : Nat} (h : digit < 10) :
    digitValue (digitByte digit) = digit := by
  have hall : ∀ digit < 10, digitValue (digitByte digit) = digit := by decide
  exact hall digit h

/-- A number is printed digit by digit, the last one being what is left of it modulo ten. -/
theorem decimal_eq (n : Nat) :
    decimal n = if n < 10 then [digitByte n] else decimal (n / 10) ++ [digitByte (n % 10)] := by
  have hencode : ∀ digit < 10,
      String.utf8EncodeChar (Nat.digitChar digit) = [digitByte digit] := by decide
  have hdecimal : ∀ n, decimal n = (Nat.toDigits 10 n).flatMap String.utf8EncodeChar := by
    intro n
    rw [decimal, Text.Utf8.encode, Nat.toList_repr]
  rw [hdecimal, hdecimal, Nat.toDigits_eq_if (by decide)]
  split
  · next hsmall => rw [List.flatMap_singleton, hencode n hsmall]
  · rw [List.flatMap_append, List.flatMap_singleton, hencode (n % 10) (Nat.mod_lt n (by decide))]

/-- A printed number has digits only. -/
theorem isDigit_of_mem_decimal {n : Nat} {byte : UInt8} (hbyte : byte ∈ decimal n) :
    isDigit byte = true := by
  induction n using Nat.strongRecOn with
  | ind n ih =>
    rw [decimal_eq] at hbyte
    split at hbyte
    · next hsmall =>
      obtain rfl := List.mem_singleton.mp hbyte
      exact isDigit_digitByte hsmall
    · next hlarge =>
      rcases List.mem_append.mp hbyte with hfront | hlast
      · exact ih (n / 10) (by omega) hfront
      · obtain rfl := List.mem_singleton.mp hlast
        exact isDigit_digitByte (Nat.mod_lt n (by decide))

theorem decimal_ne_nil (n : Nat) : decimal n ≠ [] := by
  rw [decimal_eq]
  split
  · exact List.cons_ne_nil _ _
  · exact List.append_ne_nil_of_right_ne_nil _ (List.cons_ne_nil _ _)

/-- Only the number zero is printed with a zero in front. -/
theorem head?_decimal_ne {n : Nat} (hn : n ≠ 0) : (decimal n).head? ≠ some 0x30 := by
  induction n using Nat.strongRecOn with
  | ind n ih =>
    rw [decimal_eq]
    split
    · next hsmall =>
      have hall : ∀ digit < 10, digit ≠ 0 → [digitByte digit].head? ≠ some 0x30 := by decide
      exact hall n hsmall hn
    · next hlarge =>
      have hfront := ih (n / 10) (by omega) (by omega)
      rw [List.head?_append]
      cases hhead : (decimal (n / 10)).head? with
      | none => exact absurd (List.head?_eq_none_iff.mp hhead) (decimal_ne_nil _)
      | some byte =>
        rw [hhead] at hfront
        exact hfront

/-- Digits are taken in from the front: behind those of the first part come those of the second. -/
theorem absorb_append {significand value : Nat} {front : List UInt8}
    (h : absorb significand front = (value, [])) (back : List UInt8) :
    absorb significand (front ++ back) = absorb value back := by
  induction front generalizing significand with
  | nil =>
    obtain ⟨rfl, -⟩ := Prod.mk.inj h
    rfl
  | cons digit front ih =>
    simp only [absorb] at h
    split at h
    · next hfits =>
      rw [List.cons_append]
      simp only [absorb]
      rw [if_pos hfits]
      exact ih h
    · cases h

/-- The digits of a number add up to the number. -/
theorem absorb_decimal {n : Nat} (hn : n < UInt64.size) : absorb 0 (decimal n) = (n, []) := by
  induction n using Nat.strongRecOn with
  | ind n ih =>
    rw [decimal_eq]
    split
    · next hsmall => simp [absorb, digitValue_digitByte hsmall, hn]
    · next hlarge =>
      have hvalue : n / 10 * 10 + n % 10 = n := by omega
      rw [absorb_append (ih (n / 10) (by omega) (by omega))]
      simp only [absorb, digitValue_digitByte (Nat.mod_lt n (by decide : 0 < 10)), hvalue]
      rw [if_pos hn]

/-! ## Numbers -/

variable {rest : List UInt8}

/-- A printed number of at most 64 bits is read to its last digit. -/
theorem readUnsigned_decimal {n : Nat} (hn : n < UInt64.size) (hrest : Separates rest) :
    readUnsigned false (decimal n ++ rest) = .ok (.natural n, rest) := by
  obtain ⟨byte, tail, rfl, hbyte⟩ := hrest
  have hnone : ∀ next ∈ (byte :: tail).head?, isDigit next = false := by
    rintro next ⟨⟩
    rcases hbyte with rfl | rfl <;> rfl
  have hdigits : ∀ digit ∈ decimal n, isDigit digit = true := fun _ => isDigit_of_mem_decimal
  obtain ⟨htake, hdrop⟩ := Text.takeWhile_dropWhile_of_forall hdigits hnone
  rw [readUnsigned]
  simp only [htake, hdrop]
  split
  · next hnil => exact absurd hnil (decimal_ne_nil n)
  · next second more hzero =>
    by_cases hn0 : n = 0
    · subst hn0
      cases hzero
    · refine absurd ?_ (head?_decimal_ne hn0)
      rw [hzero]
      rfl
  · rw [absorb_decimal hn]
    rcases hbyte with rfl | rfl <;> rfl

/-- The first byte of a printed number is a digit. -/
theorem exists_decimal_append (n : Nat) (rest : List UInt8) :
    ∃ byte tail, decimal n ++ rest = byte :: tail ∧ isDigit byte = true := by
  rcases hdecimal : decimal n with _ | ⟨byte, digits⟩
  · exact absurd hdecimal (decimal_ne_nil n)
  · refine ⟨byte, digits ++ rest, rfl, isDigit_of_mem_decimal (n := n) ?_⟩
    rw [hdecimal]
    exact List.mem_cons_self

/-- A digit is not a blank, and none of the marks that JSON is made of. -/
theorem ne_of_isDigit {byte : UInt8} (h : isDigit byte = true) :
    isBlank byte = false ∧ byte ≠ 0x2d ∧ byte ≠ 0x5d := by
  refine ⟨Bool.eq_false_iff.mpr fun hblank => ?_, ?_, ?_⟩
  · simp only [isBlank, Bool.or_eq_true, decide_eq_true_eq] at hblank
    rcases hblank with ((rfl | rfl) | rfl) | rfl <;> cases h
  · rintro rfl
    cases h
  · rintro rfl
    cases h

/-- Blanks in front of a printed number are passed over. -/
theorem skipBlank_decimal {blanks : List UInt8} (hblanks : ∀ byte ∈ blanks, isBlank byte = true)
    (n : Nat) (rest : List UInt8) :
    skipBlank (blanks ++ (decimal n ++ rest)) = decimal n ++ rest := by
  obtain ⟨byte, tail, hfirst, hdigit⟩ := exists_decimal_append n rest
  rw [skipBlank, List.dropWhile_append_of_pos hblanks, hfirst, List.dropWhile_cons,
    (ne_of_isDigit hdigit).1]
  rfl

/-- A printed word is read as the word. -/
theorem readWord_decimal (blanks : List UInt8) (hblanks : ∀ byte ∈ blanks, isBlank byte = true)
    (word : UInt16) (hrest : Separates rest) :
    readWord (blanks ++ (decimal word.toNat ++ rest)) = .ok (word, rest) := by
  have hlt : word.toNat < 65536 := word.toNat_lt
  have hread := readUnsigned_decimal (Nat.lt_trans hlt (by decide)) hrest
  obtain ⟨byte, tail, hfirst, hdigit⟩ := exists_decimal_append word.toNat rest
  rw [readWord, skipBlank_decimal hblanks, hfirst]
  rw [hfirst] at hread
  have hnumber : readNumber (byte :: tail) = .ok (.natural word.toNat, rest) := by
    rw [readNumber]
    · exact hread
    · rintro digits ⟨⟩
      exact (ne_of_isDigit hdigit).2.1 rfl
  simp only [hdigit, Bool.or_true, if_true, hnumber, hlt, UInt16.ofNat_toNat]

/-! ## Texts -/

/-- Bytes that stand for themselves are read up to the closing quote. -/
theorem textOnto_plain {text read : List UInt8}
    (hplain : ∀ byte ∈ text, (0x20 ≤ byte ∧ byte < 0x80) ∧ byte ≠ 0x22 ∧ byte ≠ 0x5c)
    (hread : ∀ byte ∈ read, byte < 0x80) (rest : List UInt8) :
    textOnto read .plain (text ++ 0x22 :: rest) = .ok (read.reverse ++ text, rest) := by
  induction text generalizing read with
  | nil =>
    have hdecode : (Text.Utf8.decode? read.reverse).isSome = true :=
      Text.Utf8.isSome_decode?_of_ascii fun byte hbyte => hread byte (List.mem_reverse.mp hbyte)
    rw [List.nil_append, textOnto, if_pos rfl, if_pos hdecode, List.append_nil]
  | cons byte text ih =>
    obtain ⟨⟨⟨hlow, hhigh⟩, hquote, hescape⟩, htext⟩ := List.forall_mem_cons.mp hplain
    have hcontrol : ¬ byte < 0x20 := UInt8.not_lt.mpr hlow
    rw [List.cons_append, textOnto, if_neg hquote, if_neg hescape, if_neg hcontrol,
      ih htext (List.forall_mem_cons.mpr ⟨hhigh, hread⟩), List.reverse_cons, List.append_assoc]
    rfl

/-- A text of bytes that stand for themselves is read up to the closing quote. -/
theorem readText_plain {text : List UInt8}
    (hplain : ∀ byte ∈ text, (0x20 ≤ byte ∧ byte < 0x80) ∧ byte ≠ 0x22 ∧ byte ≠ 0x5c)
    (rest : List UInt8) : readText (text ++ 0x22 :: rest) = .ok (text, rest) :=
  textOnto_plain hplain (List.forall_mem_nil _) rest

/-! ## Lists -/

/-- A word on a line of its own within a list. There is a comma in front of all words but the
first. -/
def itemBytes (isFirst : Bool) (word : UInt16) : List UInt8 :=
  (if isFirst then [] else [0x2c]) ++ ([0x0a, 0x20, 0x20, 0x20, 0x20] ++ decimal word.toNat)

/-- Words on lines of their own within a list. -/
def itemsBytes (isFirst : Bool) : List UInt16 → List UInt8
  | [] => []
  | word :: words => itemBytes isFirst word ++ itemsBytes false words

/-- The closing bracket of a list, on a line of its own unless the list has no words. -/
def closingBytes (words : List UInt16) : List UInt8 :=
  if words.isEmpty then [0x5d] else [0x0a, 0x20, 0x20, 0x5d]

/-- A list with one word on each line. -/
def listBytes (words : List UInt16) : List UInt8 :=
  0x5b :: (itemsBytes true words ++ closingBytes words)

/-- Every word takes up a byte at least. -/
theorem length_le_itemsBytes (isFirst : Bool) (words : List UInt16) :
    words.length ≤ (itemsBytes isFirst words).length := by
  induction words generalizing isFirst with
  | nil => exact Nat.le_refl 0
  | cons word words ih =>
    have hrest := ih false
    simp only [itemsBytes, itemBytes, List.length_append, List.length_cons]
    omega

/-- The closing bracket is found. -/
theorem skipBlank_closingBytes (words : List UInt16) (rest : List UInt8) :
    skipBlank (closingBytes words ++ rest) = 0x5d :: rest := by
  cases words <;> rfl

/-- The closing bracket may stand behind a word. -/
theorem separates_closingBytes {words : List UInt16} (hwords : words ≠ []) (rest : List UInt8) :
    Separates (closingBytes words ++ rest) := by
  cases words with
  | nil => exact absurd rfl hwords
  | cons word words => exact ⟨_, _, rfl, .inr rfl⟩

theorem closeList_closingBytes (words : List UInt16) (rest : List UInt8) :
    closeList (closingBytes words ++ rest) = .ok rest := by
  rw [closeList, skipBlank_closingBytes]
  rfl

theorem itemsBytes_append_singleton (isFirst : Bool) (words : List UInt16) (word : UInt16) :
    itemsBytes isFirst (words ++ [word]) =
      itemsBytes isFirst words ++ itemBytes (isFirst && words.isEmpty) word := by
  induction words generalizing isFirst with
  | nil =>
    rw [List.isEmpty_nil, Bool.and_true]
    exact List.append_nil _
  | cons first words ih =>
    rw [List.cons_append, itemsBytes, itemsBytes, ih, List.append_assoc, List.isEmpty_cons,
      Bool.and_false, Bool.false_and]

/-- A word of a list starts with what may stand behind the word before it. -/
theorem separates_itemBytes (isFirst : Bool) (word : UInt16) (rest : List UInt8) :
    Separates (itemBytes isFirst word ++ rest) := by
  cases isFirst with
  | false => exact ⟨_, _, rfl, .inl rfl⟩
  | true => exact ⟨_, _, rfl, .inr rfl⟩

/-- A word of a list is found and read. -/
theorem exists_nextItem?_itemBytes (isFirst : Bool) (word : UInt16) (hrest : Separates rest) :
    ∃ bytes, nextItem? isFirst (itemBytes isFirst word ++ rest) = .ok (some bytes) ∧
      readWord bytes = .ok (word, rest) := by
  have hskip : skipBlank ([0x0a, 0x20, 0x20, 0x20, 0x20] ++ (decimal word.toNat ++ rest)) =
      decimal word.toNat ++ rest :=
    skipBlank_decimal (List.all_eq_true.mp rfl) word.toNat rest
  have hread : readWord (decimal word.toNat ++ rest) = .ok (word, rest) :=
    readWord_decimal [] (List.forall_mem_nil _) word hrest
  refine ⟨decimal word.toNat ++ rest, ?_, hread⟩
  obtain ⟨byte, tail, hfirst, hdigit⟩ := exists_decimal_append word.toNat rest
  have hbracket := (ne_of_isDigit hdigit).2.2
  rw [hfirst] at hskip
  have hitem : itemBytes isFirst word ++ rest = (if isFirst then [] else [0x2c]) ++
      ([0x0a, 0x20, 0x20, 0x20, 0x20] ++ byte :: tail) := by
    rw [itemBytes, List.append_assoc, List.append_assoc, hfirst]
  rw [hitem, hfirst]
  cases isFirst with
  | true =>
    have hskip' : skipBlank ((if true then [] else [0x2c]) ++
        ([0x0a, 0x20, 0x20, 0x20, 0x20] ++ byte :: tail)) = byte :: tail := hskip
    rw [nextItem?, hskip']
    split
    · next hnil => cases hnil
    · next heq => exact absurd (List.cons.inj heq).1 hbracket
    · next heq =>
      obtain ⟨rfl, rfl⟩ := List.cons.inj heq
      rfl
  | false =>
    have hcomma : skipBlank ((if false then [] else [0x2c]) ++
        ([0x0a, 0x20, 0x20, 0x20, 0x20] ++ byte :: tail)) =
          0x2c :: ([0x0a, 0x20, 0x20, 0x20, 0x20] ++ byte :: tail) := rfl
    rw [nextItem?, hcomma]
    split
    · next hnil => cases hnil
    · next heq => exact absurd (List.cons.inj heq).1 (by decide)
    · next comma rest heq =>
      obtain ⟨rfl, rfl⟩ := List.cons.inj heq
      rw [if_neg Bool.false_ne_true, if_pos rfl, hskip]
      split
      · next hnil => cases hnil
      · next heq => exact absurd (List.cons.inj heq).1 hbracket
      · rfl

/-- The words of a list are read up to its closing bracket. -/
theorem wordsOnto_itemsBytes {words : List UInt16} {fuel : Nat} (read : List UInt16)
    (hfuel : words.length < fuel) (hclose : ∃ tail, skipBlank rest = 0x5d :: tail)
    (hrest : words ≠ [] → Separates rest) :
    wordsOnto read fuel (itemsBytes read.isEmpty words ++ rest) =
      .ok (words.reverse ++ read, rest) := by
  induction words generalizing read fuel with
  | nil =>
    obtain ⟨fuel, rfl⟩ := Nat.exists_eq_add_of_lt hfuel
    obtain ⟨tail, htail⟩ := hclose
    have hnext : nextItem? read.isEmpty rest = .ok none := by
      rw [nextItem?, htail]
      rfl
    change wordsOnto read (0 + fuel + 1) rest = _
    rw [wordsOnto, hnext]
    rfl
  | cons word words ih =>
    obtain ⟨fuel, rfl⟩ := Nat.exists_eq_add_of_lt hfuel
    have hmore : Separates (itemsBytes false words ++ rest) := by
      cases words with
      | nil => exact hrest (List.cons_ne_nil _ _)
      | cons second words =>
        rw [itemsBytes, List.append_assoc]
        exact separates_itemBytes false second _
    obtain ⟨bytes, hnext, hread⟩ := exists_nextItem?_itemBytes read.isEmpty word hmore
    rw [itemsBytes, List.append_assoc, wordsOnto, hnext]
    simp only [hread]
    rw [List.reverse_cons, List.append_assoc]
    exact ih (word :: read) (by rw [List.length_cons]; omega)
      fun _ => hrest (List.cons_ne_nil _ _)

/-- The first words of a list are read one by one. -/
theorem firstWords_itemsBytes {count : Nat} (words : Vector UInt16 count) (hrest : Separates rest) :
    firstWords count (itemsBytes true words.toList ++ rest) = .ok (words, rest) := by
  induction count generalizing rest with
  | zero =>
    obtain rfl := words.eq_empty
    rfl
  | succ count ih =>
    have hwords : words.toList = words.pop.toList ++ [words.back] := by
      rw [← Vector.toList_push, Vector.push_pop_back]
    have hisFirst : (true && words.pop.toList.isEmpty) = decide (count = 0) := by
      rw [Bool.true_and, Bool.eq_iff_iff, List.isEmpty_iff, ← List.length_eq_zero_iff,
        Vector.length_toList, decide_eq_true_eq]
      rfl
    obtain ⟨bytes, hnext, hread⟩ :=
      exists_nextItem?_itemBytes (decide (count = 0)) words.back hrest
    have hfront := ih words.pop (separates_itemBytes (decide (count = 0)) words.back rest)
    rw [hwords, itemsBytes_append_singleton, hisFirst, List.append_assoc, firstWords, hfront]
    change (nextItem? (decide (count = 0)) _ >>= _) = _
    rw [hnext]
    change (readWord bytes >>= _) = _
    rw [hread]
    exact congrArg (fun words => Except.ok (words, rest)) (Vector.push_pop_back words)

/-- A list that was printed is read as its words. -/
theorem readWords_listBytes (words : List UInt16) (rest : List UInt8) :
    readWords (0x20 :: (listBytes words ++ rest)) = .ok (words, rest) := by
  have hopen : openList (0x20 :: (listBytes words ++ rest)) =
      .ok (itemsBytes true words ++ (closingBytes words ++ rest)) :=
    congrArg Except.ok (List.append_assoc _ _ _)
  have hlength := length_le_itemsBytes true words
  have hread : wordsOnto [] ((itemsBytes true words ++ (closingBytes words ++ rest)).length + 1)
      (itemsBytes true words ++ (closingBytes words ++ rest)) =
        .ok (words.reverse ++ [], closingBytes words ++ rest) :=
    wordsOnto_itemsBytes [] (by rw [List.length_append]; omega)
      ⟨rest, skipBlank_closingBytes words rest⟩ fun hwords => separates_closingBytes hwords rest
  rw [readWords, hopen]
  change (wordsOnto [] _ _ >>= _) = _
  rw [hread]
  change (closeList _ >>= _) = _
  rw [closeList_closingBytes, List.append_nil, List.reverse_reverse]
  rfl

/-- A list that was printed is read as its words, if as many are asked for. -/
theorem readVector_listBytes {count : Nat} (words : Vector UInt16 count) (hcount : count ≠ 0)
    (rest : List UInt8) :
    readVector count (0x20 :: (listBytes words.toList ++ rest)) = .ok (words, rest) := by
  have hopen : openList (0x20 :: (listBytes words.toList ++ rest)) =
      .ok (itemsBytes true words.toList ++ (closingBytes words.toList ++ rest)) :=
    congrArg Except.ok (List.append_assoc _ _ _)
  have hwords : words.toList ≠ [] := by
    rw [ne_eq, ← List.length_eq_zero_iff, Vector.length_toList]
    exact hcount
  rw [readVector, hopen]
  change (firstWords count _ >>= _) = _
  rw [firstWords_itemsBytes words (separates_closingBytes hwords rest)]
  change (closeList _ >>= _) = _
  rw [closeList_closingBytes]
  rfl

end WordMachine.Json
