import Mathlib.Data.List.Forall2
import Mathlib.Data.Nat.Digits.Defs
import WordMachine.Proofs.Text.Words
import WordMachine.Text.Numeral

/-!
# Numbers in marked radices

What it is to write a number, said without a reader: `WritesDigits` is the place-value system, in any
radix and with letters in either case, and `Radix.Writes` puts the mark of the radix in front.

`ofMarked?_eq_some_iff` says what is read. These are the numbers that are written so, and besides
them those with a plus sign between the mark and the digits (`Radix.WritesSigned`), as long as they
are below the limit. No number is written with a plus sign (`Radix.Writes.plus_notMem`), so that the
two do not meet. Every number is written in every radix (`Radix.writes_text`).
-/

namespace WordMachine.Text.Numeral

/-! ## Digits -/

/-- The character is the digit of a radix that stands for the value. -/
def IsDigit (radix : Nat) (c : Char) (value : Nat) : Prop :=
  value < radix ∧
    ("0123456789abcdef".toList[value]? = some c ∨ "0123456789ABCDEF".toList[value]? = some c)

/-- The characters are digits of a radix, at least one, and stand for the number together. The last
one counts units. -/
def WritesDigits (radix : Nat) (text : List Char) (number : Nat) : Prop :=
  text ≠ [] ∧ ∃ values, List.Forall₂ (IsDigit radix) text values ∧
    number = Nat.ofDigits radix values.reverse

/-- A way to write numbers. -/
inductive Radix where
  | decimal
  | binary
  | octal
  | hexadecimal
  deriving DecidableEq, Repr

namespace Radix

/-- The number of digits there are. -/
def base : Radix → Nat
  | decimal => 10
  | binary => 2
  | octal => 8
  | hexadecimal => 16

/-- What stands in front of the digits. -/
def mark : Radix → List Char
  | decimal => []
  | binary => ['0', 'b']
  | octal => ['0', 'o']
  | hexadecimal => ['0', 'x']

/-- The text writes the number in the radix. -/
def Writes (radix : Radix) (text : List Char) (number : Nat) : Prop :=
  ∃ digits, text = radix.mark ++ digits ∧ WritesDigits radix.base digits number

/-- The text writes the number in the radix, but for a plus sign in front of the digits. -/
def WritesSigned (radix : Radix) (text : List Char) (number : Nat) : Prop :=
  ∃ digits, text = radix.mark ++ '+' :: digits ∧ WritesDigits radix.base digits number

end Radix

/-- Where the digits follow each other as characters do, their distance is that of the characters. -/
theorem getElem?_of_run {digits : List Char} (first start count : Nat)
    (hrun : ∀ n < count, digits[n + start]? = some (Char.ofNat (first + n))) {c : Char}
    (hlow : first ≤ c.toNat) (hhigh : c.toNat < first + count) :
    digits[c.toNat - first + start]? = some c := by
  rw [hrun (c.toNat - first) (by omega), Nat.add_sub_cancel' hlow, Char.ofNat_toNat]

/-- The sixteen digits have their values in either case, and nothing else has one. -/
theorem hexDigit?_eq_some_iff {c : Char} {value : Nat} :
    hexDigit? c = some value ↔
      "0123456789abcdef".toList[value]? = some c ∨ "0123456789ABCDEF".toList[value]? = some c := by
  constructor
  · intro h
    simp only [hexDigit?, isDecimalDigit, Bool.and_eq_true, decide_eq_true_eq] at h
    split at h
    · next hc =>
      obtain ⟨hlow, hhigh⟩ : 48 ≤ c.toNat ∧ c.toNat ≤ 57 := hc
      obtain rfl := Option.some.inj h
      exact .inl (getElem?_of_run 48 0 10 (by decide) hlow (by omega))
    · split at h
      · next hc =>
        obtain ⟨hlow, hhigh⟩ : 97 ≤ c.toNat ∧ c.toNat ≤ 102 := hc
        obtain rfl := Option.some.inj h
        exact .inl (getElem?_of_run 97 10 6 (by decide) hlow (by omega))
      · split at h
        · next hc =>
          obtain ⟨hlow, hhigh⟩ : 65 ≤ c.toNat ∧ c.toNat ≤ 70 := hc
          obtain rfl := Option.some.inj h
          exact .inr (getElem?_of_run 65 10 6 (by decide) hlow (by omega))
        · cases h
  · have hvalues : ∀ n < 16, "0123456789abcdef".toList[n]?.bind hexDigit? = some n ∧
        "0123456789ABCDEF".toList[n]?.bind hexDigit? = some n := by
      decide
    rintro (h | h)
    · have hvalue := (hvalues value (List.getElem?_eq_some_iff.mp h).1).1
      rwa [h] at hvalue
    · have hvalue := (hvalues value (List.getElem?_eq_some_iff.mp h).1).2
      rwa [h] at hvalue

theorem digit?_eq_some_iff {radix value : Nat} {c : Char} :
    digit? radix c = some value ↔ IsDigit radix c value := by
  rw [digit?, Option.filter_eq_some_iff, hexDigit?_eq_some_iff, decide_eq_true_eq, and_comm]
  rfl

theorem isDigit_unique {radix value value' : Nat} {c : Char} (h : IsDigit radix c value)
    (h' : IsDigit radix c value') : value = value' :=
  Option.some.inj ((digit?_eq_some_iff.mpr h).symm.trans (digit?_eq_some_iff.mpr h'))

/-! ## Numbers -/

/-- The number that digits make behind a number that is already there. -/
theorem horner_cons (radix start value : Nat) (values : List Nat) :
    start * radix ^ (value :: values).length + Nat.ofDigits radix (value :: values).reverse =
      (start * radix + value) * radix ^ values.length + Nat.ofDigits radix values.reverse := by
  rw [List.reverse_cons, Nat.ofDigits_append, Nat.ofDigits_singleton, List.length_reverse,
    List.length_cons]
  ring

/-- Digits that follow a number below the limit are read as what they make of it, if that is below
the limit too. -/
theorem digitsFrom?_eq_some_iff {limit radix start number : Nat} {text : List Char}
    (hstart : start < limit) :
    digitsFrom? limit radix start text = some number ↔
      number < limit ∧ ∃ values, List.Forall₂ (IsDigit radix) text values ∧
        number = start * radix ^ values.length + Nat.ofDigits radix values.reverse := by
  fun_induction digitsFrom? limit radix start text with
  | case1 start =>
    constructor
    · intro h
      obtain rfl := Option.some.inj h
      exact ⟨hstart, [], .nil, by simp⟩
    · rintro ⟨-, values, hvalues, rfl⟩
      obtain rfl := List.forall₂_nil_left_iff.mp hvalues
      simp
  | case2 start c rest digit hdigit next hnext ih =>
    rw [digit?_eq_some_iff] at hdigit
    rw [ih hnext]
    refine and_congr_right fun _ => ⟨?_, ?_⟩
    · rintro ⟨values, hvalues, rfl⟩
      exact ⟨digit :: values, .cons hdigit hvalues, (horner_cons ..).symm⟩
    · rintro ⟨values, hvalues, rfl⟩
      obtain ⟨value, values, hvalue, hrest, rfl⟩ := List.forall₂_cons_left_iff.mp hvalues
      obtain rfl := isDigit_unique hdigit hvalue
      exact ⟨values, hrest, horner_cons ..⟩
  | case3 start c rest digit hdigit next hnext =>
    -- The digits up to here already reach the limit, and the others make the number no smaller.
    rw [digit?_eq_some_iff] at hdigit
    refine iff_of_false nofun ?_
    rintro ⟨hlimit, values, hvalues, rfl⟩
    obtain ⟨value, values, hvalue, hrest, rfl⟩ := List.forall₂_cons_left_iff.mp hvalues
    obtain rfl := isDigit_unique hdigit hvalue
    have hradix : 0 < radix ^ values.length := Nat.pow_pos (Nat.zero_lt_of_lt hdigit.1)
    have hmore : next ≤ next * radix ^ values.length := Nat.le_mul_of_pos_right next hradix
    rw [horner_cons] at hlimit
    exact hnext (Nat.lt_of_le_of_lt (Nat.le_trans hmore (Nat.le_add_right _ _)) hlimit)
  | case4 start c rest hnone =>
    refine iff_of_false nofun ?_
    rintro ⟨-, values, hvalues, -⟩
    obtain ⟨value, values, hvalue, hrest, rfl⟩ := List.forall₂_cons_left_iff.mp hvalues
    rw [← digit?_eq_some_iff, hnone] at hvalue
    cases hvalue

/-- What is read without a mark and a sign. -/
theorem ofDigits?_eq_some_iff {limit radix number : Nat} {text : List Char} (hlimit : 0 < limit) :
    ofDigits? limit radix text = some number ↔ number < limit ∧ WritesDigits radix text number := by
  rw [ofDigits?, WritesDigits]
  by_cases hempty : text = []
  · subst hempty
    simp
  · rw [if_neg (by simpa using hempty), digitsFrom?_eq_some_iff hlimit]
    simp [hempty]

/-! ## Signs and marks -/

/-- Digits are neither signs nor blanks. -/
theorem IsDigit.plain {radix value : Nat} {c : Char} (h : IsDigit radix c value) :
    c ≠ '+' ∧ isBlank c = false := by
  have hall : ("0123456789abcdef".toList ++ "0123456789ABCDEF".toList).all
      (fun d => d != '+' && !isBlank d) = true := by
    decide
  have hmem : c ∈ "0123456789abcdef".toList ++ "0123456789ABCDEF".toList :=
    List.mem_append.mpr (h.2.imp List.mem_of_getElem? List.mem_of_getElem?)
  simpa using List.all_eq_true.mp hall c hmem

theorem WritesDigits.exists_isDigit {radix number : Nat} {text : List Char}
    (h : WritesDigits radix text number) : ∀ c ∈ text, ∃ value, IsDigit radix c value := by
  obtain ⟨-, values, hvalues, -⟩ := h
  have hboth := hvalues.imp fun c value hvalue => And.intro (Exists.intro value hvalue) hvalue
  exact ((List.forall₂_and_left ..).mp hboth).1

/-- There is no plus sign among digits. -/
theorem WritesDigits.plus_notMem {radix number : Nat} {text : List Char}
    (h : WritesDigits radix text number) : '+' ∉ text := by
  intro hplus
  obtain ⟨value, hvalue⟩ := h.exists_isDigit '+' hplus
  exact hvalue.plain.1 rfl

/-- What is read without a mark. A plus sign in front is passed over. -/
theorem ofSigned?_eq_some_iff {limit radix number : Nat} {text : List Char} (hlimit : 0 < limit) :
    ofSigned? limit radix text = some number ↔
      number < limit ∧ (WritesDigits radix text number ∨
        ∃ digits, text = '+' :: digits ∧ WritesDigits radix digits number) := by
  unfold ofSigned?
  split
  · next digits =>
    rw [ofDigits?_eq_some_iff hlimit]
    refine and_congr_right fun _ => ⟨fun h => .inr ⟨digits, rfl, h⟩, ?_⟩
    rintro (h | ⟨found, hfound, h⟩)
    · exact absurd List.mem_cons_self (h.plus_notMem)
    · obtain rfl := (List.cons.inj hfound).2
      exact h
  · next hunsigned =>
    rw [ofDigits?_eq_some_iff hlimit]
    refine and_congr_right fun _ => ⟨.inl, ?_⟩
    rintro (h | ⟨digits, rfl, -⟩)
    · exact h
    · exact absurd rfl (hunsigned digits)

/-- The text does not start with the mark of a radix. -/
def IsUnmarked (text : List Char) : Prop := ∀ radix : Radix, radix.mark <+: text → radix = .decimal

/-- Behind its mark a number is read in the radix, and a number without a mark in decimal. -/
theorem ofMarked?_mark {radix : Radix} {rest : List Char} (limit : Nat)
    (h : radix = .decimal → IsUnmarked rest) :
    ofMarked? limit (radix.mark ++ rest) = ofSigned? limit radix.base rest := by
  cases radix with
  | binary | octal | hexadecimal => rfl
  | decimal =>
    change ofMarked? limit rest = ofSigned? limit 10 rest
    unfold ofMarked?
    split
    · exact absurd (h rfl .binary ⟨_, rfl⟩) nofun
    · exact absurd (h rfl .octal ⟨_, rfl⟩) nofun
    · exact absurd (h rfl .hexadecimal ⟨_, rfl⟩) nofun
    · rfl

/-- Every text starts with a mark, or else without one. -/
theorem exists_mark (text : List Char) :
    ∃ (radix : Radix) (rest : List Char), text = radix.mark ++ rest ∧
      (radix = .decimal → IsUnmarked rest) := by
  by_cases hunmarked : IsUnmarked text
  · exact ⟨.decimal, text, rfl, fun _ => hunmarked⟩
  · unfold IsUnmarked at hunmarked
    push Not at hunmarked
    obtain ⟨radix, ⟨rest, hrest⟩, hradix⟩ := hunmarked
    exact ⟨radix, rest, hrest.symm, fun hdecimal => absurd hdecimal hradix⟩

/-- The letters of the marks are no decimal digits. -/
theorem isUnmarked_of_writesDigits {number : Nat} {digits : List Char}
    (h : WritesDigits 10 digits number) : IsUnmarked digits := by
  have hletter (c : Char) (hnone : digit? 10 c = none) : c ∉ digits := by
    intro hc
    obtain ⟨value, hvalue⟩ := h.exists_isDigit c hc
    rw [← digit?_eq_some_iff, hnone] at hvalue
    cases hvalue
  rintro radix ⟨rest, rfl⟩
  cases radix with
  | decimal => rfl
  | binary => exact absurd (by simp [Radix.mark]) (hletter 'b' rfl)
  | octal => exact absurd (by simp [Radix.mark]) (hletter 'o' rfl)
  | hexadecimal => exact absurd (by simp [Radix.mark]) (hletter 'x' rfl)

/-- The numbers that are read are those below the limit that are written in a radix, with or without
a plus sign in front of the digits. -/
theorem ofMarked?_eq_some_iff {limit number : Nat} {text : List Char} (hlimit : 0 < limit) :
    ofMarked? limit text = some number ↔
      number < limit ∧ ∃ radix : Radix, radix.Writes text number ∨ radix.WritesSigned text number := by
  constructor
  · intro h
    obtain ⟨radix, rest, rfl, hmark⟩ := exists_mark text
    rw [ofMarked?_mark limit hmark, ofSigned?_eq_some_iff hlimit] at h
    obtain ⟨hnumber, hdigits | ⟨digits, rfl, hdigits⟩⟩ := h
    · exact ⟨hnumber, radix, .inl ⟨rest, rfl, hdigits⟩⟩
    · exact ⟨hnumber, radix, .inr ⟨digits, rfl, hdigits⟩⟩
  · rintro ⟨hnumber, radix, ⟨digits, rfl, hdigits⟩ | ⟨digits, rfl, hdigits⟩⟩
    · rw [ofMarked?_mark limit, ofSigned?_eq_some_iff hlimit]
      · exact ⟨hnumber, .inl hdigits⟩
      · rintro rfl
        exact isUnmarked_of_writesDigits hdigits
    · rw [ofMarked?_mark limit, ofSigned?_eq_some_iff hlimit]
      · exact ⟨hnumber, .inr ⟨digits, rfl, hdigits⟩⟩
      · rintro rfl marked ⟨rest, hrest⟩
        cases marked with
        | decimal => rfl
        | binary | octal | hexadecimal => exact absurd (List.cons.inj hrest).1 (by decide)

/-! ## What is written -/

/-- What writes a number has no plus sign in it. -/
theorem Radix.Writes.plus_notMem {radix : Radix} {number : Nat} {text : List Char}
    (h : radix.Writes text number) : '+' ∉ text := by
  obtain ⟨digits, rfl, hdigits⟩ := h
  have hmark : '+' ∉ radix.mark := by cases radix <;> decide
  rw [List.mem_append, not_or]
  exact ⟨hmark, hdigits.plus_notMem⟩

/-- What writes a number can be a word. -/
theorem Radix.Writes.isWord {radix : Radix} {number : Nat} {text : List Char}
    (h : radix.Writes text number) : IsWord text := by
  obtain ⟨digits, rfl, hdigits⟩ := h
  refine ⟨fun hempty => hdigits.1 (List.append_eq_nil_iff.mp hempty).2, fun c hc => ?_⟩
  rcases List.mem_append.mp hc with hmark | hdigit
  · have hmarks : radix.mark.all (fun d => !isBlank d) = true := by cases radix <;> rfl
    simpa using List.all_eq_true.mp hmarks c hmark
  · obtain ⟨value, hvalue⟩ := hdigits.exists_isDigit c hdigit
    exact hvalue.plain.2

/-! ## Writing numbers -/

/-- A digit behind a number makes it larger by a place. -/
theorem WritesDigits.snoc {radix number value : Nat} {text : List Char} {c : Char}
    (h : WritesDigits radix text number) (hc : IsDigit radix c value) :
    WritesDigits radix (text ++ [c]) (number * radix + value) := by
  obtain ⟨hne, values, hvalues, rfl⟩ := h
  refine ⟨by simp, values ++ [value], List.rel_append hvalues (.cons hc .nil), ?_⟩
  rw [List.reverse_append, List.reverse_singleton, List.singleton_append, Nat.ofDigits_cons,
    Nat.add_comm, Nat.mul_comm]

/-- The digits that core prints are digits. -/
theorem isDigit_digitChar {radix value : Nat} (hradix : radix ≤ 16) (hvalue : value < radix) :
    IsDigit radix value.digitChar value := by
  have hall : ∀ n < 16, "0123456789abcdef".toList[n]? = some n.digitChar := by decide
  exact ⟨hvalue, .inl (hall value (by omega))⟩

/-- What core prints in a radix writes the number. -/
theorem writesDigits_toDigits {radix : Nat} (hmany : 1 < radix) (hradix : radix ≤ 16) (n : Nat) :
    WritesDigits radix (Nat.toDigits radix n) n := by
  induction n using Nat.strongRecOn with
  | ind n ih =>
    by_cases hsmall : n < radix
    · rw [Nat.toDigits_of_lt_base hsmall]
      exact ⟨by simp, [n], .cons (isDigit_digitChar hradix hsmall) .nil, by simp⟩
    · have hless : n / radix < n := Nat.div_lt_self (by omega) hmany
      have hlast : n % radix < radix := Nat.mod_lt _ (by omega)
      have hsnoc := (ih _ hless).snoc (isDigit_digitChar hradix hlast)
      rw [Nat.toDigits_of_base_le hmany (by omega)]
      rwa [Nat.div_add_mod'] at hsnoc

/-- A number as it is written in a radix, without leading zeros. -/
def Radix.text (radix : Radix) (n : Nat) : List Char := radix.mark ++ Nat.toDigits radix.base n

/-- Every number is written in every radix. -/
theorem Radix.writes_text (radix : Radix) (n : Nat) : radix.Writes (radix.text n) n := by
  refine ⟨_, rfl, writesDigits_toDigits ?_ ?_ n⟩
  · cases radix <;> decide
  · cases radix <;> decide

end WordMachine.Text.Numeral
