import WordMachine.Text.Numeral

/-!
# Numbers in decimal

Decimal digits are read as the number they write: `ofDigits?_of_digits` says exactly what reading
gives, also at and beyond the limit. What is printed as a decimal number is read as that number
(`ofDigits?_repr`), and no two numbers are printed alike (`repr_inj`).
-/

namespace WordMachine.Text.Numeral

/-! ## Single digits -/

/-- Core's decimal digits are the decimal digits. -/
theorem isDecimalDigit_eq_isDigit (c : Char) : isDecimalDigit c = c.isDigit := rfl

/-- A decimal digit is read as its distance from zero. -/
theorem digit?_of_isDecimalDigit {c : Char} (hc : isDecimalDigit c = true) :
    digit? 10 c = some (c.toNat - '0'.toNat) := by
  have hsmall : c.toNat - '0'.toNat < 10 := by
    rw [isDecimalDigit_eq_isDigit] at hc
    have hle := Char.isDigit_iff_toNat.mp hc
    simp at hle ⊢
    omega
  rw [digit?, hexDigit?, if_pos hc]
  simpa using hsmall

/-- Only decimal digits are printed. -/
theorem isDecimalDigit_of_mem_repr {n : Nat} {c : Char} (hc : c ∈ n.repr.toList) :
    isDecimalDigit c = true := by
  rw [Nat.toList_repr] at hc
  rw [isDecimalDigit_eq_isDigit]
  exact Nat.isDigit_of_mem_toDigits (by decide) (by decide) hc

/-- A printed number has letters and digits only. -/
theorem isAlphanum_of_mem_repr {n : Nat} {c : Char} (hc : c ∈ n.repr.toList) :
    c.isAlphanum = true := by
  have hdecimal : c.isDigit = true := isDecimalDigit_of_mem_repr hc
  rw [Char.isAlphanum, hdecimal, Bool.or_true]

theorem toList_repr_ne_nil (n : Nat) : n.repr.toList ≠ [] := by
  rw [Nat.toList_repr]
  exact Nat.toDigits_ne_nil

/-! ## Whole numbers -/

/-- Digits give a number below the limit if the number in front of them is. -/
theorem digitsFrom?_lt {limit radix value number : Nat} {text : List Char} (hvalue : value < limit)
    (h : digitsFrom? limit radix value text = some number) : number < limit := by
  fun_induction digitsFrom? limit radix value text with
  | case1 value =>
    obtain rfl := Option.some.inj h
    exact hvalue
  | case2 value c rest digit hdigit next hnext ih => exact ih hnext h
  | case3 | case4 => cases h

/-- Only numbers below the limit are read. -/
theorem ofDigits?_lt {limit radix number : Nat} {text : List Char} (hlimit : 0 < limit)
    (h : ofDigits? limit radix text = some number) : number < limit := by
  unfold ofDigits? at h
  split at h
  · cases h
  · exact digitsFrom?_lt hlimit h

/-- More digits never make a number smaller. -/
theorem le_ofDigitChars (text : List Char) (value : Nat) :
    value ≤ Nat.ofDigitChars 10 text value := by
  induction text generalizing value with
  | nil => exact Nat.le_refl value
  | cons c text ih =>
    rw [Nat.ofDigitChars_cons]
    exact Nat.le_trans (by omega) (ih _)

/-- Digits behind a number below the limit are read as the number they make together if it is below
the limit too, and refused if not. -/
theorem digitsFrom?_of_digits {limit value : Nat} {text : List Char}
    (h : ∀ c ∈ text, isDecimalDigit c = true) (hvalue : value < limit) :
    digitsFrom? limit 10 value text =
      if Nat.ofDigitChars 10 text value < limit then some (Nat.ofDigitChars 10 text value)
      else none := by
  induction text generalizing value with
  | nil => exact (if_pos hvalue).symm
  | cons c text ih =>
    obtain ⟨hc, hrest⟩ := List.forall_mem_cons.mp h
    have hnext : value * 10 + (c.toNat - '0'.toNat) = 10 * value + (c.toNat - '0'.toNat) := by
      rw [Nat.mul_comm]
    simp only [digitsFrom?, digit?_of_isDecimalDigit hc, Nat.ofDigitChars_cons, hnext]
    split
    · next hsmall => exact ih hrest hsmall
    · next hlarge =>
      -- The digits up to here already reach the limit.
      have hmore := le_ofDigitChars text (10 * value + (c.toNat - '0'.toNat))
      rw [if_neg (by omega)]

/-- Decimal digits are read as the number they write if it is below the limit, and refused if
not. -/
theorem ofDigits?_of_digits {text : List Char} (hne : text ≠ [])
    (h : ∀ c ∈ text, isDecimalDigit c = true) (limit : Nat) :
    ofDigits? limit 10 text =
      if Nat.ofDigitChars 10 text 0 < limit then some (Nat.ofDigitChars 10 text 0) else none := by
  rw [ofDigits?, if_neg (by simpa using hne)]
  by_cases hlimit : 0 < limit
  · exact digitsFrom?_of_digits h hlimit
  · -- Nothing is below zero, and the first digit is refused.
    obtain ⟨c, rest, rfl⟩ := List.exists_cons_of_ne_nil hne
    obtain rfl : limit = 0 := by omega
    simp [digitsFrom?, digit?_of_isDecimalDigit (h c List.mem_cons_self)]

/-- A printed number is read as the number if it is below the limit, and refused if not. -/
theorem ofDigits?_repr (limit n : Nat) :
    ofDigits? limit 10 n.repr.toList = if n < limit then some n else none := by
  rw [ofDigits?_of_digits (toList_repr_ne_nil n) (fun _ => isDecimalDigit_of_mem_repr),
    Nat.toList_repr, Nat.ofDigitChars_toDigits (by decide) (by decide)]

/-- No two numbers are printed alike. -/
theorem repr_inj {m n : Nat} (h : m.repr = n.repr) : m = n := by
  have hm := ofDigits?_repr (max m n + 1) m
  rw [h, ofDigits?_repr, if_pos (by omega), if_pos (by omega)] at hm
  exact (Option.some.inj hm).symm

end WordMachine.Text.Numeral
