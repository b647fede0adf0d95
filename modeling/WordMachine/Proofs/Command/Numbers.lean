import WordMachine.Debugger.Command
import WordMachine.Proofs.Text.Radices

/-!
# Numbers in commands

A number is written in one of the radices, with as many leading zeros as one likes (`IsNumeral`).
Every number that is written so and has no more bits than it may is read as itself. Exactly one
other kind of text is read too: a plus sign may stand in front of the digits, behind the mark if
there is one (`IsSignedNumeral`). Everything else is refused (`reads_numerals`), and
`readNumber_signed` is a text that is read although it writes no number.
-/

namespace WordMachine.Command

/-- The text is read as the number, which has no more than so many bits. -/
def IsRead (bits : Nat) (text : String) (number : Nat) : Prop := readNumber bits text = .ok number

/-- The text writes the number in the radix, and the number has no more than so many bits. -/
def IsNumeralIn (radix : Text.Numeral.Radix) (bits : Nat) (text : String) (number : Nat) : Prop :=
  number < 2 ^ bits ∧ radix.Writes text.toList number

/-- The text writes the number in one of the radices. -/
def IsNumeral (bits : Nat) (text : String) (number : Nat) : Prop :=
  ∃ radix, IsNumeralIn radix bits text number

/-- The text writes the number but for a plus sign in front of the digits. -/
def IsSignedNumeral (bits : Nat) (text : String) (number : Nat) : Prop :=
  ∃ radix : Text.Numeral.Radix, number < 2 ^ bits ∧ radix.WritesSigned text.toList number

variable {bits number : Nat} {text : String} {word : Word} {error : CommandError}

/-- What is written has no sign. -/
theorem IsNumeral.plus_notMem (h : IsNumeral bits text number) : '+' ∉ text.toList := by
  obtain ⟨radix, -, hwrites⟩ := h
  exact hwrites.plus_notMem

/-- What has a sign shows it. -/
theorem IsSignedNumeral.plus_mem (h : IsSignedNumeral bits text number) : '+' ∈ text.toList := by
  obtain ⟨radix, -, digits, htext, -⟩ := h
  rw [htext]
  simp

/-- The number as it is written in the radix. -/
def numeral (radix : Text.Numeral.Radix) (number : Nat) : String := String.ofList (radix.text number)

theorem isNumeralIn_numeral (radix : Text.Numeral.Radix) (h : number < 2 ^ bits) :
    IsNumeralIn radix bits (numeral radix number) number := by
  refine ⟨h, ?_⟩
  rw [numeral, String.toList_ofList]
  exact radix.writes_text number

theorem isWord_numeral (radix : Text.Numeral.Radix) (number : Nat) :
    Text.IsWord (numeral radix number).toList := by
  rw [numeral, String.toList_ofList]
  exact (radix.writes_text number).isWord

/-- The numbers that are read are written with or without a sign. -/
theorem readNumber_eq_ok_iff :
    readNumber bits text = .ok number ↔
      IsNumeral bits text number ∨ IsSignedNumeral bits text number := by
  have hlimit : 1 <<< bits = 2 ^ bits := by rw [Nat.shiftLeft_eq, Nat.one_mul]
  have hread : readNumber bits text = .ok number ↔
      Text.Numeral.ofMarked? (2 ^ bits) text.toList = some number := by
    rw [readNumber, hlimit]
    cases Text.Numeral.ofMarked? (2 ^ bits) text.toList <;> simp
  rw [hread, Text.Numeral.ofMarked?_eq_some_iff (Nat.two_pow_pos bits), exists_or, and_or_left,
    ← exists_and_left, ← exists_and_left]
  rfl

/-- What is read as no number is refused as it stands. -/
theorem readNumber_eq_error_iff :
    readNumber bits text = .error error ↔
      error = .invalidNumber text ∧ ∀ number, readNumber bits text ≠ .ok number := by
  rw [readNumber]
  cases Text.Numeral.ofMarked? (1 <<< bits) text.toList <;> simp [eq_comm]

/-- A number that is read has no more bits than it may. -/
theorem lt_of_readNumber (h : readNumber bits text = .ok number) : number < 2 ^ bits :=
  (readNumber_eq_ok_iff.mp h).elim (fun ⟨_, hlt, _⟩ => hlt) fun ⟨_, hlt, _⟩ => hlt

/-- A word is read as a number of sixteen bits. -/
theorem readWord_eq_ok_iff : readWord text = .ok word ↔ readNumber 16 text = .ok word.toNat := by
  rw [readWord]
  cases hread : readNumber 16 text with
  | error error => exact ⟨nofun, nofun⟩
  | ok number =>
    have hnumber : number < 65536 := lt_of_readNumber hread
    change Except.ok (UInt16.ofNat number) = .ok word ↔ _
    rw [Except.ok.injEq, Except.ok.injEq, ← UInt16.toNat_inj, UInt16.toNat_ofNat_of_lt' hnumber]

/-- A number of sixteen bits is read as a word. -/
theorem IsRead.readWord_eq (h : IsRead 16 text number) : readWord text = .ok (UInt16.ofNat number) := by
  rw [readWord, h]
  rfl

/-- What is no word is refused as it is as a number. -/
theorem readWord_eq_error_iff : readWord text = .error error ↔ readNumber 16 text = .error error := by
  rw [readWord]
  cases readNumber 16 text <;> simp

/-- A number is read from the texts that write it within the bits that it may have, and from those
that do so but for a plus sign in front of the digits. Every other text is refused. So what has no
plus sign is read exactly if it writes a number. -/
theorem reads_numerals (bits : Nat) (text : String) :
    (∀ number, readNumber bits text = .ok number ↔
      IsNumeral bits text number ∨ IsSignedNumeral bits text number) ∧
    (∀ error, readNumber bits text = .error error ↔ error = .invalidNumber text ∧
      ∀ number, ¬ IsNumeral bits text number ∧ ¬ IsSignedNumeral bits text number) ∧
    (∀ word, readWord text = .ok word ↔ readNumber 16 text = .ok word.toNat) ∧
    ('+' ∉ text.toList →
      (∀ number, readNumber bits text = .ok number ↔ IsNumeral bits text number) ∧
      ∀ error, readNumber bits text = .error error ↔ error = .invalidNumber text ∧
        ∀ number, ¬ IsNumeral bits text number) := by
  have hrefused : ∀ error, readNumber bits text = .error error ↔ error = .invalidNumber text ∧
      ∀ number, ¬ IsNumeral bits text number ∧ ¬ IsSignedNumeral bits text number := by
    intro error
    rw [readNumber_eq_error_iff]
    simp only [ne_eq, readNumber_eq_ok_iff, not_or]
  refine ⟨fun number => readNumber_eq_ok_iff, hrefused, fun word => readWord_eq_ok_iff, ?_⟩
  intro hplus
  have hunsigned : ∀ number, ¬ IsSignedNumeral bits text number :=
    fun number hsigned => hplus hsigned.plus_mem
  constructor
  · intro number
    rw [readNumber_eq_ok_iff, or_iff_left (hunsigned number)]
  · intro error
    rw [hrefused]
    simp only [hunsigned, not_false_eq_true, and_true]

/-- A plus sign behind the mark of a radix is passed over, although no number is written so. -/
theorem readNumber_signed :
    readNumber 16 "0x+5" = .ok 5 ∧ ∀ number, ¬ IsNumeral 16 "0x+5" number :=
  ⟨rfl, fun _ h => absurd h.plus_notMem (by decide)⟩

end WordMachine.Command
