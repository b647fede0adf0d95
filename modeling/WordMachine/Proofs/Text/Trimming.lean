import Mathlib.Data.List.DropRight
import WordMachine.Text.Blank

/-!
# Texts without the blanks around them

`TrimsTo` says what is left of a text without the blanks at its two ends, and does not say how the
blanks are taken off. Exactly one text is left, which is what `trim` gives (`trimsTo_iff`).
-/

namespace WordMachine.Text

/-- The character has the Unicode property `White_Space`. -/
def IsWhiteSpace (c : Char) : Prop :=
  0x09 ≤ c.toNat ∧ c.toNat ≤ 0x0d ∨ 0x2000 ≤ c.toNat ∧ c.toNat ≤ 0x200a ∨
    c.toNat ∈ [0x20, 0x85, 0xa0, 0x1680, 0x2028, 0x2029, 0x202f, 0x205f, 0x3000]

/-- The bare text is the text between white space, and has no white space at either end. -/
def TrimsTo (text bare : List Char) : Prop :=
  ∃ before behind, text = before ++ bare ++ behind ∧ (∀ c ∈ before ++ behind, IsWhiteSpace c) ∧
    (∀ c ∈ bare.head?, ¬ IsWhiteSpace c) ∧ ∀ c ∈ bare.getLast?, ¬ IsWhiteSpace c

theorem isBlank_iff {c : Char} : isBlank c = true ↔ IsWhiteSpace c := by
  simp only [isBlank, blankRanges, IsWhiteSpace, List.any_cons, List.any_nil, Bool.or_false,
    Bool.or_eq_true, Bool.and_eq_true, decide_eq_true_eq, List.mem_cons, List.not_mem_nil,
    or_false]
  omega

theorem isBlank_eq_false_iff {c : Char} : isBlank c = false ↔ ¬ IsWhiteSpace c := by
  rw [← isBlank_iff, Bool.not_eq_true]

variable {text bare : List Char}

/-- What `trim` gives is left of a text. -/
theorem trimsTo_trim (text : List Char) : TrimsTo text (trim text) := by
  have hrest : trim text ++ (text.dropWhile isBlank).rtakeWhile isBlank = text.dropWhile isBlank :=
    List.rdropWhile_append_rtakeWhile
  refine ⟨text.takeWhile isBlank, (text.dropWhile isBlank).rtakeWhile isBlank, ?_, ?_, ?_, ?_⟩
  · rw [List.append_assoc, hrest, List.takeWhile_append_dropWhile]
  · intro c hc
    rcases List.mem_append.mp hc with hc | hc
    · exact isBlank_iff.mp (List.mem_takeWhile_imp hc)
    · exact isBlank_iff.mp (List.mem_rtakeWhile_imp hc)
  · intro c hc
    have hstops := List.head?_dropWhile_not isBlank text
    rw [← hrest, List.mem_head?_append_of_mem_head? hc] at hstops
    exact isBlank_eq_false_iff.mp (by simpa using hstops)
  · intro c hc
    have hstops := List.head?_dropWhile_not isBlank (text.dropWhile isBlank).reverse
    rw [trim, List.getLast?_reverse] at hc
    rw [Option.mem_def.mp hc] at hstops
    exact isBlank_eq_false_iff.mp (by simpa using hstops)

/-- A text that does not start with white space has no blanks in front. -/
theorem dropWhile_isBlank_eq_self (h : ∀ c ∈ text.head?, ¬ IsWhiteSpace c) :
    text.dropWhile isBlank = text := by
  cases text with
  | nil => rfl
  | cons c rest =>
    rw [List.dropWhile_cons_of_neg]
    rw [isBlank_iff]
    exact h c rfl

/-- What is left of a text is what `trim` gives. -/
theorem trimsTo_iff : TrimsTo text bare ↔ trim text = bare := by
  constructor
  · rintro ⟨before, behind, rfl, hwhite, hfirst, hlast⟩
    obtain ⟨hbefore, hbehind⟩ := List.forall_mem_append.mp hwhite
    have hblank {run : List Char} (hrun : ∀ c ∈ run, IsWhiteSpace c) :
        ∀ c ∈ run, isBlank c = true := fun c hc => isBlank_iff.mpr (hrun c hc)
    rw [trim, List.append_assoc, List.dropWhile_append_of_pos (hblank hbefore)]
    cases bare with
    | nil =>
      rw [List.nil_append, List.dropWhile_eq_nil_iff.mpr (hblank hbehind)]
      rfl
    | cons c bare =>
      have hreverse : ∀ c ∈ behind.reverse, IsWhiteSpace c := fun c hc =>
        hbehind c (List.mem_reverse.mp hc)
      have hfront : (c :: bare ++ behind).dropWhile isBlank = c :: bare ++ behind :=
        dropWhile_isBlank_eq_self hfirst
      rw [← List.head?_reverse] at hlast
      rw [hfront, List.reverse_append, List.dropWhile_append_of_pos (hblank hreverse),
        dropWhile_isBlank_eq_self hlast, List.reverse_reverse]
  · rintro rfl
    exact trimsTo_trim text

end WordMachine.Text
