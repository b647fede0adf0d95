/-!
# Blanks

The characters that separate words: those with the Unicode property `White_Space`. Lines are taken
apart at them by `words`, and `trim` removes them at both ends.
-/

namespace WordMachine.Text

/-- The characters with the Unicode property `White_Space`, as ranges of code points. -/
def blankRanges : List (Nat × Nat) :=
  [(0x09, 0x0d), (0x20, 0x20), (0x85, 0x85), (0xa0, 0xa0), (0x1680, 0x1680), (0x2000, 0x200a),
    (0x2028, 0x2029), (0x202f, 0x202f), (0x205f, 0x205f), (0x3000, 0x3000)]

/-- The character separates words. -/
def isBlank (c : Char) : Bool :=
  blankRanges.any fun (first, last) => first ≤ c.toNat && c.toNat ≤ last

/-- The character belongs to a word. -/
def isSolid (c : Char) : Bool := !isBlank c

/-- The words of a text: its longest runs of characters that are not blank. -/
def words (text : List Char) : List (List Char) :=
  match _found : text.dropWhile isBlank with
  | [] => []
  | c :: rest => (c :: rest.takeWhile isSolid) :: words (rest.dropWhile isSolid)
  termination_by text.length
  decreasing_by
    have shorter := (List.dropWhile_sublist isBlank (l := text)).length_le
    have shorter' := (List.dropWhile_sublist isSolid (l := rest)).length_le
    rw [_found, List.length_cons] at shorter
    omega

/-- A text without the blanks at its two ends. -/
def trim (text : List Char) : List Char :=
  ((text.dropWhile isBlank).reverse.dropWhile isBlank).reverse

end WordMachine.Text
