/-!
# Lines

A text cut behind each newline. The last line may lack its newline, and no line is empty, so that
the lines put together again are the text (`flatten_lines`).
-/

namespace WordMachine.Text

/-- Cuts a text into lines, in front of the lines already cut, the last line first. The line being
cut is given by its characters so far, the last character first. -/
def linesOnto (cut : List (List Char)) (current : List Char) : List Char → List (List Char)
  | [] => if current.isEmpty then cut else current.reverse :: cut
  | c :: rest =>
    if c = '\n' then linesOnto ((c :: current).reverse :: cut) [] rest
    else linesOnto cut (c :: current) rest

/-- The lines of a text, each with its newline. -/
def lines (text : List Char) : List (List Char) := (linesOnto [] [] text).reverse

theorem flatten_reverse_linesOnto (cut : List (List Char)) (current text : List Char) :
    (linesOnto cut current text).reverse.flatten = cut.reverse.flatten ++ current.reverse ++ text := by
  fun_induction linesOnto cut current text <;> simp_all

/-- Put together again, the lines are the text. -/
theorem flatten_lines (text : List Char) : (lines text).flatten = text := by
  simp [lines, flatten_reverse_linesOnto]

end WordMachine.Text
