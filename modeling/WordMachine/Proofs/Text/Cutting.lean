import WordMachine.Text.Lines

/-!
# Cutting a text into lines

`FallsInto` says what the lines of a text are without saying how they are found. There is one way
to cut a text, and `lines` finds it (`fallsInto_iff`). A text that is put together from lines falls
into these lines (`lines_flatMap`).
-/

namespace WordMachine.Text

/-- The text consists of the lines. Each ends with the first newline in it, and only the last one
may lack its newline; there are no empty lines, not even at the end. -/
inductive FallsInto : List Char → List (List Char) → Prop where
  | nil : FallsInto [] []
  | last {line : List Char} (hline : '\n' ∉ line) (hne : line ≠ []) : FallsInto line [line]
  | cons {line rest : List Char} {lines : List (List Char)} (hline : '\n' ∉ line)
      (hrest : FallsInto rest lines) :
      FallsInto (line ++ '\n' :: rest) ((line ++ ['\n']) :: lines)

/-- Lines that are cut already stay in front. -/
theorem linesOnto_eq_append (cut : List (List Char)) (current text : List Char) :
    linesOnto cut current text = linesOnto [] current text ++ cut := by
  induction text generalizing cut current with
  | nil =>
    unfold linesOnto
    split <;> rfl
  | cons c rest ih =>
    unfold linesOnto
    split
    · rw [ih, ih [_], List.append_assoc]
      rfl
    · exact ih _ _

/-- A newline ends the line that is being cut. -/
theorem reverse_linesOnto_newline (current rest : List Char) :
    (linesOnto [] current ('\n' :: rest)).reverse = (current.reverse ++ ['\n']) :: lines rest := by
  rw [linesOnto, if_pos rfl, linesOnto_eq_append, List.reverse_append, List.reverse_singleton,
    List.reverse_cons]
  rfl

/-- Any other character goes onto the line that is being cut. -/
theorem linesOnto_of_notMem {front : List Char} (hfront : '\n' ∉ front) (cut : List (List Char))
    (current rest : List Char) :
    linesOnto cut current (front ++ rest) = linesOnto cut (front.reverse ++ current) rest := by
  induction front generalizing current with
  | nil => rfl
  | cons c front ih =>
    have hc : c ≠ '\n' := (List.ne_of_not_mem_cons hfront).symm
    rw [List.cons_append, linesOnto, if_neg hc, ih (List.not_mem_of_not_mem_cons hfront),
      List.reverse_cons, List.append_assoc]
    rfl

/-- The text falls into what is cut off, with the line that is being cut in front of it. -/
theorem fallsInto_reverse_linesOnto (text : List Char) {current : List Char}
    (hcurrent : '\n' ∉ current) :
    FallsInto (current.reverse ++ text) (linesOnto [] current text).reverse := by
  induction text generalizing current with
  | nil =>
    cases current with
    | nil => exact .nil
    | cons c current =>
      rw [List.append_nil]
      exact .last (by rwa [List.mem_reverse]) (by simp)
  | cons c rest ih =>
    by_cases hc : c = '\n'
    · subst hc
      rw [reverse_linesOnto_newline]
      exact .cons (by rwa [List.mem_reverse]) (ih List.not_mem_nil)
    · rw [linesOnto, if_neg hc, List.append_cons, ← List.reverse_cons]
      exact ih (List.not_mem_cons_of_ne_of_not_mem (Ne.symm hc) hcurrent)

/-- A text falls into its lines, and into nothing else. -/
theorem fallsInto_iff {text : List Char} {cut : List (List Char)} :
    FallsInto text cut ↔ lines text = cut := by
  constructor
  · intro h
    induction h with
    | nil => rfl
    | @last line hline hne =>
      have hcut := linesOnto_of_notMem hline [] [] []
      simp_all [lines, linesOnto]
    | @cons line rest cut hline hrest ih =>
      rw [lines, linesOnto_of_notMem hline, List.append_nil, reverse_linesOnto_newline,
        List.reverse_reverse, ih]
  · rintro rfl
    exact fallsInto_reverse_linesOnto text List.not_mem_nil

/-- Lines without newlines, each with one behind it, are the lines of the text that they make. -/
theorem lines_flatMap {cut : List (List Char)} (h : ∀ line ∈ cut, '\n' ∉ line) :
    lines (cut.flatMap (· ++ ['\n'])) = cut.map (· ++ ['\n']) := by
  rw [← fallsInto_iff]
  induction cut with
  | nil => exact .nil
  | cons line cut ih =>
    rw [List.flatMap_cons, List.append_assoc, List.singleton_append, List.map_cons]
    obtain ⟨hline, hcut⟩ := List.forall_mem_cons.mp h
    exact .cons hline (ih hcut)

end WordMachine.Text
