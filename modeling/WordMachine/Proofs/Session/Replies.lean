import WordMachine.Proofs.Text.Decimal
import WordMachine.Session

/-!
# Replies

An error is announced by the word `error`, and nothing else is: no answer to a command that is
carried out reads like an error (`not_readsAsError_text`). What is seen of a session therefore tells
whether a line of text was carried out.
-/

namespace WordMachine

/-- The text starts as an error is announced. -/
def ReadsAsError (text : String) : Prop := "error: ".toList <+: text.toList

/-- What announces an error reads as one. -/
theorem readsAsError_error (message : String) : ReadsAsError s!"error: {message}" := by
  rw [ReadsAsError, String.toList_append]
  exact List.prefix_append _ _

/-- Within the announcement of an error the text has another character. -/
def Diverges (text : String) : Prop :=
  ∃ (index : Nat) (found wanted : Char), text.toList[index]? = some found ∧
    "error: ".toList[index]? = some wanted ∧ found ≠ wanted

/-- A text that goes another way does not read as an error. -/
theorem Diverges.not_readsAsError {text : String} (h : Diverges text) : ¬ ReadsAsError text := by
  obtain ⟨index, found, wanted, hfound, hwanted, hne⟩ := h
  intro hprefix
  obtain ⟨rest, hrest⟩ := hprefix
  have hindex := (List.getElem?_eq_some_iff.mp hwanted).1
  rw [← hrest, List.getElem?_append_left hindex, hwanted] at hfound
  exact hne (Option.some.inj hfound).symm

/-- What stands behind a text that goes another way makes no difference. -/
theorem Diverges.append {front : String} (h : Diverges front) (back : String) :
    Diverges (front ++ back) := by
  obtain ⟨index, found, wanted, hfound, hwanted, hne⟩ := h
  have hindex := (List.getElem?_eq_some_iff.mp hfound).1
  refine ⟨index, found, wanted, ?_, hwanted, hne⟩
  rw [String.toList_append, List.getElem?_append_left hindex, hfound]

/-- A text that goes another way in its first character. -/
theorem Diverges.of_head {text : String} {first : Char} {rest : List Char}
    (h : text.toList = first :: rest) (hne : first ≠ 'e') : Diverges text :=
  ⟨0, first, 'e', by rw [h]; rfl, rfl, hne⟩

/-- Items that are put together start as the first one does. -/
theorem Diverges.intercalate {separator first : String} (h : Diverges first) (rest : List String) :
    Diverges (String.intercalate separator (first :: rest)) := by
  cases rest with
  | nil =>
    rw [String.intercalate_singleton]
    exact h
  | cons second rest =>
    rw [String.intercalate_cons_cons]
    exact (h.append _).append _

/-! ## Stops -/

theorem Halt.diverges_message (halt : Halt) : Diverges halt.message := by
  cases halt with
  | instruction | emptyReturn | inputExhausted => exact .of_head rfl (by decide)

theorem Fault.diverges_message (fault : Fault) : Diverges fault.message := by
  cases fault with
  | programTooLarge | invalidWord | truncatedImage =>
    refine .append (.append ⟨1, 'n', 'r', ?_, ?_, ?_⟩ _) _ <;> decide
  | invalidOpcode word address =>
    exact .append (.append (.append (.append (.of_head rfl (by decide)) _) _) _) _
  | divisionByZero | stackUnderflow => exact .of_head rfl (by decide)
  | _ => exact .append (.append (.of_head rfl (by decide)) _) _

theorem Stop.diverges_message (stop : Stop) : Diverges stop.message := by
  cases stop with
  | stepped => exact .of_head rfl (by decide)
  | breakpoint | breakop | watch => exact .append (.of_head rfl (by decide)) _
  | halted halt => exact halt.diverges_message
  | faulted fault => exact fault.diverges_message

/-! ## Views -/

/-- A number in five columns starts with a blank or a digit. -/
theorem View.diverges_padded (number : Nat) : Diverges (padded number) := by
  have hlist : (padded number).toList =
      List.replicate (5 - (toString number).length) ' ' ++ number.repr.toList := by
    rw [padded, String.toList_append, String.toList_ofList]
    rfl
  rcases hfirst : (padded number).toList with _ | ⟨first, rest⟩
  · rw [hlist, List.append_eq_nil_iff] at hfirst
    exact absurd hfirst.2 (Text.Numeral.toList_repr_ne_nil number)
  · refine .of_head hfirst ?_
    have hmem : first ∈
        List.replicate (5 - (toString number).length) ' ' ++ number.repr.toList := by
      rw [← hlist, hfirst]
      exact List.mem_cons_self
    rintro rfl
    rcases List.mem_append.mp hmem with hblank | hdigit
    · exact absurd (List.eq_of_mem_replicate hblank) (by decide)
    · exact absurd (Text.Numeral.isDecimalDigit_of_mem_repr hdigit) (by decide)

theorem View.diverges_cellText (cell : Nat × Option Word) : Diverges (cellText cell) := by
  obtain ⟨address, _ | word⟩ := cell
  · exact .append (diverges_padded address) _
  · exact .append (.append (diverges_padded address) _) _

/-- A list of things to show may be empty. -/
theorem View.text_eq_empty_or_diverges (view : View) : view.text = "" ∨ Diverges view.text := by
  cases view with
  | registers file =>
    rw [text]
    cases registerValues file with
    | nil => exact .inl rfl
    | cons value values =>
      have hfirst : Diverges (registerText value 0) :=
        .append (.append (.append (.of_head rfl (by decide)) _) _) _
      exact .inr (hfirst.intercalate _)
  | memory cells =>
    cases cells with
    | nil => exact .inl rfl
    | cons cell cells => exact .inr ((diverges_cellText cell).intercalate _)
  | state counter file words =>
    refine .inr (.append (.append (.append (.append (.append ?_ _) _) _) _) _)
    exact .of_head rfl (by decide)
  | pc | stack | breakpoints | watchpoints | breakops | cycles =>
    exact .inr (.append (.of_head rfl (by decide)) _)

/-! ## Responses -/

/-- The name of a target goes another way than an error. -/
theorem Target.diverges_name (target : Target) : Diverges target.name := by
  cases target <;> exact .of_head rfl (by decide)

theorem Response.text_eq_empty_or_diverges (response : Response) :
    response.text = "" ∨ Diverges response.text := by
  cases response with
  | shown view => exact view.text_eq_empty_or_diverges
  | stopped stop pc cycles =>
    exact .inr (.append (.append (.append (.append (.append stop.diverges_message _) _) _) _) _)
  | set target => exact .inr (.append target.diverges_name _)
  | reset => exact .inr (.of_head rfl (by decide))
  | dumped paths => exact .inr (.append (.append (.append (.of_head rfl (by decide)) _) _) _)
  | restored | breakpoint | watching | breakingOn =>
    exact .inr (.append (.of_head rfl (by decide)) _)

/-- What answers a command that was carried out does not read as an error. -/
theorem Response.not_readsAsError_text (response : Response) : ¬ ReadsAsError response.text := by
  rcases response.text_eq_empty_or_diverges with hempty | hdiverges
  · rw [hempty, ReadsAsError]
    decide
  · exact hdiverges.not_readsAsError

end WordMachine
