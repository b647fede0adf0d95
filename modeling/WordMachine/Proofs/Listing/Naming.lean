import WordMachine.Listing
import WordMachine.Proofs.Assembly.Resolution

/-!
# Names of labels

The name of a label is fit to be defined in assembly text (`isName_name`, `spelling_name`), and
differs from the names of all other labels and from all mnemonics (`name_inj`, `name_ne_mnemonic`).
-/

namespace WordMachine

namespace Label

/-! ## Names as text -/

/-- What a name starts with. -/
def stem : Label → List Char
  | .jump _ => ['l', 'a', 'b', 'e', 'l']
  | .call _ => ['s', 'u', 'b']

/-- The number that a name ends in. -/
def number : Label → Nat
  | .jump number => number
  | .call number => number

theorem stem_eq (label : Label) :
    label.stem = ['l', 'a', 'b', 'e', 'l'] ∨ label.stem = ['s', 'u', 'b'] := by
  cases label with
  | jump n => exact .inl rfl
  | call n => exact .inr rfl

/-- The characters of a name are those of its stem and the digits of its number. -/
theorem toList_name (label : Label) :
    label.name.toList = label.stem ++ Nat.toDigits 10 label.number := by
  rw [← Nat.toList_repr]
  cases label with
  | jump n => exact String.toList_append
  | call n => exact String.toList_append

theorem toList_name_ne_nil (label : Label) : label.name.toList ≠ [] := by
  rw [toList_name]
  rcases label.stem_eq with hstem | hstem <;> simp [hstem]

/-- A name has letters and digits only. -/
theorem isAlphanum_of_mem_name {label : Label} {c : Char} (hc : c ∈ label.name.toList) :
    c.isAlphanum = true := by
  rw [toList_name, List.mem_append] at hc
  rcases hc with hletter | hdigit
  · have hall : label.stem.all Char.isAlphanum = true := by
      rcases label.stem_eq with hstem | hstem
      · rw [hstem]
        rfl
      · rw [hstem]
        rfl
    exact List.all_eq_true.mp hall c hletter
  · rw [← Nat.toList_repr] at hdigit
    exact Text.Numeral.isAlphanum_of_mem_repr hdigit

/-- A name can be defined. -/
theorem isName_name (label : Label) : Assembly.isName label.name = true := by
  rw [Assembly.isName, Bool.and_eq_true]
  constructor
  · rw [Bool.not_eq_true', ← Bool.not_eq_true, String.isEmpty_iff]
    intro hempty
    exact label.toList_name_ne_nil (by rw [hempty]; rfl)
  · refine List.all_eq_true.mpr fun c hc => ?_
    rw [isAlphanum_of_mem_name hc, Bool.true_or]

/-- A name is read as a name. -/
theorem spelling_name (label : Label) : Assembly.Spelling.ofText label.name = .name := by
  have htext := String.ofList_toList (s := label.name)
  rw [← htext, toList_name]
  rcases label.stem_eq with hstem | hstem
  · rw [hstem, List.cons_append]
    exact Assembly.Spelling.ofText_of_head (by decide) (by decide)
  · rw [hstem, List.cons_append]
    exact Assembly.Spelling.ofText_of_head (by decide) (by decide)

/-- No two labels have the same name. -/
theorem name_inj {label other : Label} (h : label.name = other.name) : label = other := by
  have hlist := congrArg String.toList h
  rw [toList_name, toList_name] at hlist
  have hnumber (hstem : label.stem = other.stem) : label.number = other.number := by
    rw [hstem, List.append_cancel_left_eq, ← Nat.toList_repr, ← Nat.toList_repr] at hlist
    exact Text.Numeral.repr_inj (String.toList_inj.mp hlist)
  -- Different stems differ in their first letter.
  have hhead := congrArg List.head? hlist
  cases label with
  | jump m =>
    cases other with
    | jump n => exact congrArg jump (hnumber rfl)
    | call n => simp [stem] at hhead
  | call m =>
    cases other with
    | jump n => simp [stem] at hhead
    | call n => exact congrArg call (hnumber rfl)

/-- No label has the name of an opcode. -/
theorem name_ne_mnemonic (label : Label) (opcode : Opcode) : label.name ≠ opcode.mnemonic := by
  intro h
  have hletters : opcode.mnemonic.toList.take 2 ∉ [['l', 'a'], ['s', 'u']] := by
    cases opcode <;> decide
  rw [← h, toList_name] at hletters
  rcases label.stem_eq with hstem | hstem <;> simp [hstem] at hletters

end Label

end WordMachine
