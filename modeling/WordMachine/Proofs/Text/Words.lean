import Mathlib.Data.List.TakeWhile
import WordMachine.Text.Blank

/-!
# Words with blanks around them

`Spaced` says which words a text has without saying how they are found: the text is the words one
after the other, with blanks between them and perhaps at its two ends. Every text is so in exactly
one way, which `words` finds (`spaced_iff`), and all that can be a word can stand in a text with
any other words (`spaced_intercalate`).
-/

namespace WordMachine.Text

/-! ## Runs of characters or bytes -/

section Runs

variable {α : Type} {p : α → Bool} {front tail : List α}

/-- A run ends where a text starts that it does not go on in. -/
theorem takeWhile_dropWhile_append (h : ∀ c ∈ tail.head?, p c = false) (front : List α) :
    (front ++ tail).takeWhile p = front.takeWhile p ∧
      (front ++ tail).dropWhile p = front.dropWhile p ++ tail := by
  induction front with
  | nil =>
    cases tail with
    | nil => exact ⟨rfl, rfl⟩
    | cons c tail => simp [h c rfl]
  | cons c front ih =>
    by_cases hc : p c = true
    · simpa [hc] using ih
    · simp [hc]

/-- A text that belongs to a run is the whole of it where the run does not go on behind the text. -/
theorem takeWhile_dropWhile_of_forall (hfront : ∀ c ∈ front, p c = true)
    (htail : ∀ c ∈ tail.head?, p c = false) :
    (front ++ tail).takeWhile p = front ∧ (front ++ tail).dropWhile p = tail := by
  obtain ⟨htake, hdrop⟩ := takeWhile_dropWhile_append htail front
  rw [htake, hdrop, List.takeWhile_eq_self_iff.mpr hfront, List.dropWhile_eq_nil_iff.mpr hfront]
  exact ⟨rfl, rfl⟩

end Runs

/-! ## Words -/

/-- The characters can be a word: there are some, and none of them is a blank. -/
def IsWord (word : List Char) : Prop := word ≠ [] ∧ ∀ c ∈ word, isBlank c = false

instance : DecidablePred IsWord := fun word =>
  decidable_of_iff (word.isEmpty = false ∧ word.all (fun c => !isBlank c) = true) <| by
    simp [IsWord]

/-- The text consists of the words. Any number of blanks may stand around them, and there is one
between two words at least. -/
inductive Spaced : List Char → List (List Char) → Prop where
  | blanks {gap : List Char} (hgap : ∀ c ∈ gap, isBlank c = true) : Spaced gap []
  | word {gap word rest : List Char} {words : List (List Char)}
      (hgap : ∀ c ∈ gap, isBlank c = true) (hword : IsWord word)
      (hend : ∀ c ∈ rest.head?, isBlank c = true) (hrest : Spaced rest words) :
      Spaced (gap ++ (word ++ rest)) (word :: words)

theorem isSolid_of_isWord {word : List Char} (h : IsWord word) : ∀ c ∈ word, isSolid c = true :=
  fun c hc => by rw [isSolid, h.2 c hc, Bool.not_false]

/-! ## Finding words -/

/-- Blanks are no words. -/
theorem words_of_blanks {gap : List Char} (hgap : ∀ c ∈ gap, isBlank c = true) : words gap = [] := by
  have hnothing : gap.dropWhile isBlank = [] := List.dropWhile_eq_nil_iff.mpr hgap
  rw [words]
  split
  · rfl
  · next hfound => rw [hnothing] at hfound; cases hfound

/-- The first word is found behind the blanks in front of it, and the others behind it. -/
theorem words_of_word {gap word rest : List Char} (hgap : ∀ c ∈ gap, isBlank c = true)
    (hword : IsWord word) (hend : ∀ c ∈ rest.head?, isBlank c = true) :
    words (gap ++ (word ++ rest)) = word :: words rest := by
  have hsolid := isSolid_of_isWord hword
  obtain ⟨c, word, rfl⟩ := List.exists_cons_of_ne_nil hword.1
  have hc : isBlank c = false := hword.2 c List.mem_cons_self
  have htail : ∀ d ∈ word, isSolid d = true := (List.forall_mem_cons.mp hsolid).2
  have hstop : ∀ d ∈ rest.head?, isSolid d = false :=
    fun d hd => by rw [isSolid, hend d hd, Bool.not_true]
  obtain ⟨htake, hbehind⟩ := takeWhile_dropWhile_of_forall htail hstop
  have hdrop : (gap ++ (c :: word ++ rest)).dropWhile isBlank = c :: (word ++ rest) := by
    rw [List.dropWhile_append_of_pos hgap, List.cons_append, List.dropWhile_cons_of_neg]
    rw [hc]
    exact Bool.false_ne_true
  rw [words]
  split
  · next hfound => rw [hdrop] at hfound; cases hfound
  · next first behind hfound =>
    rw [hdrop] at hfound
    obtain ⟨rfl, rfl⟩ := List.cons.inj hfound
    rw [htake, hbehind]

/-- A text consists of the words that are found in it. -/
theorem spaced_words (text : List Char) : Spaced text (words text) := by
  fun_induction words text with
  | case1 text hnone => exact .blanks (List.dropWhile_eq_nil_iff.mp hnone)
  | case2 text c rest hfound ih =>
    have hhead := List.head?_dropWhile_not isBlank text
    rw [hfound] at hhead
    have hc : isBlank c = false := by simpa using hhead
    have hword : IsWord (c :: rest.takeWhile isSolid) := by
      refine ⟨List.cons_ne_nil _ _, List.forall_mem_cons.mpr ⟨hc, fun d hd => ?_⟩⟩
      simpa [isSolid] using List.mem_takeWhile_imp hd
    have hend : ∀ d ∈ (rest.dropWhile isSolid).head?, isBlank d = true := by
      intro d hd
      have hstop := List.head?_dropWhile_not isSolid rest
      rw [Option.mem_def.mp hd] at hstop
      simpa [isSolid] using hstop
    have htext : text.takeWhile isBlank ++
        (c :: rest.takeWhile isSolid ++ rest.dropWhile isSolid) = text := by
      rw [List.cons_append, List.takeWhile_append_dropWhile, ← hfound,
        List.takeWhile_append_dropWhile]
    have hgap : ∀ d ∈ text.takeWhile isBlank, isBlank d = true := fun d => List.mem_takeWhile_imp
    have hspaced := Spaced.word hgap hword hend ih
    rwa [htext] at hspaced

/-- A text consists of the words that are found in it, and of no others. -/
theorem spaced_iff {text : List Char} {found : List (List Char)} :
    Spaced text found ↔ words text = found := by
  constructor
  · intro h
    induction h with
    | blanks hgap => exact words_of_blanks hgap
    | word hgap hword hend hrest ih => rw [words_of_word hgap hword hend, ih]
  · rintro rfl
    exact spaced_words text

/-- Only words are found. -/
theorem isWord_of_spaced {text : List Char} {found : List (List Char)} (h : Spaced text found) :
    ∀ word ∈ found, IsWord word := by
  induction h with
  | blanks => exact nofun
  | word hgap hword hend hrest ih => exact List.forall_mem_cons.mpr ⟨hword, ih⟩

/-! ## Writing words -/

/-- One more blank in front makes no difference. -/
theorem Spaced.blank {c : Char} {text : List Char} {found : List (List Char)}
    (hc : isBlank c = true) (h : Spaced text found) : Spaced (c :: text) found := by
  cases h with
  | blanks hgap => exact .blanks (List.forall_mem_cons.mpr ⟨hc, hgap⟩)
  | word hgap hword hend hrest =>
    exact .word (List.forall_mem_cons.mpr ⟨hc, hgap⟩) hword hend hrest

/-- A word can stand at the start of a text. -/
theorem Spaced.cons {word rest : List Char} {found : List (List Char)} (hword : IsWord word)
    (hend : ∀ c ∈ rest.head?, isBlank c = true) (h : Spaced rest found) :
    Spaced (word ++ rest) (word :: found) := by
  have hgap : ∀ c ∈ ([] : List Char), isBlank c = true := nofun
  exact .word hgap hword hend h

/-- Words with single blanks between them are a text that consists of them. -/
theorem spaced_intercalate {found : List (List Char)} (h : ∀ word ∈ found, IsWord word) :
    Spaced ([' '].intercalate found) found := by
  induction found with
  | nil => exact .blanks nofun
  | cons word rest ih =>
    obtain ⟨hword, hrest⟩ := List.forall_mem_cons.mp h
    cases rest with
    | nil =>
      have hlast : Spaced (word ++ []) [word] := .cons hword nofun (.blanks nofun)
      rw [List.intercalate_singleton]
      rwa [List.append_nil] at hlast
    | cons second rest =>
      rw [List.intercalate_cons_cons, List.append_assoc]
      exact .cons hword (by simp; decide) ((ih hrest).blank (by decide))

end WordMachine.Text
