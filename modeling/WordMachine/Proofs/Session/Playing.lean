import Mathlib.Data.List.Forall2
import WordMachine.Proofs.Session.Series
import WordMachine.Proofs.Text.Cutting
import WordMachine.Proofs.Text.Trimming
import WordMachine.Session.Script

/-!
# Playing a script

A script is played by dispatching the texts of its lines one after the other, up to the first one
that ends the session. `play_eq_dispatchAll` says what this leaves behind, what it prints, and where
in the script it stops; `playOnto_append` is the part about the lines that do not end the session.
-/

namespace WordMachine

namespace ScriptLine

/-! ## One line -/

/-- The text of a line, without the white space around it. -/
def HasText (line : List Char) (text : String) : Prop := Text.TrimsTo line text.toList

/-- The text ends the session. -/
def Leaves (text : String) : Prop := text = "quit" ∨ text = "exit"

instance (text : String) : Decidable (Leaves text) :=
  inferInstanceAs (Decidable (text = "quit" ∨ text = "exit"))

variable {line : List Char} {text : String}

theorem hasText_iff : HasText line text ↔ String.ofList (Text.trim line) = text := by
  rw [HasText, Text.trimsTo_iff, ← String.toList_inj, String.toList_ofList]

/-- What a line is, by its text. -/
theorem HasText.ofText_eq (h : HasText line text) :
    ofText line = if text = "" then .blank else if Leaves text then .leave else .command text := by
  obtain rfl := hasText_iff.mp h
  by_cases hleaves : Leaves (String.ofList (Text.trim line))
  · rw [if_pos hleaves]
    rw [Leaves] at hleaves
    simp [ofText, hleaves]
  · rw [if_neg hleaves]
    rw [Leaves] at hleaves
    simp [ofText, hleaves]

/-- A line whose text ends the session is no blank line. -/
theorem HasText.ofText_of_leaves (h : HasText line text) (hleaves : Leaves text) :
    ofText line = .leave := by
  have hne : text ≠ "" := by rcases hleaves with rfl | rfl <;> decide
  rw [h.ofText_eq, if_neg hne, if_pos hleaves]

end ScriptLine

namespace Session

open ScriptLine

/-! ## What is printed -/

/-- What is printed for lines with these texts: a prompt for each line, and behind the prompt, unless
the line is blank, the next of the replies and a newline. -/
def echo : List String → List String → String
  | [], _ => ""
  | text :: texts, replies =>
    if text = "" then "> " ++ echo texts replies
    else "> " ++ replies.headD "" ++ "\n" ++ echo texts replies.tail

variable {lines rest : List (List Char)} {texts : List String}

/-! ## The two parts of a script -/

/-- Lines that do not end the session are dispatched, and the script goes on behind them. -/
theorem playOnto_append (htexts : List.Forall₂ HasText lines texts)
    (hstays : ∀ text ∈ texts, ¬ Leaves text) (printed : String) (session : Session) (budget : Nat) :
    playOnto printed session budget (lines ++ rest) =
      (session.dispatchAll budget (texts.filter (· ≠ ""))).bind fun (replies, after) =>
        playOnto (printed ++ echo texts replies) after budget rest := by
  induction htexts generalizing printed session with
  | nil => simp [dispatchAll, inTurn, echo]
  | @cons line text lines texts hline htexts ih =>
    obtain ⟨htext, hstays⟩ := List.forall_mem_cons.mp hstays
    rw [List.cons_append, playOnto, hline.ofText_eq]
    by_cases hblank : text = ""
    · rw [if_pos hblank, List.filter_cons_of_neg (by simp [hblank])]
      simp only [echo, if_pos hblank, prompt, ← String.append_assoc]
      exact ih hstays _ _
    · rw [if_neg hblank, if_neg htext, List.filter_cons_of_pos (by simp [hblank]), dispatchAll, inTurn]
      simp only [echo, if_neg hblank, prompt]
      cases session.dispatch budget text with
      | none => rfl
      | some answered =>
        obtain ⟨reply, after⟩ := answered
        simp only [ih hstays, Option.bind_map, ← String.append_assoc]
        rfl

/-- The first line that ends the session is the last one that is read, and the end of the script
ends the session too. -/
theorem playOnto_of_leaves (hleaves : ∀ line ∈ rest.head?, ∃ text, HasText line text ∧ Leaves text)
    (printed : String) (session : Session) (budget : Nat) :
    playOnto printed session budget rest =
      some (⟨printed ++ "> " ++ (if rest = [] then "\n" else ""), rest.tail⟩, session) := by
  cases rest with
  | nil => rfl
  | cons line rest =>
    obtain ⟨text, htext, hleave⟩ := hleaves line rfl
    simp [playOnto, htext.ofText_of_leaves hleave, prompt]

/-- Lines can be split in front of the first one that ends the session. -/
theorem exists_append_of_leaves (all : List (List Char)) :
    ∃ lines rest texts, all = lines ++ rest ∧ List.Forall₂ HasText lines texts ∧
      (∀ text ∈ texts, ¬ Leaves text) ∧
      ∀ line ∈ rest.head?, ∃ text, HasText line text ∧ Leaves text := by
  induction all with
  | nil => exact ⟨[], [], [], rfl, .nil, nofun, nofun⟩
  | cons line all ih =>
    have hline : HasText line (String.ofList (Text.trim line)) := hasText_iff.mpr rfl
    by_cases hleaves : Leaves (String.ofList (Text.trim line))
    · refine ⟨[], line :: all, [], rfl, .nil, nofun, ?_⟩
      rintro _ ⟨⟩
      exact ⟨_, hline, hleaves⟩
    · obtain ⟨lines, rest, texts, rfl, htexts, hstays, hrest⟩ := ih
      exact ⟨line :: lines, rest, _ :: texts, rfl, .cons hline htexts,
        List.forall_mem_cons.mpr ⟨hleaves, hstays⟩, hrest⟩

/-! ## Whole scripts -/

/-- Playing a script is dispatching. The script falls into lines whose texts do not end the session,
and the rest, which is empty or starts with a line whose text does. Of the former texts those that
are not empty are dispatched one after the other, and the session is then the one that playing the
script leaves. Each of them is answered by its reply. The line that ends the session is asked for
with a prompt but not answered, and what is behind it is not read; at the end of the script the
prompt is followed by a newline. -/
theorem play_eq_dispatchAll (script : String) :
    ∃ lines rest texts, Text.FallsInto script.toList (lines ++ rest) ∧
      List.Forall₂ HasText lines texts ∧ (∀ text ∈ texts, ¬ Leaves text) ∧
      (∀ line ∈ rest.head?, ∃ text, HasText line text ∧ Leaves text) ∧
      ∀ session budget, play session budget script =
        (session.dispatchAll budget (texts.filter (· ≠ ""))).map fun (replies, after) =>
          (⟨echo texts replies ++ "> " ++ (if rest = [] then "\n" else ""), rest.tail⟩, after) := by
  obtain ⟨lines, rest, texts, hcut, htexts, hstays, hleaves⟩ :=
    exists_append_of_leaves (Text.lines script.toList)
  refine ⟨lines, rest, texts, Text.fallsInto_iff.mpr hcut, htexts, hstays, hleaves, ?_⟩
  intro session budget
  rw [play, hcut, playOnto_append htexts hstays]
  simp only [playOnto_of_leaves hleaves, String.empty_append]
  cases session.dispatchAll budget (texts.filter (· ≠ "")) <;> rfl

end Session

end WordMachine
