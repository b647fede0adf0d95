import Mathlib.Data.List.Chain
import WordMachine.Listing
import WordMachine.Proofs.Instruction.Fetching

/-!
# Lines tile the words

Cutting words into lines loses nothing and invents nothing: `tiles_sweep` says that each line
starts where the line in front of it ends, that the lines put together are the words, and that a
line holds an instruction only if the instruction is well formed. Everything else about addresses
of lines is a fact about tilings.
-/

namespace WordMachine

namespace Line

/-! ## One line -/

/-- A line is as wide as the words on it. -/
@[simp] theorem length_toWords (line : Line) : line.toWords.length = line.width := by
  obtain ⟨address, content⟩ := line
  cases content with
  | data word => rfl
  | instruction instruction => simp [toWords, width, tailWidth, Instruction.toWords]

theorem width_pos (line : Line) : 0 < line.width := Nat.succ_pos _

/-- The instruction on a line is the one that the words start with, if it is well formed. -/
theorem instructionAt?_eq_some_iff {address : Nat} {words : List Word} {instruction : Instruction} :
    instructionAt? address words = some instruction ↔
      Instruction.ofWords address words = .ok instruction ∧ instruction.isWellFormed = true := by
  unfold instructionAt?
  cases Instruction.ofWords address words with
  | error fault => simp
  | ok found =>
    simp only [Option.ite_none_right_eq_some, Option.some.injEq, Except.ok.injEq]
    constructor
    · rintro ⟨hsound, rfl⟩
      exact ⟨rfl, hsound⟩
    · rintro ⟨rfl, hsound⟩
      exact ⟨hsound, rfl⟩

/-- The line makes sense where it stands: an instruction on it is well formed. -/
def IsSound (line : Line) : Prop :=
  ∀ instruction, line.content = .instruction instruction → instruction.isWellFormed = true

@[simp] theorem address_ofWords (address : Nat) (word : Word) (rest : List Word) :
    (ofWords address word rest).address = address := by
  unfold ofWords
  split <;> rfl

/-- A line that is cut off makes sense. -/
theorem isSound_ofWords (address : Nat) (word : Word) (rest : List Word) :
    (ofWords address word rest).IsSound := by
  intro instruction hcontent
  unfold ofWords at hcontent
  cases hfound : instructionAt? address (word :: rest) with
  | none => simp [hfound] at hcontent
  | some found =>
    simp only [hfound, Content.instruction.injEq] at hcontent
    subst hcontent
    exact (instructionAt?_eq_some_iff.mp hfound).2

/-- A line that is cut off holds the words it was cut off from, and no more. -/
theorem toWords_ofWords_append (address : Nat) (word : Word) (rest : List Word) :
    (ofWords address word rest).toWords ++ rest.drop (ofWords address word rest).tailWidth =
      word :: rest := by
  unfold ofWords
  cases hfound : instructionAt? address (word :: rest) with
  | none => rfl
  | some found =>
    have hread := (instructionAt?_eq_some_iff.mp hfound).1
    obtain ⟨back, hback⟩ := Instruction.append_of_ofWords_eq_ok hread
    obtain ⟨rfl, rfl⟩ := List.cons.inj hback
    simp [toWords, tailWidth, Instruction.toWords]

/-! ## Tilings -/

/-- The lines tile the words that lie at an address: each line starts where the one in front of it
ends, and the lines put together are the words. -/
inductive Tiles : Nat → List Line → List Word → Prop where
  | nil (address : Nat) : Tiles address [] []
  | cons {line : Line} {lines : List Line} {words : List Word} (hsound : line.IsSound)
      (htiles : Tiles (line.address + line.width) lines words) :
      Tiles line.address (line :: lines) (line.toWords ++ words)

theorem sweepOnto_append (cut cut' : List Line) (address : Nat) (words : List Word) :
    sweepOnto (cut ++ cut') address words = sweepOnto cut address words ++ cut' := by
  fun_induction sweepOnto cut address words with
  | case1 cut address => rw [sweepOnto]
  | case2 cut address word rest line ih =>
    rw [sweepOnto]
    exact ih

@[simp] theorem sweep_nil (address : Nat) : sweep address [] = [] := by
  simp [sweep, sweepOnto]

/-- The first line is cut off, and the words behind it are cut from its end on. -/
theorem sweep_cons (address : Nat) (word : Word) (rest : List Word) :
    sweep address (word :: rest) =
      ofWords address word rest ::
        sweep (address + (ofWords address word rest).width)
          (rest.drop (ofWords address word rest).tailWidth) := by
  rw [sweep, sweepOnto]
  have happend := sweepOnto_append [] [ofWords address word rest]
  rw [List.nil_append] at happend
  rw [happend, List.reverse_append]
  rfl

/-- Cutting words into lines tiles them. -/
theorem tiles_sweep (address : Nat) (words : List Word) :
    Tiles address (sweep address words) words := by
  induction hlength : words.length using Nat.strongRecOn generalizing address words with
  | ind n ih =>
    subst hlength
    cases words with
    | nil =>
      rw [sweep_nil]
      exact .nil address
    | cons word rest =>
      have hshorter : (rest.drop (ofWords address word rest).tailWidth).length <
          (word :: rest).length := by
        simp only [List.length_drop, List.length_cons]
        omega
      have htiles := Tiles.cons (isSound_ofWords address word rest)
        (ih _ hshorter ((ofWords address word rest).address + (ofWords address word rest).width) _
          rfl)
      rwa [toWords_ofWords_append, address_ofWords, ← sweep_cons] at htiles

namespace Tiles

variable {address : Nat} {lines : List Line} {words : List Word}

/-- Put together, the lines are the words. -/
theorem flatMap_toWords (h : Tiles address lines words) : lines.flatMap toWords = words := by
  induction h with
  | nil => rfl
  | cons hsound htiles ih => rw [List.flatMap_cons, ih]

/-- Every line makes sense. -/
theorem isSound (h : Tiles address lines words) : ∀ line ∈ lines, line.IsSound := by
  induction h with
  | nil => exact fun line hline => absurd hline List.not_mem_nil
  | cons hsound htiles ih => exact List.forall_mem_cons.mpr ⟨hsound, ih⟩

/-- A line starts behind the words of the lines in front of it. -/
theorem address_eq {line : Line} {front back : List Line}
    (h : Tiles address (front ++ line :: back) words) :
    line.address = address + (front.flatMap toWords).length := by
  induction front generalizing address words with
  | nil => cases h with | cons hsound htiles => rfl
  | cons first front ih =>
    cases h with
    | cons hsound htiles =>
      rw [ih htiles, List.flatMap_cons, List.length_append, length_toWords]
      omega

/-- Lines start at or behind the first word and in front of the last. -/
theorem address_mem (h : Tiles address lines words) :
    ∀ line ∈ lines, address ≤ line.address ∧ line.address < address + words.length := by
  induction h with
  | nil => exact fun line hline => absurd hline List.not_mem_nil
  | @cons first lines words hsound htiles ih =>
    have hpos := first.width_pos
    rw [List.length_append, length_toWords]
    refine List.forall_mem_cons.mpr ⟨by omega, fun line hline => ?_⟩
    have hline := ih line hline
    omega

/-- No two lines start at the same address. -/
theorem pairwise_address (h : Tiles address lines words) :
    (lines.map Line.address).Pairwise (· < ·) := by
  induction h with
  | nil => exact .nil
  | @cons first lines words hsound htiles ih =>
    refine List.pairwise_cons.mpr ⟨?_, ih⟩
    intro start hstart
    obtain ⟨line, hline, rfl⟩ := List.mem_map.mp hstart
    have hpos := first.width_pos
    have hbehind := (htiles.address_mem line hline).1
    omega

/-- The lines that start in front of a line are those that stand in front of it. -/
theorem filter_address_lt {line : Line} {front back : List Line}
    (h : Tiles address (front ++ line :: back) words) :
    (front ++ line :: back).filter (·.address < line.address) = front := by
  have hordered := h.pairwise_address
  rw [List.map_append, List.map_cons, List.pairwise_append, List.pairwise_cons] at hordered
  obtain ⟨-, ⟨hback, -⟩, hfront⟩ := hordered
  have hbefore : ∀ other ∈ front, other.address < line.address := fun other hother =>
    hfront _ (List.mem_map_of_mem hother) _ List.mem_cons_self
  have hbehind : ∀ other ∈ line :: back, ¬ other.address < line.address := by
    refine List.forall_mem_cons.mpr ⟨Nat.lt_irrefl _, fun other hother => ?_⟩
    exact Nat.not_lt_of_lt (hback _ (List.mem_map_of_mem hother))
  rw [List.filter_append, List.filter_eq_self.mpr (by simpa using hbefore),
    List.filter_eq_nil_iff.mpr (by simpa using hbehind), List.append_nil]

/-- The first line starts at the first word. -/
theorem head_address (h : Tiles address lines words) :
    ∀ line ∈ lines.head?, line.address = address := by
  cases h with
  | nil => exact fun line hline => absurd hline (Option.not_mem_none line)
  | cons hsound htiles =>
    intro line hline
    rw [← Option.some.inj hline]

/-- Each line starts where the one in front of it ends. -/
theorem isChain_address (h : Tiles address lines words) :
    lines.IsChain fun line next => next.address = line.address + line.width := by
  induction h with
  | nil => exact .nil
  | cons hsound htiles ih => exact List.isChain_cons.mpr ⟨htiles.head_address, ih⟩

/-- The last line ends behind the last word. -/
theorem getLast_end (h : Tiles address lines words) :
    ∀ line ∈ lines.getLast?, line.address + line.width = address + words.length := by
  induction h with
  | nil => exact fun line hline => absurd hline (Option.not_mem_none line)
  | @cons first lines words hsound htiles ih =>
    intro line hline
    rw [List.length_append, length_toWords]
    by_cases hlast : lines = []
    · subst hlast
      obtain rfl : words = [] := htiles.flatMap_toWords.symm
      obtain rfl := Option.some.inj hline
      rfl
    · obtain ⟨second, rest, rfl⟩ := List.exists_cons_of_ne_nil hlast
      rw [List.getLast?_cons_cons] at hline
      rw [ih line hline, Nat.add_assoc]

/-- A line holds the words that lie where it stands. -/
theorem take_width (h : Tiles 0 lines words) :
    ∀ line ∈ lines, (words.drop line.address).take line.width = line.toWords := by
  intro line hline
  obtain ⟨front, back, rfl⟩ := List.append_of_mem hline
  have haddress := h.address_eq
  rw [Nat.zero_add] at haddress
  rw [← h.flatMap_toWords, List.flatMap_append, haddress, List.drop_left, List.flatMap_cons,
    ← length_toWords, List.take_left]

end Tiles

/-! ## Lines of a list of words -/

/-- The lines are what the words are cut into: they start at address zero, each starts where the one
in front of it ends, they end where the words end, and each of them holds the words that lie there. -/
structure AreCutFrom (lines : List Line) (words : List Word) : Prop where
  starts : ∀ line ∈ lines.head?, line.address = 0
  follows : lines.IsChain fun line next => next.address = line.address + line.width
  ends : ∀ line ∈ lines.getLast?, line.address + line.width = words.length
  /-- Only no words are cut into no lines. -/
  cuts : lines = [] → words = []
  holds : ∀ line ∈ lines, (words.drop line.address).take line.width = line.toWords

theorem areCutFrom_sweep (words : List Word) : AreCutFrom (sweep 0 words) words := by
  have h := tiles_sweep 0 words
  refine ⟨h.head_address, h.isChain_address, ?_, ?_, h.take_width⟩
  · simpa using h.getLast_end
  · intro hnone
    rw [← h.flatMap_toWords, hnone, List.flatMap_nil]

end Line

end WordMachine
