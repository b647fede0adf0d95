import WordMachine.Proofs.Command.Vocabulary

/-!
# Lines of commands

A line is read by its words, wherever its blanks are (`ofLine_of_isSpaced`), so that the vocabulary
says what is read from a line too. A command that is read can be written (`isExpressible_of_spells`),
and one that can be written is spelt with its numbers in any radix (`spells_toWords`).
`reads_vocabulary` puts all this together.
-/

namespace WordMachine.Command

/-- The line consists of the words, with blanks around them. -/
def IsSpaced (line : String) (words : List String) : Prop :=
  Text.Spaced line.toList (words.map String.toList)

/-- The command can be written: its numbers and names can be words, and of the arguments that may be
left out none is there without those in front of it. -/
def IsExpressible : Command → Prop
  | .step count => count < 2 ^ 64
  | .view target first last =>
    (first.isSome = true → target.isSome = true) ∧ (last.isSome = true → first.isSome = true)
  | .restore path => Text.IsWord path.toList
  | .breakop name => Text.IsWord name.toList
  | .run | .reset | .set .. | .dump | .breakpoint _ | .watch _ => True

variable {line : String} {words : List String} {command : Command}

/-! ## Words of a line -/

/-- Every line has words. -/
theorem exists_isSpaced (line : String) : ∃ words, IsSpaced line words := by
  refine ⟨(Text.words line.toList).map String.ofList, ?_⟩
  rw [IsSpaced, List.map_map]
  simpa using Text.spaced_words line.toList

/-- Only the words of a line matter. -/
theorem ofLine_of_isSpaced (h : IsSpaced line words) : ofLine line = ofWords words := by
  rw [ofLine, Text.spaced_iff.mp h, List.map_map]
  simp

/-- The words of a line are words. -/
theorem isWord_of_isSpaced (h : IsSpaced line words) :
    ∀ word ∈ words, Text.IsWord word.toList := by
  intro word hword
  exact Text.isWord_of_spaced h _ (List.mem_map_of_mem hword)

/-- Words with single blanks between them are the words of their line. -/
theorem isSpaced_of_intercalate (h : ∀ word ∈ words, Text.IsWord word.toList)
    (hline : line.toList = [' '].intercalate (words.map String.toList)) : IsSpaced line words := by
  rw [IsSpaced, hline]
  exact Text.spaced_intercalate (List.forall_mem_map.mpr h)

/-- Words can be put on a line. -/
theorem exists_isSpaced_of_isWord (h : ∀ word ∈ words, Text.IsWord word.toList) :
    ∃ line, IsSpaced line words :=
  ⟨_, isSpaced_of_intercalate h String.toList_ofList⟩

/-! ## Writing commands -/

section Writing

variable {IsNumber IsNumber' : Nat → String → Nat → Prop}

/-- A wider notion of numbers takes no command away. -/
theorem Spells.mono (himp : ∀ bits text number, IsNumber bits text number → IsNumber' bits text number)
    (h : Spells IsNumber words command) : Spells IsNumber' words command := by
  cases h with
  | run => exact .run
  | reset => exact .reset
  | dump => exact .dump
  | oneStep => exact .oneStep
  | step hcount => exact .step (himp _ _ _ hcount)
  | view => exact .view
  | viewTarget => exact .viewTarget
  | viewFrom hfirst => exact .viewFrom (himp _ _ _ hfirst)
  | viewRange hfirst hlast => exact .viewRange (himp _ _ _ hfirst) (himp _ _ _ hlast)
  | set hvalues => exact .set (hvalues.imp fun _ _ => himp _ _ _)
  | restore => exact .restore
  | breakpoint haddress => exact .breakpoint (himp _ _ _ haddress)
  | watch haddress => exact .watch (himp _ _ _ haddress)
  | breakop => exact .breakop

/-- The words of a command, when numbers are written so. -/
def toWords (write : Nat → String) : Command → List String
  | .run => ["run"]
  | .reset => ["reset"]
  | .step count => ["step", write count]
  | .view target first last =>
    "show" :: (target.toList.map Target.name ++ (first.toList ++ last.toList).map (write ·.toNat))
  | .set target values => "set" :: target.name :: values.map (write ·.toNat)
  | .dump => ["dump"]
  | .restore path => ["restore", path]
  | .breakpoint address => ["breakpoint", write address.toNat]
  | .watch address => ["watch", write address.toNat]
  | .breakop name => ["breakop", name]

/-- A command that can be written is spelt by its words. -/
theorem spells_toWords {write : Nat → String} (hexpressible : command.IsExpressible)
    (hwrite : ∀ bits number, number < 2 ^ bits → IsNumber bits (write number) number) :
    Spells IsNumber (command.toWords write) command := by
  have hword (word : Word) : IsNumber 16 (write word.toNat) word.toNat :=
    hwrite 16 word.toNat word.toNat_lt
  cases command with
  | run => exact .run
  | reset => exact .reset
  | dump => exact .dump
  | step count => exact .step (hwrite 64 count hexpressible)
  | set target values =>
    refine .set ?_
    rw [List.forall₂_map_left_iff, List.forall₂_same]
    exact fun value _ => hword value
  | restore path => exact .restore
  | breakpoint address => exact .breakpoint (hword address)
  | watch address => exact .watch (hword address)
  | breakop name => exact .breakop
  | view target first last =>
    obtain ⟨hfirst, hlast⟩ := hexpressible
    cases last with
    | some last =>
      obtain ⟨first, rfl⟩ := Option.isSome_iff_exists.mp (hlast rfl)
      obtain ⟨target, rfl⟩ := Option.isSome_iff_exists.mp (hfirst rfl)
      exact .viewRange (hword first) (hword last)
    | none =>
      cases first with
      | some first =>
        obtain ⟨target, rfl⟩ := Option.isSome_iff_exists.mp (hfirst rfl)
        exact .viewFrom (hword first)
      | none =>
        cases target with
        | some target => exact .viewTarget
        | none => exact .view

end Writing

/-- The names of commands and targets are words. -/
theorem isWord_verbName (verb : Verb) : Text.IsWord verb.name.toList := by
  cases verb <;> decide

theorem isWord_targetName (target : Target) : Text.IsWord target.name.toList := by
  cases target <;> decide

/-- The name of a command and words behind it are words. -/
theorem isWord_of_mem_cons (verb : Verb) {arguments : List String}
    (h : ∀ word ∈ arguments, Text.IsWord word.toList) :
    ∀ word ∈ verb.name :: arguments, Text.IsWord word.toList :=
  List.forall_mem_cons.mpr ⟨isWord_verbName verb, h⟩

/-- The words of a command that can be written are words. -/
theorem isWord_of_mem_toWords {write : Nat → String} (hexpressible : command.IsExpressible)
    (hwrite : ∀ number, Text.IsWord (write number).toList) :
    ∀ word ∈ command.toWords write, Text.IsWord word.toList := by
  cases command with
  | run => exact isWord_of_mem_cons .run nofun
  | reset => exact isWord_of_mem_cons .reset nofun
  | dump => exact isWord_of_mem_cons .dump nofun
  | step count => exact isWord_of_mem_cons .step (by simp [hwrite])
  | view target first last =>
    refine isWord_of_mem_cons .view fun word hword => ?_
    rcases List.mem_append.mp hword with hword | hword
    · obtain ⟨target, -, rfl⟩ := List.mem_map.mp hword
      exact isWord_targetName target
    · obtain ⟨value, -, rfl⟩ := List.mem_map.mp hword
      exact hwrite _
  | set target values =>
    refine isWord_of_mem_cons .set (List.forall_mem_cons.mpr ⟨isWord_targetName target, ?_⟩)
    exact List.forall_mem_map.mpr fun value _ => hwrite _
  | restore path => exact isWord_of_mem_cons .restore (List.forall_mem_singleton.mpr hexpressible)
  | breakpoint address => exact isWord_of_mem_cons .breakpoint (by simp [hwrite])
  | watch address => exact isWord_of_mem_cons .watch (by simp [hwrite])
  | breakop name => exact isWord_of_mem_cons .breakop (List.forall_mem_singleton.mpr hexpressible)

/-- Only commands that can be written are spelt by words. -/
theorem isExpressible_of_spells (hwords : ∀ word ∈ words, Text.IsWord word.toList)
    (h : Spells IsRead words command) : command.IsExpressible := by
  cases h with
  | step hcount => exact lt_of_readNumber hcount
  | restore | breakop => exact hwords _ (by simp)
  | view | viewTarget | viewFrom | viewRange => simp [IsExpressible]
  | run | reset | dump | set | breakpoint | watch => exact trivial
  | oneStep => exact (by decide : 1 < 2 ^ 64)

/-- Numbers that are written in some radix are read. -/
theorem ofLine_of_spells (hspaced : IsSpaced line words) (h : Spells IsNumeral words command) :
    ofLine line = .ok command := by
  rw [ofLine_of_isSpaced hspaced, ofWords_eq_ok_iff]
  exact h.mono fun _ _ _ hnumeral => readNumber_eq_ok_iff.mpr (.inl hnumeral)

/-- A line is read by its words alone: exactly the commands that these spell are read, and what is
misspelt is reported as the first thing that is wrong. Numbers in every radix are read, so that each
command that can be written is read from its words in any spacing, and no other command is ever
read. -/
theorem reads_vocabulary :
    (∀ line, ∃ words, IsSpaced line words) ∧
    (∀ line words, IsSpaced line words →
      (∀ command, ofLine line = .ok command ↔ Spells IsRead words command) ∧
      (∀ error, ofLine line = .error error ↔ Misspells IsRead words error) ∧
      ∀ command, Spells IsNumeral words command → ofLine line = .ok command) ∧
    (∀ command : Command, command.IsExpressible → ∀ radix,
      (∃ line, IsSpaced line (command.toWords (numeral radix))) ∧
      ∀ line, IsSpaced line (command.toWords (numeral radix)) → ofLine line = .ok command) ∧
    ∀ line command, ofLine line = .ok command → command.IsExpressible := by
  refine ⟨exists_isSpaced, ?_, ?_, ?_⟩
  · intro line words hspaced
    rw [ofLine_of_isSpaced hspaced]
    refine ⟨fun command => ofWords_eq_ok_iff, fun error => ofWords_eq_error_iff, ?_⟩
    intro command hspells
    rw [← ofLine_of_isSpaced hspaced]
    exact ofLine_of_spells hspaced hspells
  · intro command hexpressible radix
    have hspells : Spells IsNumeral (command.toWords (numeral radix)) command :=
      spells_toWords hexpressible fun _ _ hnumber => ⟨radix, isNumeralIn_numeral radix hnumber⟩
    exact ⟨exists_isSpaced_of_isWord (isWord_of_mem_toWords hexpressible (isWord_numeral radix)),
      fun line hspaced => ofLine_of_spells hspaced hspells⟩
  · intro line command hread
    obtain ⟨words, hspaced⟩ := exists_isSpaced line
    rw [ofLine_of_isSpaced hspaced, ofWords_eq_ok_iff] at hread
    exact isExpressible_of_spells (isWord_of_isSpaced hspaced) hread

end WordMachine.Command
