import WordMachine.Proofs.Command.Numbers
import WordMachine.Proofs.Except

/-!
# The vocabulary of commands

Which words spell a command (`Spells`), and what is wrong with those that spell none (`Misspells`),
said shape by shape and for any notion of what a number is. With the numbers that are read, the two
say exactly what reading comes to (`ofWords_eq_ok_iff`, `ofWords_eq_error_iff`): every list of words
spells one command or is misspelt in one way.
-/

namespace WordMachine.Command

/-! ## Shapes -/

section Shapes

variable (IsNumber : Nat → String → Nat → Prop)

/-- The words spell the command. -/
inductive Spells : List String → Command → Prop where
  | run : Spells ["run"] .run
  | reset : Spells ["reset"] .reset
  | dump : Spells ["dump"] .dump
  /-- Where no count is given it is one step. -/
  | oneStep : Spells ["step"] (.step 1)
  | step {text : String} {count : Nat} (hcount : IsNumber 64 text count) :
      Spells ["step", text] (.step count)
  | view : Spells ["show"] (.view none none none)
  | viewTarget {target : Target} : Spells ["show", target.name] (.view (some target) none none)
  | viewFrom {target : Target} {text : String} {first : Word}
      (hfirst : IsNumber 16 text first.toNat) :
      Spells ["show", target.name, text] (.view (some target) (some first) none)
  | viewRange {target : Target} {text text' : String} {first last : Word}
      (hfirst : IsNumber 16 text first.toNat) (hlast : IsNumber 16 text' last.toNat) :
      Spells ["show", target.name, text, text'] (.view (some target) (some first) (some last))
  | set {target : Target} {texts : List String} {values : List Word}
      (hvalues : List.Forall₂ (fun text value => IsNumber 16 text value.toNat) texts values) :
      Spells ("set" :: target.name :: texts) (.set target values)
  | restore {path : String} : Spells ["restore", path] (.restore path)
  | breakpoint {text : String} {address : Word} (haddress : IsNumber 16 text address.toNat) :
      Spells ["breakpoint", text] (.breakpoint address)
  | watch {text : String} {address : Word} (haddress : IsNumber 16 text address.toNat) :
      Spells ["watch", text] (.watch address)
  | breakop {name : String} : Spells ["breakop", name] (.breakop name)

/-- The words spell no command, for the reason that comes first: there are none, the first one is no
command, there are too many, an argument is missing that must be given, the target is none, or else
the argument is the first one that is no number. -/
inductive Misspells : List String → CommandError → Prop where
  | empty : Misspells [] .empty
  | unknown {word : String} {arguments : List String} (hword : ∀ verb : Verb, word ≠ verb.name) :
      Misspells (word :: arguments) (.unknown word)
  | tooManyArguments {verb : Verb} {limit : Nat} {arguments : List String}
      (hlimit : verb.maxArguments? = some limit) (hmany : limit < arguments.length) :
      Misspells (verb.name :: arguments) (.tooManyArguments verb limit)
  | missing {verb : Verb} (hverb : verb ∈ [.set, .restore, .breakpoint, .watch, .breakop]) :
      Misspells [verb.name] (.missing verb)
  | unknownTarget {verb : Verb} {text : String} {arguments : List String}
      (hverb : verb = .set ∨ verb = .view ∧ arguments.length ≤ 2)
      (htext : ∀ target : Target, text ≠ target.name) :
      Misspells (verb.name :: text :: arguments) (.unknownTarget text)
  | badCount {text : String} (htext : ∀ number, ¬ IsNumber 64 text number) :
      Misspells ["step", text] (.invalidNumber text)
  | badAddress {verb : Verb} {text : String} (hverb : verb = .breakpoint ∨ verb = .watch)
      (htext : ∀ number, ¬ IsNumber 16 text number) :
      Misspells [verb.name, text] (.invalidNumber text)
  /-- Everything in front of the argument is as it should be. -/
  | badValue {verb : Verb} {target : Target} {front rest : List String} {text : String}
      (hverb : verb = .set ∨ verb = .view ∧ (front ++ text :: rest).length ≤ 2)
      (hfront : ∀ good ∈ front, ∃ number, IsNumber 16 good number)
      (htext : ∀ number, ¬ IsNumber 16 text number) :
      Misspells (verb.name :: target.name :: (front ++ text :: rest)) (.invalidNumber text)

end Shapes

variable {α : Type} {read : String → Except CommandError α} {value : α}
  {text : String} {texts words arguments : List String} {values : List Word} {target : Target}
  {verb : Verb} {command : Command} {error : CommandError}

/-! ## Single arguments -/

theorem readTarget_eq_ok_iff : readTarget text = .ok target ↔ text = target.name := by
  rw [← Target.ofName?_eq_some_iff, readTarget]
  cases Target.ofName? text <;> simp

theorem readTarget_eq_error_iff :
    readTarget text = .error error ↔
      error = .unknownTarget text ∧ ∀ target : Target, text ≠ target.name := by
  have hnone : Target.ofName? text = none ↔ ∀ target : Target, text ≠ target.name := by
    simp only [Option.eq_none_iff_forall_ne_some, ne_eq, Target.ofName?_eq_some_iff]
  rw [← hnone, readTarget]
  cases Target.ofName? text <;> simp [eq_comm]

theorem readOptional_of_eq_ok (h : read text = .ok value) :
    readOptional read (some text) = .ok (some value) := by
  rw [readOptional, h]
  rfl

theorem readOptional_of_eq_error (h : read text = .error error) :
    readOptional read (some text) = .error error := by
  rw [readOptional, h]
  rfl

/-- Words are read one by one. -/
theorem readWords_eq_ok_iff :
    readWords texts = .ok values ↔
      List.Forall₂ (fun text value => IsRead 16 text value.toNat) texts values := by
  constructor
  · intro h
    induction texts generalizing values with
    | nil =>
      obtain rfl := Except.ok.inj h
      exact .nil
    | cons text texts ih =>
      obtain ⟨word, hword, h⟩ := exists_of_bind_eq_ok h
      obtain ⟨rest, hrest, h⟩ := exists_of_bind_eq_ok h
      obtain rfl := Except.ok.inj h
      exact .cons (readWord_eq_ok_iff.mp hword) (ih hrest)
  · intro h
    induction h with
    | nil => rfl
    | cons hword hrest ih =>
      exact (bind_of_eq_ok (readWord_eq_ok_iff.mpr hword)).trans (bind_of_eq_ok ih)

/-- Words are read up to the first one that is none. -/
theorem readWords_eq_error_iff :
    readWords texts = .error error ↔
      ∃ front text rest, texts = front ++ text :: rest ∧
        (∀ good ∈ front, ∃ number, IsRead 16 good number) ∧ readNumber 16 text = .error error := by
  constructor
  · intro h
    induction texts with
    | nil => cases h
    | cons text texts ih =>
      rcases exists_of_bind_eq_error h with hword | ⟨word, hword, h⟩
      · exact ⟨[], text, texts, rfl, nofun, readWord_eq_error_iff.mp hword⟩
      · rcases exists_of_bind_eq_error h with hrest | ⟨rest, -, h⟩
        · obtain ⟨front, bad, rest, rfl, hfront, hbad⟩ := ih hrest
          have hgood : ∃ number, IsRead 16 text number := ⟨_, readWord_eq_ok_iff.mp hword⟩
          exact ⟨text :: front, bad, rest, rfl, List.forall_mem_cons.mpr ⟨hgood, hfront⟩, hbad⟩
        · cases h
  · rintro ⟨front, text, rest, rfl, hfront, hbad⟩
    induction front with
    | nil => exact bind_of_eq_error (readWord_eq_error_iff.mpr hbad)
    | cons good front ih =>
      obtain ⟨⟨number, hgood⟩, hfront⟩ := List.forall_mem_cons.mp hfront
      exact (bind_of_eq_ok hgood.readWord_eq).trans (bind_of_eq_error (ih hfront))

/-! ## What is read is spelt -/

/-- The words spell what is read, or are misspelt as it is reported. -/
def Judges (words : List String) : Except CommandError Command → Prop
  | .ok command => Spells IsRead words command
  | .error error => Misspells IsRead words error

/-- What is read in two parts is judged by what comes of the first. -/
theorem Judges.bind {first : Except CommandError α} {second : α → Except CommandError Command}
    (hok : ∀ value, first = .ok value → Judges words (second value))
    (herror : ∀ error, first = .error error → Misspells IsRead words error) :
    Judges words (first >>= second) := by
  cases hfirst : first with
  | ok value => exact hok value hfirst
  | error error => exact herror error hfirst

/-- An argument that is there is read in front of the others. -/
theorem Judges.argument {second : Option α → Except CommandError Command}
    (hok : ∀ value, read text = .ok value → Judges words (second (some value)))
    (herror : ∀ error, read text = .error error → Misspells IsRead words error) :
    Judges words (readOptional read (some text) >>= second) := by
  cases hread : read text with
  | ok value =>
    rw [bind_of_eq_ok (readOptional_of_eq_ok hread)]
    exact hok value hread
  | error error =>
    rw [bind_of_eq_error (readOptional_of_eq_error hread)]
    exact herror error hread

theorem judges_step (hfits : arguments.length ≤ 1) :
    Judges ("step" :: arguments) (readArguments .step arguments) := by
  match arguments, hfits with
  | [], _ => exact Spells.oneStep
  | [text], _ =>
    refine .argument (fun count hcount => Spells.step hcount) fun error herror => ?_
    obtain ⟨rfl, hbad⟩ := readNumber_eq_error_iff.mp herror
    exact .badCount hbad

theorem judges_view (hfits : arguments.length ≤ 3) :
    Judges ("show" :: arguments) (readArguments .view arguments) := by
  have htarget : ∀ text rest error, rest.length ≤ 2 → readTarget text = .error error →
      Misspells IsRead ("show" :: text :: rest) error := by
    intro text rest error hrest herror
    obtain ⟨rfl, hbad⟩ := readTarget_eq_error_iff.mp herror
    exact .unknownTarget (.inr ⟨rfl, hrest⟩) hbad
  have hvalue : ∀ (target : Target) front text rest error, (front ++ text :: rest).length ≤ 2 →
      (∀ good ∈ front, ∃ number, IsRead 16 good number) → readWord text = .error error →
        Misspells IsRead ("show" :: target.name :: (front ++ text :: rest)) error := by
    intro target front text rest error hlength hfront herror
    obtain ⟨rfl, hbad⟩ := readNumber_eq_error_iff.mp (readWord_eq_error_iff.mp herror)
    exact .badValue (.inr ⟨rfl, hlength⟩) hfront hbad
  match arguments, hfits with
  | [], _ => exact Spells.view
  | [text], _ =>
    refine .argument (fun target ht => ?_) (htarget text [] · (by simp))
    obtain rfl := readTarget_eq_ok_iff.mp ht
    exact Spells.viewTarget
  | [text, low], _ =>
    refine .argument (fun target ht => ?_) (htarget text [low] · (by simp))
    obtain rfl := readTarget_eq_ok_iff.mp ht
    refine .argument (fun first hfirst => ?_) (hvalue target [] low [] · (by simp) nofun)
    exact Spells.viewFrom (readWord_eq_ok_iff.mp hfirst)
  | [text, low, high], _ =>
    refine .argument (fun target ht => ?_) (htarget text [low, high] · (by simp))
    obtain rfl := readTarget_eq_ok_iff.mp ht
    refine .argument (fun first hfirst => ?_) (hvalue target [] low [high] · (by simp) nofun)
    have hlow := readWord_eq_ok_iff.mp hfirst
    refine .argument (fun last hlast => ?_) (hvalue target [low] high [] · (by simp) ?_)
    · exact Spells.viewRange hlow (readWord_eq_ok_iff.mp hlast)
    · exact List.forall_mem_singleton.mpr ⟨_, hlow⟩

theorem judges_set : Judges ("set" :: arguments) (readArguments .set arguments) := by
  match arguments with
  | [] => exact Misspells.missing List.mem_cons_self
  | text :: texts =>
    change Judges _ (readTarget text >>= fun target => readWords texts >>= fun values =>
      pure (.set target values))
    refine .bind (fun target htarget => ?_) fun error herror => ?_
    · obtain rfl := readTarget_eq_ok_iff.mp htarget
      refine .bind (fun values hvalues => Spells.set (readWords_eq_ok_iff.mp hvalues)) ?_
      intro error herror
      obtain ⟨front, bad, rest, rfl, hfront, hread⟩ := readWords_eq_error_iff.mp herror
      obtain ⟨rfl, hbad⟩ := readNumber_eq_error_iff.mp hread
      exact .badValue (.inl rfl) hfront hbad
    · obtain ⟨rfl, hbad⟩ := readTarget_eq_error_iff.mp herror
      exact .unknownTarget (.inl rfl) hbad

/-- A command with one argument that must be given and is a number. -/
theorem judges_address {build : Word → Command} (hverb : verb = .breakpoint ∨ verb = .watch)
    (hspells : ∀ {text : String} {address : Word}, IsRead 16 text address.toNat →
      Spells IsRead [verb.name, text] (build address)) (hfits : arguments.length ≤ 1) :
    Judges (verb.name :: arguments)
      (firstArgument verb arguments >>= fun text => readWord text >>= fun address =>
        pure (build address)) := by
  match arguments, hfits with
  | [], _ =>
    refine Misspells.missing ?_
    rcases hverb with rfl | rfl <;> decide
  | [text], _ =>
    change Judges _ (readWord text >>= fun address => pure (build address))
    refine .bind (fun address haddress => hspells (readWord_eq_ok_iff.mp haddress)) ?_
    intro error herror
    obtain ⟨rfl, hbad⟩ := readNumber_eq_error_iff.mp (readWord_eq_error_iff.mp herror)
    exact .badAddress hverb hbad

/-- The number of arguments is one that the command can have. -/
def Fits (verb : Verb) (arguments : List String) : Prop :=
  ∀ limit, verb.maxArguments? = some limit → arguments.length ≤ limit

/-- What is read from the name of a command and not too many arguments. -/
theorem judges_readArguments (hfits : Fits verb arguments) :
    Judges (verb.name :: arguments) (readArguments verb arguments) := by
  cases verb with
  | run =>
    obtain rfl := List.length_eq_zero_iff.mp (Nat.le_zero.mp (hfits 0 rfl))
    exact Spells.run
  | reset =>
    obtain rfl := List.length_eq_zero_iff.mp (Nat.le_zero.mp (hfits 0 rfl))
    exact Spells.reset
  | dump =>
    obtain rfl := List.length_eq_zero_iff.mp (Nat.le_zero.mp (hfits 0 rfl))
    exact Spells.dump
  | step => exact judges_step (hfits 1 rfl)
  | view => exact judges_view (hfits 3 rfl)
  | set => exact judges_set
  | breakpoint => exact judges_address (.inl rfl) .breakpoint (hfits 1 rfl)
  | watch => exact judges_address (.inr rfl) .watch (hfits 1 rfl)
  | restore =>
    match arguments, hfits 1 rfl with
    | [], _ => exact Misspells.missing (by decide)
    | [path], _ => exact Spells.restore
  | breakop =>
    match arguments, hfits 1 rfl with
    | [], _ => exact Misspells.missing (by decide)
    | [name], _ => exact Spells.breakop

theorem fits_of_le {limit : Nat} (hlimit : verb.maxArguments? = some limit)
    (hle : arguments.length ≤ limit) : Fits verb arguments := by
  intro found hfound
  obtain rfl := Option.some.inj (hlimit.symm.trans hfound)
  exact hle

/-- A command that can have so many arguments is read with them. -/
theorem ofWords_of_fits (verb : Verb) (hfits : Fits verb arguments) :
    ofWords (verb.name :: arguments) = readArguments verb arguments := by
  have hnone : verb.maxArguments?.filter (· < arguments.length) = none :=
    Option.filter_eq_none_iff.mpr fun limit hlimit =>
      by simpa using hfits limit hlimit
  simp only [ofWords, Verb.ofName?_name, hnone]

/-- Every list of words is judged. -/
theorem judges_ofWords (words : List String) : Judges words (ofWords words) := by
  cases words with
  | nil => exact Misspells.empty
  | cons word arguments =>
    cases hverb : Verb.ofName? word with
    | none =>
      have hunknown : ∀ verb : Verb, word ≠ verb.name := by
        rintro verb rfl
        rw [Verb.ofName?_name] at hverb
        cases hverb
      simp only [ofWords, hverb]
      exact Misspells.unknown hunknown
    | some verb =>
      obtain rfl := Verb.ofName?_eq_some_iff.mp hverb
      by_cases hfits : Fits verb arguments
      · rw [ofWords_of_fits verb hfits]
        exact judges_readArguments hfits
      · unfold Fits at hfits
        push Not at hfits
        obtain ⟨limit, hlimit, hmany⟩ := hfits
        simp only [ofWords, hverb, hlimit, Option.filter_some, hmany, decide_true, if_true]
        exact Misspells.tooManyArguments hlimit hmany

/-! ## What is spelt is read -/

/-- A command that is spelt is read. -/
theorem ofWords_of_spells (h : Spells IsRead words command) : ofWords words = .ok command := by
  cases h with
  | run => exact ofWords_of_fits .run (fits_of_le rfl (by simp))
  | reset => exact ofWords_of_fits .reset (fits_of_le rfl (by simp))
  | dump => exact ofWords_of_fits .dump (fits_of_le rfl (by simp))
  | oneStep => exact ofWords_of_fits .step (fits_of_le rfl (by simp))
  | step hcount =>
    refine (ofWords_of_fits .step (fits_of_le rfl (by simp))).trans ?_
    exact bind_of_eq_ok (readOptional_of_eq_ok hcount)
  | view => exact ofWords_of_fits .view (fits_of_le rfl (by simp))
  | viewTarget =>
    refine (ofWords_of_fits .view (fits_of_le rfl (by simp))).trans ?_
    exact bind_of_eq_ok (readOptional_of_eq_ok (readTarget_eq_ok_iff.mpr rfl))
  | viewFrom hfirst =>
    refine (ofWords_of_fits .view (fits_of_le rfl (by simp))).trans ?_
    refine (bind_of_eq_ok (readOptional_of_eq_ok (readTarget_eq_ok_iff.mpr rfl))).trans ?_
    exact bind_of_eq_ok (readOptional_of_eq_ok (readWord_eq_ok_iff.mpr hfirst))
  | viewRange hfirst hlast =>
    refine (ofWords_of_fits .view (fits_of_le rfl (by simp))).trans ?_
    refine (bind_of_eq_ok (readOptional_of_eq_ok (readTarget_eq_ok_iff.mpr rfl))).trans ?_
    refine (bind_of_eq_ok (readOptional_of_eq_ok (readWord_eq_ok_iff.mpr hfirst))).trans ?_
    exact bind_of_eq_ok (readOptional_of_eq_ok (readWord_eq_ok_iff.mpr hlast))
  | set hvalues =>
    refine (ofWords_of_fits .set nofun).trans ?_
    refine (bind_of_eq_ok (readTarget_eq_ok_iff.mpr rfl)).trans ?_
    exact bind_of_eq_ok (readWords_eq_ok_iff.mpr hvalues)
  | restore => exact ofWords_of_fits .restore (fits_of_le rfl (by simp))
  | breakpoint haddress =>
    refine (ofWords_of_fits .breakpoint (fits_of_le rfl (by simp))).trans ?_
    exact bind_of_eq_ok (readWord_eq_ok_iff.mpr haddress)
  | watch haddress =>
    refine (ofWords_of_fits .watch (fits_of_le rfl (by simp))).trans ?_
    exact bind_of_eq_ok (readWord_eq_ok_iff.mpr haddress)
  | breakop => exact ofWords_of_fits .breakop (fits_of_le rfl (by simp))

/-- What is misspelt is reported so. -/
theorem ofWords_of_misspells (h : Misspells IsRead words error) : ofWords words = .error error := by
  have hnumber {bits : Nat} {text : String} (htext : ∀ number, ¬ IsRead bits text number) :
      readNumber bits text = .error (.invalidNumber text) :=
    readNumber_eq_error_iff.mpr ⟨rfl, htext⟩
  have hword {text : String} (htext : ∀ number, ¬ IsRead 16 text number) :
      readWord text = .error (.invalidNumber text) :=
    readWord_eq_error_iff.mpr (hnumber htext)
  cases h with
  | empty => rfl
  | unknown hunknown =>
    have hnone : Verb.ofName? _ = none := Option.eq_none_iff_forall_ne_some.mpr fun verb hverb =>
      hunknown verb (Verb.ofName?_eq_some_iff.mp hverb)
    simp only [ofWords, hnone]
  | tooManyArguments hlimit hmany =>
    simp only [ofWords, Verb.ofName?_name, hlimit, Option.filter_some, hmany, decide_true, if_true]
  | missing hverb =>
    simp only [List.mem_cons, List.not_mem_nil, or_false] at hverb
    rcases hverb with rfl | rfl | rfl | rfl | rfl
    · exact ofWords_of_fits .set nofun
    all_goals exact ofWords_of_fits _ (fits_of_le rfl (by simp))
  | unknownTarget hverb htext =>
    have htarget := readTarget_eq_error_iff.mpr ⟨rfl, htext⟩
    rcases hverb with rfl | ⟨rfl, hlength⟩
    · refine (ofWords_of_fits .set nofun).trans ?_
      change (readTarget _ >>= _) = _
      exact bind_of_eq_error htarget
    · refine (ofWords_of_fits .view (fits_of_le rfl (by exact Nat.succ_le_succ hlength))).trans ?_
      exact bind_of_eq_error (readOptional_of_eq_error htarget)
  | badCount htext =>
    refine (ofWords_of_fits .step (fits_of_le rfl (by simp))).trans ?_
    exact bind_of_eq_error (readOptional_of_eq_error (hnumber htext))
  | badAddress hverb htext =>
    rcases hverb with rfl | rfl
    all_goals
      refine (ofWords_of_fits _ (fits_of_le rfl (by simp))).trans ?_
      change (readWord _ >>= _) = _
      exact bind_of_eq_error (hword htext)
  | @badValue verb target front rest text hverb hfront htext =>
    rcases hverb with rfl | ⟨rfl, hlength⟩
    · refine (ofWords_of_fits .set nofun).trans ?_
      refine (bind_of_eq_ok (readTarget_eq_ok_iff.mpr rfl)).trans (bind_of_eq_error ?_)
      exact readWords_eq_error_iff.mpr ⟨front, text, rest, rfl, hfront, hnumber htext⟩
    · refine (ofWords_of_fits .view (fits_of_le rfl (by exact Nat.succ_le_succ hlength))).trans ?_
      refine (bind_of_eq_ok (readOptional_of_eq_ok (readTarget_eq_ok_iff.mpr rfl))).trans ?_
      match front, hfront with
      | [], _ => exact bind_of_eq_error (readOptional_of_eq_error (hword htext))
      | [good], hfront =>
        obtain ⟨number, hgood⟩ := hfront good List.mem_cons_self
        refine (bind_of_eq_ok (readOptional_of_eq_ok hgood.readWord_eq)).trans ?_
        exact bind_of_eq_error (readOptional_of_eq_error (hword htext))
      | _ :: _ :: _, _ =>
        simp at hlength

/-- Exactly the commands that are spelt are read. -/
theorem ofWords_eq_ok_iff : ofWords words = .ok command ↔ Spells IsRead words command := by
  refine ⟨fun h => ?_, ofWords_of_spells⟩
  have hjudged := judges_ofWords words
  rwa [h] at hjudged

example : ofWords ["show", "memory", "0x10", "32"] =
    .ok (.view (some .memory) (some 16) (some 32)) := rfl

/-- Exactly what is misspelt is reported. -/
theorem ofWords_eq_error_iff : ofWords words = .error error ↔ Misspells IsRead words error := by
  refine ⟨fun h => ?_, ofWords_of_misspells⟩
  have hjudged := judges_ofWords words
  rwa [h] at hjudged

-- That there are too many arguments is said before anything about them.
example : ofWords ["watch", "x", "y"] = .error (.tooManyArguments .watch 1) := rfl

end WordMachine.Command
