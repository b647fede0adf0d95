import WordMachine.Proofs.Computer.Stepping

/-!
# Running out of input

Two runs are compared here: one in which the input ends, and one in which more of it follows. As
long as steps go through, the bytes that follow stay behind those that are read, and the two runs
differ in nothing else (`Effect.feed`, `step_feed`, `Continues.feed`). A step that waits for input
changes nothing but the mark that the machine is halted, so a machine that is resumed and then fed
is where the other run has already come to (`resume_feed_eq`).
-/

namespace WordMachine

namespace Computer

/-- The computer with more bytes behind those still to be read. -/
def feed (computer : Computer) (bytes : List UInt8) : Computer :=
  ⟨computer.machine, computer.console.feed bytes⟩

/-- The computer with its machine woken up. -/
def resume (computer : Computer) : Computer := computer.withMachine computer.machine.resume

end Computer

/-- A row of the table that goes through is there with more input as well, and leaves the rest of
the input behind. -/
theorem Effect.feed {machine : Machine} {console : Console} {next : Word} {opcode : Opcode}
    {operands : List Word} {after : Computer} (bytes : List UInt8)
    (h : Effect machine console next opcode operands .continued after) :
    Effect machine (console.feed bytes) next opcode operands .continued (after.feed bytes) := by
  cases h with
  | set ha hb hr => exact .set ha hb hr
  | push ha hword => exact .push ha hword
  | pop ha hstack htop hr => exact .pop ha hstack htop hr
  | compute ha hb hc hz hr => exact .compute ha hb hc hz hr
  | jmp ha htarget => exact .jmp ha htarget
  | jt ha hb htarget => exact .jt ha hb htarget
  | jf ha hb htarget => exact .jf ha hb htarget
  | not ha hb hz hr => exact .not ha hb hz hr
  | rmem ha hb hcell hword hr => exact .rmem ha hb hcell hword hr
  | wmem ha hb hword hcell => exact .wmem ha hb hword hcell
  | call ha htarget hnext => exact .call ha htarget hnext
  | ret hstack => exact .ret hstack
  | out ha hprintable hbyte => exact .out ha hprintable hbyte
  | @inp a r x byte rest registers ha hinput hbyte hr =>
    have hfed : (console.feed bytes).input = byte :: (rest ++ bytes) :=
      congrArg (· ++ bytes) hinput
    exact .inp ha hfed hbyte hr
  | noop => exact .noop

/-- A row that waits for input is there only where none is left, and no more than marks the machine
as halted. -/
theorem Effect.eq_of_inputExhausted {machine : Machine} {console : Console} {next : Word}
    {opcode : Opcode} {operands : List Word} {after : Computer}
    (h : Effect machine console next opcode operands (.halted .inputExhausted) after) :
    console.input = [] ∧ after = ⟨{ machine with halted := some .inputExhausted }, console⟩ := by
  cases h with
  | inputExhausted ha hinput => exact ⟨hinput, rfl⟩

namespace Computer

variable {computer after : Computer} {steps : Nat}

/-- A step that goes through does so with more input as well. -/
theorem step_feed (bytes : List UInt8) (h : computer.step = (.continued, after)) :
    (computer.feed bytes).step = (.continued, after.feed bytes) := by
  have hrunning := (halted_of_step_continued h).1
  obtain ⟨opcode, operands, next, hfaces, heffect⟩ := exists_effect_of_continued h
  exact step_of_effect hrunning hfaces (heffect.feed bytes)

/-- Steps that go through do so with more input as well, and leave the rest of the input behind. -/
theorem Continues.feed (bytes : List UInt8) (h : computer.Continues steps) :
    (computer.feed bytes).Continues steps ∧
      (computer.feed bytes).stepTimes steps = (computer.stepTimes steps).feed bytes := by
  induction steps with
  | zero => exact ⟨nofun, rfl⟩
  | succ steps ih =>
    obtain ⟨hinit, heq⟩ := ih h.init
    have hlast := step_feed bytes (h.step_eq (Nat.lt_succ_self steps))
    rw [← heq] at hlast
    refine ⟨fun index hlt => ?_, ?_⟩
    · rcases Nat.lt_succ_iff_lt_or_eq.mp hlt with hlt | rfl
      · exact hinit index hlt
      · exact congrArg Prod.fst hlast
    · rw [stepTimes_succ', hlast]

/-- A machine that waits for input has read everything, and woken up and fed it is as if it had been
fed before it came to wait. -/
theorem resume_feed_eq (bytes : List UInt8) (hrunning : computer.machine.halted = none)
    (h : computer.step = (.halted .inputExhausted, after)) :
    computer.console.input = [] ∧ after.resume.feed bytes = computer.feed bytes := by
  obtain ⟨opcode, operands, next, -, heffect⟩ := exists_effect_of_step hrunning h (by simp)
  obtain ⟨hinput, rfl⟩ := heffect.eq_of_inputExhausted
  refine ⟨hinput, ?_⟩
  have hmachine : { computer.machine with halted := none } = computer.machine := by
    rw [← hrunning]
  exact congrArg (fun machine => Computer.feed ⟨machine, computer.console⟩ bytes) hmachine

/-- Nothing is lost when input runs out. Suppose a machine makes some steps and then waits for
input. Had more bytes followed from the start, the same steps would have gone through to the same
machine and the same output, with exactly these bytes left to read; and waking up the waiting
machine, feeding it the bytes and stepping on gives step by step what the run with all the input
gives. -/
theorem resume_loses_nothing (bytes : List UInt8) (hrunning : computer.machine.halted = none)
    (hsteps : computer.Continues steps)
    (hwaits : (computer.stepTimes steps).step.1 = .halted .inputExhausted) :
    (computer.feed bytes).Continues steps ∧
      (computer.feed bytes).stepTimes steps =
        ⟨(computer.stepTimes steps).machine, ⟨bytes, (computer.stepTimes steps).console.output⟩⟩ ∧
      ∀ more, ((computer.stepTimes (steps + 1)).resume.feed bytes).stepTimes more =
          (computer.feed bytes).stepTimes (steps + more) ∧
        (((computer.stepTimes (steps + 1)).resume.feed bytes).stepTimes more).step.1 =
          ((computer.feed bytes).stepTimes (steps + more)).step.1 := by
  obtain ⟨hcontinues, hfed⟩ := hsteps.feed bytes
  have hstep : (computer.stepTimes steps).step =
      (.halted .inputExhausted, computer.stepTimes (steps + 1)) :=
    Prod.ext hwaits (computer.stepTimes_succ' steps).symm
  obtain ⟨hinput, hresumed⟩ := resume_feed_eq bytes (hsteps.running hrunning) hstep
  refine ⟨hcontinues, ?_, fun more => ?_⟩
  · rw [hfed, feed, Console.feed, hinput, List.nil_append]
  · rw [hresumed, ← hfed, ← stepTimes_add]
    exact ⟨rfl, rfl⟩

/-- Reads two characters into the first two registers. -/
def readTwo : Program := ⟨[20, 32768, 20, 32769], by decide, List.all_eq_true.mp rfl⟩

/-- Two characters are read, of which the second one comes only after the machine has waited. -/
theorem resume_loses_nothing_of_readTwo :
    (start readTwo [66]).Continues 1 ∧
      ((start readTwo [66]).stepTimes 1).step.1 = .halted .inputExhausted ∧
      (((start readTwo [66]).stepTimes 2).resume.feed [65]).stepTimes 1 =
        ((start readTwo [66]).feed [65]).stepTimes 2 := by
  have hfaces : (start readTwo [66]).machine.Faces .inp [32768] 2 :=
    Machine.faces_of_prefix rfl rfl ⟨[20, 32769], rfl⟩ rfl
  have hreads : (start readTwo [66]).step =
      (.continued, ((start readTwo [66]).goTo 2).dropInput.assign 0 66) :=
    step_of_effect rfl hfaces (.inp (r := 0) rfl rfl rfl (Registers.receives_assign _ 0 66))
  have hfaces' : (((start readTwo [66]).goTo 2).dropInput.assign 0 66).machine.Faces
      .inp [32769] 4 :=
    Machine.faces_of_prefix rfl rfl (List.prefix_refl _) rfl
  have hexhausted := step_of_effect rfl hfaces' (.inputExhausted (r := 1) rfl rfl)
  have hsteps : (start readTwo [66]).Continues 1 := by
    intro index hlt
    obtain rfl := Nat.lt_one_iff.mp hlt
    exact congrArg Prod.fst hreads
  have hwaits : ((start readTwo [66]).stepTimes 1).step.1 = .halted .inputExhausted := by
    rw [stepTimes_succ, hreads]
    exact congrArg Prod.fst hexhausted
  exact ⟨hsteps, hwaits, ((resume_loses_nothing [65] rfl hsteps hwaits).2.2 1).1⟩

end Computer

end WordMachine
