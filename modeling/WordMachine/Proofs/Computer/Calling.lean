import WordMachine.Proofs.Computer.Peeking
import WordMachine.Proofs.Computer.Stepping

/-!
# Subroutines

Return addresses lie on the same stack as all other numbers, and nothing keeps them apart. That
subroutines return all the same comes from how the stack changes: a step that goes through leaves it
alone, puts one word on top or takes the top off (`Effect.stack_cases`). So what lay on the stack
when a subroutine was called lies there until the stack is as short again (`Rests`,
`Continues.rests`), and the step that makes it as short takes off the return address, and no other
word: it is a `ret` that goes there or a `pop` that loads it into a register
(`Effect.returns`).
-/

namespace WordMachine

/-- The base lies at the bottom of the stack. -/
def Stack.Rests (base stack : Stack) : Prop := ∃ above, stack.words = above ++ base.words

namespace Stack

variable {base stack : Stack}

theorem Rests.refl (base : Stack) : base.Rests base := ⟨[], rfl⟩

theorem Rests.push (h : base.Rests stack) (word : Word) : base.Rests (stack.push word) := by
  obtain ⟨above, habove⟩ := h
  exact ⟨word :: above, congrArg (word :: ·) habove⟩

/-- What rests under a word is the whole rest, or it ends with the word. -/
theorem Rests.of_push {word : Word} (h : base.Rests (stack.push word)) :
    base.Rests stack ∨ base = stack.push word := by
  obtain ⟨_ | ⟨first, above⟩, habove⟩ := h
  · exact .inr (congrArg mk habove.symm)
  · exact .inl ⟨above, (List.cons.inj habove).2⟩

theorem Rests.size_le (h : base.Rests stack) : base.size ≤ stack.size := by
  obtain ⟨above, habove⟩ := h
  rw [size, size, habove, List.length_append]
  exact Nat.le_add_left _ _

/-- The view of a stack starts with the view of what rests at its bottom. -/
theorem Rests.take_toList (h : base.Rests stack) :
    stack.toList.take base.size = base.toList := by
  obtain ⟨above, habove⟩ := h
  rw [toList, habove, List.reverse_append, size, ← base.words.length_reverse,
    List.take_left]
  rfl

end Stack

/-! ## One step -/

namespace Effect

variable {machine : Machine} {console : Console} {next : Word} {opcode : Opcode}
  {operands : List Word} {after : Computer}

/-- The opcode is `ret` and goes to the word, or it is `pop`: then its register holds the word
afterwards, and the other registers hold what they did. -/
def Consumes (machine : Machine) (opcode : Opcode) (operands : List Word) (after : Machine)
    (word : Word) : Prop :=
  opcode = .ret ∧ operands = [] ∧ after.pc = word ∨
    opcode = .pop ∧ ∃ (name : Word) (register : Fin 8) (value : Literal), operands = [name] ∧
      name.Names register ∧ value.val = word.toNat ∧
      machine.registers.Receives register value after.registers

/-- A step that goes through leaves the stack alone, puts a word on it, or takes the top off and
makes use of it. -/
theorem stack_cases (h : Effect machine console next opcode operands .continued after) :
    after.machine.stack = machine.stack ∨
      (∃ word, after.machine.stack = machine.stack.push word) ∨
      ∃ word, machine.stack = after.machine.stack.push word ∧
        Consumes machine opcode operands after.machine word := by
  cases h with
  | set | compute | jmp | jt | jf | not | rmem | wmem | out | inp | noop => exact .inl rfl
  | push | call => exact .inr (.inl ⟨_, rfl⟩)
  | ret hstack => exact .inr (.inr ⟨_, Stack.eq_push_iff.mp hstack, .inl ⟨rfl, rfl, rfl⟩⟩)
  | pop ha hstack htop hr =>
    exact .inr (.inr ⟨_, Stack.eq_push_iff.mp hstack,
      .inr ⟨rfl, _, _, _, rfl, ha, htop.symm, hr⟩⟩)

variable {base : Stack}

/-- What rests at the bottom of a stack rests there behind a step as well, unless the stack has
become too short for it. -/
theorem rests (h : Effect machine console next opcode operands .continued after)
    (hbase : base.Rests machine.stack) (hsize : base.size ≤ after.machine.stack.size) :
    base.Rests after.machine.stack := by
  rcases h.stack_cases with hsame | ⟨word, hpush⟩ | ⟨word, hpop, -⟩
  · rwa [hsame]
  · rw [hpush]
    exact hbase.push word
  · rw [hpop] at hbase
    rcases hbase.of_push with hrests | rfl
    · exact hrests
    · rw [Stack.size_push] at hsize
      omega

/-- The step that makes a stack too short for what rested at its bottom takes off the word on top
of that, and leaves what was below. -/
theorem returns {back : Word} (h : Effect machine console next opcode operands .continued after)
    (hbase : (base.push back).Rests machine.stack) (hsize : after.machine.stack.size ≤ base.size) :
    after.machine.stack = base ∧ Consumes machine opcode operands after.machine back := by
  have hlonger : ¬ (base.push back).Rests after.machine.stack := by
    intro hrests
    have hle := hrests.size_le
    rw [Stack.size_push] at hle
    omega
  rcases h.stack_cases with hsame | ⟨word, hpush⟩ | ⟨word, hpop, hconsumes⟩
  · rw [← hsame] at hbase
    exact absurd hbase hlonger
  · rw [hpush] at hlonger
    exact absurd (hbase.push word) hlonger
  · rw [hpop] at hbase
    rcases hbase.of_push with hrests | heq
    · exact absurd hrests hlonger
    · obtain ⟨rfl, hwords⟩ := List.cons.inj (congrArg Stack.words heq)
      exact ⟨congrArg Stack.mk hwords.symm, hconsumes⟩

end Effect

/-! ## Many steps -/

namespace Computer

variable {computer called : Computer} {base : Stack} {steps : Nat}

/-- What rests at the bottom of a stack rests there behind any number of steps, as long as the stack
does not become too short for it. -/
theorem Continues.rests (h : computer.Continues steps) (hbase : base.Rests computer.machine.stack)
    (hsize : ∀ index ≤ steps, base.size ≤ (computer.stepTimes index).machine.stack.size) :
    base.Rests (computer.stepTimes steps).machine.stack := by
  induction steps with
  | zero => exact hbase
  | succ steps ih =>
    have hbefore := ih h.init fun index hle => hsize index (Nat.le_succ_of_le hle)
    have hstep := h.step_eq (Nat.lt_succ_self steps)
    obtain ⟨opcode, operands, next, -, heffect⟩ := exists_effect_of_continued hstep
    exact heffect.rests hbefore (hsize (steps + 1) (Nat.le_refl _))

/-- A `call` that goes through leaves the address behind it on top of the stack. -/
theorem stack_of_call (hstep : computer.step = (.continued, called))
    (hcall : computer.machine.opcodeAt? computer.machine.pc = some .call) :
    ∃ back : Word, back.toNat = computer.machine.pc.toNat + 2 ∧
      called.machine.stack = computer.machine.stack.push back := by
  obtain ⟨opcode, operands, next, hfaces, heffect⟩ := exists_effect_of_continued hstep
  have hopcode := Machine.opcodeAt?_of_decodeAt hfaces.decodeAt_eq
  obtain rfl : Opcode.call = opcode := Option.some.inj (hcall.symm.trans hopcode)
  cases heffect with
  | compute ha hb hc hz hr => cases hz
  | call ha htarget hnext => exact ⟨next, hfaces.next_eq, rfl⟩

/-- Subroutines return to where they were called from. Behind a `call` that goes through, as long as
the stack stays longer than it was in front of it, it begins with all that lay on it and the address
behind the `call`; and the first step that makes it as short again leaves exactly what lay on it.
That step is a `ret` to the address behind the `call`, or a `pop` behind which a register holds
this address and the other registers hold what they did. -/
theorem subroutine_returns (hstep : computer.step = (.continued, called))
    (hcall : computer.machine.opcodeAt? computer.machine.pc = some .call) :
    ∃ back : Word, back.toNat = computer.machine.pc.toNat + 2 ∧
      ∀ steps, called.Continues steps →
        (∀ index ≤ steps,
          computer.machine.stack.size < (called.stepTimes index).machine.stack.size) →
        (called.stepTimes steps).machine.stack.toList.take (computer.machine.stack.size + 1) =
            computer.machine.stack.toList ++ [back] ∧
          ∀ after, (called.stepTimes steps).step = (.continued, after) →
            after.machine.stack.size ≤ computer.machine.stack.size →
            after.machine.stack = computer.machine.stack ∧
              ((∃ next, (called.stepTimes steps).machine.Faces .ret [] next) ∧
                  after.machine.pc = back ∨
                ∃ (name next : Word) (register : Fin 8) (value : Literal),
                  (called.stepTimes steps).machine.Faces .pop [name] next ∧
                  name.Names register ∧ value.val = back.toNat ∧
                  (called.stepTimes steps).machine.registers.Receives register value
                    after.machine.registers) := by
  obtain ⟨back, hback, hstack⟩ := stack_of_call hstep hcall
  refine ⟨back, hback, fun steps hsteps hlonger => ?_⟩
  have hrests : (computer.machine.stack.push back).Rests (called.stepTimes steps).machine.stack :=
    hsteps.rests (by rw [hstack]; exact .refl _) hlonger
  refine ⟨hrests.take_toList.trans (Stack.toList_push _ _), fun after hlast hshort => ?_⟩
  obtain ⟨opcode, operands, next, hfaces, heffect⟩ := exists_effect_of_continued hlast
  obtain ⟨hafter, ⟨rfl, rfl, hpc⟩ | ⟨rfl, name, register, value, rfl, hname, hvalue, hr⟩⟩ :=
    heffect.returns hrests hshort
  · exact ⟨hafter, .inl ⟨⟨next, hfaces⟩, hpc⟩⟩
  · exact ⟨hafter, .inr ⟨name, next, register, value, hfaces, hname, hvalue, hr⟩⟩

/-- Calls the instruction behind the `call`, which pops the address it should return to. -/
def popReturn (pc : Word) (stack : Stack) : Machine where
  pc := pc
  registers := ⟨#v[0, 0, 0, 7, 0, 0, 0, 0]⟩
  stack := stack
  memory := .ofProgram ⟨[17, 2, 3, 32768], by decide, List.all_eq_true.mp rfl⟩
  halted := none

/-- A subroutine pops its return address instead of returning, and leaves the number that lay on the
stack. -/
theorem subroutine_returns_of_popReturn :
    ∃ after, step ⟨popReturn 0 ⟨[5]⟩, .ofInput []⟩ = (.continued, ⟨popReturn 2 ⟨[2, 5]⟩, .ofInput []⟩) ∧
      step ⟨popReturn 2 ⟨[2, 5]⟩, .ofInput []⟩ = (.continued, after) ∧
      after.machine.stack = ⟨[5]⟩ ∧
      after.machine.registers = ⟨#v[2, 0, 0, 7, 0, 0, 0, 0]⟩ := by
  have hfaces : (popReturn 0 ⟨[5]⟩).Faces .call [2] 2 :=
    Machine.faces_of_prefix rfl rfl ⟨[3, 32768], rfl⟩ rfl
  have hcalls : step ⟨popReturn 0 ⟨[5]⟩, .ofInput []⟩ =
      (.continued, ⟨popReturn 2 ⟨[2, 5]⟩, .ofInput []⟩) :=
    step_of_effect rfl hfaces (.call (x := 2) (.literal rfl) rfl (by decide))
  have hfaces' : (popReturn 2 ⟨[2, 5]⟩).Faces .pop [32768] 4 :=
    Machine.faces_of_prefix rfl rfl (List.prefix_refl _) rfl
  have hreceives : (popReturn 2 ⟨[2, 5]⟩).registers.Receives 0 2 ⟨#v[2, 0, 0, 7, 0, 0, 0, 0]⟩ :=
    ⟨rfl, by decide⟩
  have hpop : Effect (popReturn 2 ⟨[2, 5]⟩) (.ofInput []) 4 .pop [32768] .continued _ :=
    .pop (r := 0) rfl rfl rfl hreceives
  have hpops : step ⟨popReturn 2 ⟨[2, 5]⟩, .ofInput []⟩ = (.continued, _) :=
    step_of_effect rfl hfaces' hpop
  obtain ⟨back, -, hruns⟩ :=
    subroutine_returns hcalls (Machine.opcodeAt?_of_decodeAt hfaces.decodeAt_eq)
  have hlonger : ∀ index ≤ 0, Stack.size ⟨[5]⟩ <
      (stepTimes ⟨popReturn 2 ⟨[2, 5]⟩, .ofInput []⟩ index).machine.stack.size := by
    intro index hle
    obtain rfl := Nat.le_zero.mp hle
    exact Nat.lt_succ_self 1
  exact ⟨_, hcalls, hpops, ((hruns 0 nofun hlonger).2 _ hpops (Nat.le_refl 1)).1, rfl⟩

end Computer

end WordMachine
