import Mathlib.Data.List.Basic
import WordMachine.Proofs.Computer.Faulting

/-!
# Steps and the instruction table

A step looks up operands, checks them and makes an action happen. Read from front to back, a step
that does not fault is a row of the table for the instruction at the program counter
(`exists_effect_of_step`); read from back to front, every row is what a step comes to
(`step_of_effect`). Together the table says exactly what steps do, apart from faults
(`step_iff_effect`).
-/

namespace WordMachine

/-! ## Looking up operands -/

theorem Word.names_iff {word : Word} {register : Fin 8} :
    word.Names register ↔ word = (Operand.register register).toWord := by
  rw [Names, ← Operand.toNat_toWord_register, UInt16.toNat_inj]

theorem Word.Names.isRegister {word : Word} {register : Fin 8} (h : word.Names register) :
    word.isRegister = true := by
  rw [Names] at h
  rw [Word.isRegister_iff]
  omega

/-- The word of a literal is the one with the number of the literal. -/
theorem Literal.eq_toWord_iff {word : Word} {value : Literal} :
    word = value.toWord ↔ word.toNat = value.val := by
  rw [← UInt16.toNat_inj, toNat_toWord]

/-- A destination is the register that the word names. -/
theorem Operand.destination_eq_ok_iff {word : Word} {register : Fin 8} :
    destination word = .ok register ↔ word.Names register := by
  rw [Word.names_iff]
  constructor
  · intro h
    unfold destination at h
    split at h
    · next index hdecode =>
      obtain rfl := Except.ok.inj h
      exact decode_eq_ok_iff.mp hdecode
    · cases h
    · cases h
  · rintro rfl
    rw [destination, decode_toWord]

/-- The number that is looked up for an operand is the one it stands for. -/
theorem Registers.value_eq_ok_iff {registers : Registers} {word : Word} {value : Literal} :
    registers.value word = .ok value ↔ registers.Denotes word value := by
  constructor
  · intro h
    unfold Registers.value at h
    split at h
    · next operand hdecode =>
      obtain rfl := Except.ok.inj h
      obtain rfl := Operand.decode_eq_ok_iff.mp hdecode
      cases operand with
      | literal value => exact .literal value.toNat_toWord
      | register index => exact .register (Word.names_iff.mpr rfl) rfl
    · cases h
  · intro h
    cases h with
    | literal hword =>
      have hliteral : word = (Operand.literal value).toWord := Literal.eq_toWord_iff.mpr hword
      rw [Registers.value, hliteral, Operand.decode_toWord]
      rfl
    | register hword hvalue =>
      rw [Registers.value, Word.names_iff.mp hword, Operand.decode_toWord]
      exact congrArg Except.ok hvalue

/-- A literal stands for itself. -/
theorem Registers.Denotes.eq_toWord {registers : Registers} {word : Word} {value : Literal}
    (h : registers.Denotes word value) (hliteral : word.isLiteral = true) :
    word = value.toWord := by
  cases h with
  | literal hword => exact Literal.eq_toWord_iff.mpr hword
  | register hword hvalue =>
    rw [Word.not_isLiteral_of_isRegister hword.isRegister] at hliteral
    cases hliteral

/-- The opcode of an operation. -/
def Operation.opcode : Operation → Opcode
  | eq => .eq
  | gt => .gt
  | add => .add
  | mult => .mult
  | mod => .mod
  | and => .and
  | or => .or

/-- Operations on literals give the numbers of the table. -/
theorem Operation.apply_eq_ok_iff {operation : Operation} {x y z : Literal} :
    operation.apply x y = .ok z ↔ operation.opcode.compute? x.val y.val = some z.val := by
  have htruth : ∀ (p : Prop) [Decidable p],
      (if p then 1 else 0 : Literal).val = if p then 1 else 0 := by
    intro p _
    split <;> rfl
  cases operation with
  | eq =>
    simp only [apply, opcode, Opcode.compute?, Except.ok.injEq, Option.some.injEq, Fin.ext_iff,
      htruth]
  | gt =>
    simp only [apply, opcode, Opcode.compute?, Except.ok.injEq, Option.some.injEq, Fin.ext_iff,
      htruth, Fin.lt_def]
  | add =>
    simp only [apply, opcode, Opcode.compute?, Except.ok.injEq, Option.some.injEq, Fin.ext_iff,
      Fin.val_add]
  | mult =>
    simp only [apply, opcode, Opcode.compute?, Except.ok.injEq, Option.some.injEq, Fin.ext_iff,
      Fin.val_mul]
  | mod =>
    have hzero : y = 0 ↔ y.val = 0 := Fin.ext_iff
    simp only [apply, opcode, Opcode.compute?, hzero]
    split <;> simp [Fin.ext_iff]
  | and =>
    have hlt : x.val &&& y.val < 32768 := Nat.lt_of_le_of_lt Nat.and_le_left x.isLt
    have hval : (x &&& y).val = (x.val &&& y.val) % 32768 := rfl
    rw [Nat.mod_eq_of_lt hlt] at hval
    simp only [apply, opcode, Opcode.compute?, Except.ok.injEq, Option.some.injEq, Fin.ext_iff,
      hval]
  | or =>
    have hlt : x.val ||| y.val < 32768 := Nat.or_lt_two_pow (n := 15) x.isLt y.isLt
    have hval : (x ||| y).val = (x.val ||| y.val) % 32768 := rfl
    rw [Nat.mod_eq_of_lt hlt] at hval
    simp only [apply, opcode, Opcode.compute?, Except.ok.injEq, Option.some.injEq, Fin.ext_iff,
      hval]

/-- An opcode that computes something is that of an operation. -/
theorem Opcode.exists_operation {opcode : Opcode} {x y z : Nat}
    (h : opcode.compute? x y = some z) : ∃ operation : Operation, operation.opcode = opcode := by
  cases opcode with
  | eq => exact ⟨.eq, rfl⟩
  | gt => exact ⟨.gt, rfl⟩
  | add => exact ⟨.add, rfl⟩
  | mult => exact ⟨.mult, rfl⟩
  | mod => exact ⟨.mod, rfl⟩
  | and => exact ⟨.and, rfl⟩
  | or => exact ⟨.or, rfl⟩
  | _ => cases h

/-! ## Executing an instruction -/

/-- A stack with a word on top is that word and the words below. -/
theorem Stack.top?_eq_some_iff {stack : Stack} {word : Word} :
    stack.top? = some word ↔ stack.words = word :: stack.below.words := by
  obtain ⟨words⟩ := stack
  cases words <;> simp [top?, below]

/-- The stack that a list of words is taken off the top of. -/
theorem Stack.eq_push_iff {stack : Stack} {word : Word} {below : List Word} :
    stack.words = word :: below ↔ stack = push ⟨below⟩ word := by
  rw [push, ← mk.injEq]

theorem Stack.top?_eq_none_iff {stack : Stack} : stack.top? = none ↔ stack.words = [] :=
  List.head?_eq_none_iff

namespace Action

variable {machine : Machine} {console : Console} {next : Word} {x y : Literal}

theorem perform_jumpIfNonzero :
    (jumpIfNonzero x y).perform ⟨{ machine with pc := next }, console⟩ =
      (.continued, ⟨{ machine with pc := if x = 0 then next else y.toWord }, console⟩) := by
  rw [perform]
  split <;> rfl

theorem perform_jumpIfZero :
    (jumpIfZero x y).perform ⟨{ machine with pc := next }, console⟩ =
      (.continued, ⟨{ machine with pc := if x = 0 then y.toWord else next }, console⟩) := by
  rw [perform]
  split <;> rfl

/-- A literal on top of the stack can be popped. -/
theorem perform_pop {register : Fin 8} :
    (pop register x.toWord).perform ⟨{ machine with pc := next }, console⟩ =
      (.continued, ⟨{ machine with
        pc := next, registers := machine.registers.assign register x,
        stack := machine.stack.below }, console⟩) := by
  rw [perform, Literal.ofWord, Literal.ofWord?_toWord]
  rfl

/-- The byte that is printed has the value of the number. -/
theorem toNat_printed (hprintable : x.toWord.isPrintable = true) :
    x.toWord.toUInt8.toNat = x.val := by
  have hlt := Word.lt_of_isPrintable hprintable
  rw [Literal.toNat_toWord] at hlt
  rw [UInt16.toNat_toUInt8, Literal.toNat_toWord]
  omega

end Action

namespace Computer

variable {machine : Machine} {console : Console} {next : Word} {opcode : Opcode}
  {operands : List Word} {outcome : Outcome} {executed : Computer}

/-- The row of an operation. -/
theorem effect_of_resolveOperation {operation : Operation} {action : Action} {a b c : Word}
    (hresolve : resolveOperation ⟨{ machine with pc := next }, console⟩ operation #v[a, b, c] =
      .ok action)
    (hperform : action.perform ⟨{ machine with pc := next }, console⟩ = (outcome, executed)) :
    Effect machine console next operation.opcode [a, b, c] outcome
      (outcome.settle machine.pc executed) := by
  obtain ⟨register, hregister, h⟩ := exists_of_bind_eq_ok hresolve
  obtain ⟨x, hx, h⟩ := exists_of_bind_eq_ok h
  obtain ⟨y, hy, h⟩ := exists_of_bind_eq_ok h
  obtain ⟨z, hz, h⟩ := exists_of_bind_eq_ok h
  obtain rfl := Except.ok.inj h
  obtain ⟨rfl, rfl⟩ := Prod.mk.inj hperform
  exact .compute (Operand.destination_eq_ok_iff.mp hregister) (Registers.value_eq_ok_iff.mp hx)
    (Registers.value_eq_ok_iff.mp hy) (Operation.apply_eq_ok_iff.mp hz)
    (Registers.receives_assign _ _ _)

/-- An action that an instruction resolves to, and that does not fault, is a row of the table. -/
theorem effect_of_resolve {action : Action} {hlength : operands.length = opcode.arity}
    (hresolve : resolve ⟨{ machine with pc := next }, console⟩
      (.ofOperands opcode operands hlength) = .ok action)
    (hperform : action.perform ⟨{ machine with pc := next }, console⟩ = (outcome, executed))
    (hgoes : ∀ fault, outcome ≠ .faulted fault) :
    Effect machine console next opcode operands outcome (outcome.settle machine.pc executed) := by
  cases opcode with
  | halt =>
    obtain rfl := List.eq_nil_of_length_eq_zero hlength
    obtain rfl := Except.ok.inj hresolve
    obtain ⟨rfl, rfl⟩ := Prod.mk.inj hperform
    exact .halt
  | set =>
    obtain ⟨a, b, rfl⟩ := List.length_eq_two.mp hlength
    obtain ⟨register, hregister, h⟩ := exists_of_bind_eq_ok hresolve
    obtain ⟨x, hx, h⟩ := exists_of_bind_eq_ok h
    obtain rfl := Except.ok.inj h
    obtain ⟨rfl, rfl⟩ := Prod.mk.inj hperform
    exact .set (Operand.destination_eq_ok_iff.mp hregister) (Registers.value_eq_ok_iff.mp hx)
      (Registers.receives_assign _ _ _)
  | push =>
    obtain ⟨a, rfl⟩ := List.length_eq_one_iff.mp hlength
    obtain ⟨x, hx, h⟩ := exists_of_bind_eq_ok hresolve
    obtain rfl := Except.ok.inj h
    obtain ⟨rfl, rfl⟩ := Prod.mk.inj hperform
    exact .push (Registers.value_eq_ok_iff.mp hx) x.toNat_toWord
  | pop =>
    obtain ⟨a, rfl⟩ := List.length_eq_one_iff.mp hlength
    have hfits := fits_resolve hresolve
    obtain ⟨register, hregister, h⟩ := exists_of_bind_eq_ok hresolve
    obtain ⟨⟨top, below⟩, hpop, h⟩ := exists_of_bind_eq_ok h
    obtain rfl := Except.ok.inj h
    cases hvalue : Literal.ofWord top with
    | error fault =>
      rw [Action.perform, hvalue] at hperform
      exact absurd (Prod.mk.inj hperform).1.symm (hgoes fault)
    | ok x =>
      obtain rfl := Literal.toWord_of_ofWord hvalue
      rw [Action.perform_pop] at hperform
      obtain ⟨rfl, rfl⟩ := Prod.mk.inj hperform
      exact .pop (Operand.destination_eq_ok_iff.mp hregister) (Stack.top?_eq_some_iff.mp hfits)
        x.toNat_toWord (Registers.receives_assign _ _ _)
  | eq | gt | add | mult | mod | and | or =>
    obtain ⟨a, b, c, rfl⟩ := List.length_eq_three.mp hlength
    exact effect_of_resolveOperation hresolve hperform
  | jmp =>
    obtain ⟨a, rfl⟩ := List.length_eq_one_iff.mp hlength
    obtain ⟨x, hx, h⟩ := exists_of_bind_eq_ok hresolve
    obtain rfl := Except.ok.inj h
    obtain ⟨rfl, rfl⟩ := Prod.mk.inj hperform
    exact .jmp (Registers.value_eq_ok_iff.mp hx) x.toNat_toWord
  | jt =>
    obtain ⟨a, b, rfl⟩ := List.length_eq_two.mp hlength
    obtain ⟨x, hx, h⟩ := exists_of_bind_eq_ok hresolve
    obtain ⟨y, hy, h⟩ := exists_of_bind_eq_ok h
    obtain rfl := Except.ok.inj h
    rw [Action.perform_jumpIfNonzero] at hperform
    obtain ⟨rfl, rfl⟩ := Prod.mk.inj hperform
    exact .jt (Registers.value_eq_ok_iff.mp hx) (Registers.value_eq_ok_iff.mp hy) y.toNat_toWord
  | jf =>
    obtain ⟨a, b, rfl⟩ := List.length_eq_two.mp hlength
    obtain ⟨x, hx, h⟩ := exists_of_bind_eq_ok hresolve
    obtain ⟨y, hy, h⟩ := exists_of_bind_eq_ok h
    obtain rfl := Except.ok.inj h
    rw [Action.perform_jumpIfZero] at hperform
    obtain ⟨rfl, rfl⟩ := Prod.mk.inj hperform
    exact .jf (Registers.value_eq_ok_iff.mp hx) (Registers.value_eq_ok_iff.mp hy) y.toNat_toWord
  | not =>
    obtain ⟨a, b, rfl⟩ := List.length_eq_two.mp hlength
    obtain ⟨register, hregister, h⟩ := exists_of_bind_eq_ok hresolve
    obtain ⟨x, hx, h⟩ := exists_of_bind_eq_ok h
    obtain rfl := Except.ok.inj h
    obtain ⟨rfl, rfl⟩ := Prod.mk.inj hperform
    exact .not (Operand.destination_eq_ok_iff.mp hregister) (Registers.value_eq_ok_iff.mp hx) rfl
      (Registers.receives_assign _ _ _)
  | rmem =>
    obtain ⟨a, b, rfl⟩ := List.length_eq_two.mp hlength
    obtain ⟨register, hregister, h⟩ := exists_of_bind_eq_ok hresolve
    obtain ⟨x, hx, h⟩ := exists_of_bind_eq_ok h
    obtain ⟨word, hword, h⟩ := exists_of_bind_eq_ok h
    obtain ⟨z, hz, h⟩ := exists_of_bind_eq_ok h
    obtain rfl := Except.ok.inj h
    obtain rfl := Literal.toWord_of_ofWord hz
    obtain ⟨rfl, rfl⟩ := Prod.mk.inj hperform
    exact .rmem (Operand.destination_eq_ok_iff.mp hregister) (Registers.value_eq_ok_iff.mp hx)
      (Memory.read_eq_ok_iff.mp hword) z.toNat_toWord (Registers.receives_assign _ _ _)
  | wmem =>
    obtain ⟨a, b, rfl⟩ := List.length_eq_two.mp hlength
    obtain ⟨x, hx, h⟩ := exists_of_bind_eq_ok hresolve
    obtain ⟨y, hy, h⟩ := exists_of_bind_eq_ok h
    obtain rfl := Except.ok.inj h
    obtain ⟨rfl, rfl⟩ := Prod.mk.inj hperform
    exact .wmem (Registers.value_eq_ok_iff.mp hx) (Registers.value_eq_ok_iff.mp hy) y.toNat_toWord
      (Memory.receives_put _ y.toValid x.isLt)
  | call =>
    obtain ⟨a, rfl⟩ := List.length_eq_one_iff.mp hlength
    obtain ⟨x, hx, h⟩ := exists_of_bind_eq_ok hresolve
    split at h
    · next hliteral =>
      obtain rfl := Except.ok.inj h
      obtain ⟨rfl, rfl⟩ := Prod.mk.inj hperform
      exact .call (Registers.value_eq_ok_iff.mp hx) x.toNat_toWord
        ((Word.isLiteral_iff next).mp hliteral)
    · cases h
  | ret =>
    obtain rfl := List.eq_nil_of_length_eq_zero hlength
    have hfits := fits_resolve hresolve
    obtain rfl := Except.ok.inj hresolve
    cases htop : machine.stack.top? with
    | none =>
      simp only [htop] at hperform
      obtain ⟨rfl, rfl⟩ := Prod.mk.inj hperform
      exact .emptyReturn (Stack.top?_eq_none_iff.mp htop)
    | some target =>
      simp only [htop] at hperform
      obtain ⟨rfl, rfl⟩ := Prod.mk.inj hperform
      exact .ret (Stack.top?_eq_some_iff.mp htop)
  | out =>
    obtain ⟨a, rfl⟩ := List.length_eq_one_iff.mp hlength
    obtain ⟨x, hx, h⟩ := exists_of_bind_eq_ok hresolve
    split at h
    · next hprintable =>
      obtain rfl := Except.ok.inj h
      obtain ⟨rfl, rfl⟩ := Prod.mk.inj hperform
      have hcode := (Word.isPrintable_iff _).mp hprintable
      rw [Literal.toNat_toWord] at hcode
      exact .out (Registers.value_eq_ok_iff.mp hx) hcode (Action.toNat_printed hprintable)
    · cases h
  | inp =>
    obtain ⟨a, rfl⟩ := List.length_eq_one_iff.mp hlength
    obtain ⟨register, hregister, h⟩ := exists_of_bind_eq_ok hresolve
    have hnames := Operand.destination_eq_ok_iff.mp hregister
    obtain rfl := Except.ok.inj h
    obtain ⟨input, output⟩ := console
    cases input with
    | nil =>
      obtain ⟨rfl, rfl⟩ := Prod.mk.inj hperform
      exact .inputExhausted hnames rfl
    | cons byte rest =>
      obtain ⟨rfl, rfl⟩ := Prod.mk.inj hperform
      exact .inp hnames rfl rfl (Registers.receives_assign _ _ _)
  | noop =>
    obtain rfl := List.eq_nil_of_length_eq_zero hlength
    obtain rfl := Except.ok.inj hresolve
    obtain ⟨rfl, rfl⟩ := Prod.mk.inj hperform
    exact .noop

/-- An instruction with the opcode of an operation is resolved as the operation. -/
theorem resolve_operation (computer : Computer) (operation : Operation) (a b c : Word)
    (hlength : [a, b, c].length = operation.opcode.arity) :
    computer.resolve (.ofOperands operation.opcode [a, b, c] hlength) =
      computer.resolveOperation operation #v[a, b, c] := by
  cases operation <;> rfl

/-- Every row of the table is what an execution comes to. -/
theorem execute_of_effect {after : Computer} (hlength : operands.length = opcode.arity)
    (h : Effect machine console next opcode operands outcome after) :
    ∃ executed, execute ⟨{ machine with pc := next }, console⟩
      (.ofOperands opcode operands hlength) = (outcome, executed) ∧
        outcome.settle machine.pc executed = after := by
  cases h with
  | halt => exact ⟨_, rfl, rfl⟩
  | @set a b r x _ ha hb hr =>
    obtain rfl := Registers.receives_iff.mp hr
    have hresolve : resolve ⟨{ machine with pc := next }, console⟩
        (.ofOperands .set [a, b] hlength) = .ok (.set r x) :=
      (bind_of_eq_ok (Operand.destination_eq_ok_iff.mpr ha)).trans
        (bind_of_eq_ok (Registers.value_eq_ok_iff.mpr hb))
    exact ⟨_, execute_of_resolve hresolve, rfl⟩
  | @push a _ x ha hword =>
    obtain rfl := Literal.eq_toWord_iff.mpr hword
    have hresolve : resolve ⟨{ machine with pc := next }, console⟩
        (.ofOperands .push [a] hlength) = .ok (.push x) :=
      bind_of_eq_ok (Registers.value_eq_ok_iff.mpr ha)
    exact ⟨_, execute_of_resolve hresolve, rfl⟩
  | @pop a _ r x below _ ha hstack htop hr =>
    obtain rfl := Literal.eq_toWord_iff.mpr htop
    obtain rfl := Registers.receives_iff.mp hr
    rw [Stack.eq_push_iff] at hstack
    have hresolve : resolve ⟨{ machine with pc := next }, console⟩
        (.ofOperands .pop [a] hlength) = .ok (.pop r x.toWord) := by
      refine (bind_of_eq_ok (Operand.destination_eq_ok_iff.mpr ha)).trans ?_
      exact bind_of_eq_ok (hstack ▸ Stack.pop_push ⟨below⟩ x.toWord)
    have hbelow : machine.stack.below = ⟨below⟩ := by rw [hstack, Stack.below_push]
    refine ⟨_, (execute_of_resolve hresolve).trans Action.perform_pop, ?_⟩
    rw [hbelow]
    rfl
  | @compute _ a b c r x y z _ ha hb hc hz hr =>
    obtain rfl := Registers.receives_iff.mp hr
    obtain ⟨operation, rfl⟩ := Opcode.exists_operation hz
    have hresolve : resolve ⟨{ machine with pc := next }, console⟩
        (.ofOperands operation.opcode [a, b, c] hlength) = .ok (.compute operation r x y z) := by
      rw [resolve_operation]
      refine (bind_of_eq_ok (Operand.destination_eq_ok_iff.mpr ha)).trans ?_
      refine (bind_of_eq_ok (Registers.value_eq_ok_iff.mpr hb)).trans ?_
      refine (bind_of_eq_ok (Registers.value_eq_ok_iff.mpr hc)).trans ?_
      exact bind_of_eq_ok (Operation.apply_eq_ok_iff.mpr hz)
    exact ⟨_, execute_of_resolve hresolve, rfl⟩
  | @jmp a _ x ha htarget =>
    obtain rfl := Literal.eq_toWord_iff.mpr htarget
    have hresolve : resolve ⟨{ machine with pc := next }, console⟩
        (.ofOperands .jmp [a] hlength) = .ok (.jump x) :=
      bind_of_eq_ok (Registers.value_eq_ok_iff.mpr ha)
    exact ⟨_, execute_of_resolve hresolve, rfl⟩
  | @jt a b _ x y ha hb htarget =>
    obtain rfl := Literal.eq_toWord_iff.mpr htarget
    have hresolve : resolve ⟨{ machine with pc := next }, console⟩
        (.ofOperands .jt [a, b] hlength) = .ok (.jumpIfNonzero x y) :=
      (bind_of_eq_ok (Registers.value_eq_ok_iff.mpr ha)).trans
        (bind_of_eq_ok (Registers.value_eq_ok_iff.mpr hb))
    exact ⟨_, (execute_of_resolve hresolve).trans Action.perform_jumpIfNonzero, rfl⟩
  | @jf a b _ x y ha hb htarget =>
    obtain rfl := Literal.eq_toWord_iff.mpr htarget
    have hresolve : resolve ⟨{ machine with pc := next }, console⟩
        (.ofOperands .jf [a, b] hlength) = .ok (.jumpIfZero x y) :=
      (bind_of_eq_ok (Registers.value_eq_ok_iff.mpr ha)).trans
        (bind_of_eq_ok (Registers.value_eq_ok_iff.mpr hb))
    exact ⟨_, (execute_of_resolve hresolve).trans Action.perform_jumpIfZero, rfl⟩
  | @not a b r x z _ ha hb hz hr =>
    obtain rfl := Registers.receives_iff.mp hr
    have hresolve : resolve ⟨{ machine with pc := next }, console⟩
        (.ofOperands .not [a, b] hlength) = .ok (.complement r x) :=
      (bind_of_eq_ok (Operand.destination_eq_ok_iff.mpr ha)).trans
        (bind_of_eq_ok (Registers.value_eq_ok_iff.mpr hb))
    obtain rfl : x.complement = z := Fin.ext hz.symm
    exact ⟨_, execute_of_resolve hresolve, rfl⟩
  | @rmem a b _ r x z _ ha hb hcell hword hr =>
    obtain rfl := Literal.eq_toWord_iff.mpr hword
    obtain rfl := Registers.receives_iff.mp hr
    have hresolve : resolve ⟨{ machine with pc := next }, console⟩
        (.ofOperands .rmem [a, b] hlength) = .ok (.load r x z) := by
      refine (bind_of_eq_ok (Operand.destination_eq_ok_iff.mpr ha)).trans ?_
      refine (bind_of_eq_ok (Registers.value_eq_ok_iff.mpr hb)).trans ?_
      refine (bind_of_eq_ok (Memory.read_eq_ok_iff.mpr hcell)).trans ?_
      exact bind_of_eq_ok (by rw [Literal.ofWord, Literal.ofWord?_toWord])
    exact ⟨_, execute_of_resolve hresolve, rfl⟩
  | @wmem a b _ x y _ ha hb hword hcell =>
    obtain rfl := Literal.eq_toWord_iff.mpr hword
    obtain rfl : _ = machine.memory.put x.val y.toValid := (Memory.receives_iff x.isLt).mp hcell
    have hresolve : resolve ⟨{ machine with pc := next }, console⟩
        (.ofOperands .wmem [a, b] hlength) = .ok (.store x y) :=
      (bind_of_eq_ok (Registers.value_eq_ok_iff.mpr ha)).trans
        (bind_of_eq_ok (Registers.value_eq_ok_iff.mpr hb))
    exact ⟨_, execute_of_resolve hresolve, rfl⟩
  | @call a _ x ha htarget hnext =>
    obtain rfl := Literal.eq_toWord_iff.mpr htarget
    have hresolve : resolve ⟨{ machine with pc := next }, console⟩
        (.ofOperands .call [a] hlength) = .ok (.call next x) :=
      (bind_of_eq_ok (Registers.value_eq_ok_iff.mpr ha)).trans
        (if_pos ((Word.isLiteral_iff next).mpr hnext))
    exact ⟨_, execute_of_resolve hresolve, rfl⟩
  | @ret target below hstack =>
    rw [Stack.eq_push_iff] at hstack
    have hresolve : resolve ⟨{ machine with pc := next }, console⟩
        (.ofOperands .ret [] hlength) = .ok (.ret target) := by
      simp only [resolve, Instruction.ofOperands, hstack, Stack.top?_push]
      rfl
    have hbelow : machine.stack.below = ⟨below⟩ := by rw [hstack, Stack.below_push]
    refine ⟨_, execute_of_resolve hresolve, ?_⟩
    rw [← hbelow]
    rfl
  | emptyReturn hstack =>
    have hresolve : resolve ⟨{ machine with pc := next }, console⟩
        (.ofOperands .ret [] hlength) = .ok .emptyReturn := by
      simp only [resolve, Instruction.ofOperands, Stack.top?_eq_none_iff.mpr hstack]
      rfl
    exact ⟨_, execute_of_resolve hresolve, rfl⟩
  | @out a x byte ha hcode hbyte =>
    have hprintable : x.toWord.isPrintable = true := by
      rwa [Word.isPrintable_iff, Literal.toNat_toWord]
    have hresolve : resolve ⟨{ machine with pc := next }, console⟩
        (.ofOperands .out [a] hlength) = .ok (.print x) :=
      (bind_of_eq_ok (Registers.value_eq_ok_iff.mpr ha)).trans (if_pos hprintable)
    obtain rfl : x.toWord.toUInt8 = byte :=
      UInt8.toNat.inj ((Action.toNat_printed hprintable).trans hbyte.symm)
    exact ⟨_, execute_of_resolve hresolve, rfl⟩
  | @inp a r x byte rest _ ha hinput hbyte hr =>
    obtain rfl := Registers.receives_iff.mp hr
    obtain ⟨input, output⟩ := console
    obtain rfl : input = byte :: rest := hinput
    have hresolve : resolve ⟨{ machine with pc := next }, ⟨byte :: rest, output⟩⟩
        (.ofOperands .inp [a] hlength) = .ok (.input r byte) :=
      bind_of_eq_ok (Operand.destination_eq_ok_iff.mpr ha)
    obtain rfl : Literal.ofByte byte = x := Fin.ext hbyte
    exact ⟨_, execute_of_resolve hresolve, rfl⟩
  | @inputExhausted a r ha hinput =>
    obtain ⟨input, output⟩ := console
    obtain rfl : input = [] := hinput
    have hresolve : resolve ⟨{ machine with pc := next }, ⟨[], output⟩⟩
        (.ofOperands .inp [a] hlength) = .ok (.inputExhausted r) :=
      bind_of_eq_ok (Operand.destination_eq_ok_iff.mpr ha)
    exact ⟨_, execute_of_resolve hresolve, rfl⟩
  | noop => exact ⟨_, rfl, rfl⟩

end Computer

/-! ## Stepping -/

namespace Computer

variable {computer after : Computer} {outcome : Outcome}

/-- A step that does not fault is a row of the table, for the instruction at the program counter. -/
theorem exists_effect_of_step (hrunning : computer.machine.halted = none)
    (hstep : computer.step = (outcome, after)) (hgoes : ∀ fault, outcome ≠ .faulted fault) :
    ∃ opcode operands next, computer.machine.Faces opcode operands next ∧
      Effect computer.machine computer.console next opcode operands outcome after := by
  rcases hfetch : computer.machine.fetchInstruction with ⟨fault | instruction, fetched⟩
  · have hfaults := congrArg Prod.fst (step_of_fetchInstruction_eq_error hrunning hfetch)
    rw [hstep] at hfaults
    exact absurd hfaults (hgoes fault)
  · obtain ⟨hfetched, hfaces⟩ := Machine.faces_of_fetchInstruction hfetch
    refine ⟨instruction.opcode, instruction.operands.toList, fetched.pc, hfaces, ?_⟩
    rcases hexecute : execute ⟨fetched, computer.console⟩ instruction with ⟨ended, executed⟩
    rw [step_of_fetchInstruction hrunning hfetch hexecute] at hstep
    obtain ⟨rfl, rfl⟩ := Prod.mk.inj hstep
    rw [hfetched] at hexecute
    cases hresolve : resolve ⟨{ computer.machine with pc := fetched.pc }, computer.console⟩
        instruction with
    | error fault =>
      rw [execute_of_resolve_eq_error hresolve] at hexecute
      exact absurd (Prod.mk.inj hexecute).1.symm (hgoes fault)
    | ok action =>
      rw [execute_of_resolve hresolve] at hexecute
      exact effect_of_resolve hresolve hexecute hgoes

/-- Every row of the table for the instruction at the program counter is what a step comes to. -/
theorem step_of_effect {opcode : Opcode} {operands : List Word} {next : Word}
    (hrunning : computer.machine.halted = none)
    (hfaces : computer.machine.Faces opcode operands next)
    (heffect : Effect computer.machine computer.console next opcode operands outcome after) :
    computer.step = (outcome, after) := by
  obtain ⟨hlength, hfetch⟩ := Machine.faces_iff.mp hfaces
  obtain ⟨executed, hexecute, rfl⟩ := execute_of_effect hlength heffect
  exact step_of_fetchInstruction hrunning hfetch hexecute

/-- Steps follow the instruction table. A step of a running machine that does not fault comes to
what the table says of the instruction at the program counter, and whatever the table says there is
what the step comes to. -/
theorem step_iff_effect (hrunning : computer.machine.halted = none)
    (hgoes : ∀ fault, outcome ≠ .faulted fault) :
    computer.step = (outcome, after) ↔
      ∃ opcode operands next, computer.machine.Faces opcode operands next ∧
        Effect computer.machine computer.console next opcode operands outcome after := by
  constructor
  · intro hstep
    exact exists_effect_of_step hrunning hstep hgoes
  · rintro ⟨opcode, operands, next, hfaces, heffect⟩
    exact step_of_effect hrunning hfaces heffect

/-- Stands in front of `add r0 r0 2`, with the largest number in `r0`. -/
def overflowing : Machine where
  pc := 1
  registers := ⟨#v[32767, 0, 0, 0, 0, 0, 0, 6]⟩
  stack := ⟨[5]⟩
  memory := .ofProgram ⟨[21, 9, 32768, 32768, 2], by decide, List.all_eq_true.mp rfl⟩
  halted := none

/-- A sum wraps around, also where it goes to a register that it is taken from. -/
theorem step_iff_effect_of_overflowing :
    step ⟨overflowing, .ofInput [65]⟩ =
      (.continued, ⟨{ overflowing with pc := 5, registers := ⟨#v[1, 0, 0, 0, 0, 0, 0, 6]⟩ },
        .ofInput [65]⟩) := by
  have hfaces : overflowing.Faces .add [32768, 32768, 2] 5 :=
    Machine.faces_of_prefix rfl rfl (List.prefix_refl _) rfl
  have hregister : Word.Names 32768 0 := rfl
  have hreceives : overflowing.registers.Receives 0 1 ⟨#v[1, 0, 0, 0, 0, 0, 0, 6]⟩ :=
    ⟨rfl, by decide⟩
  have hgoes : ∀ fault, Outcome.continued ≠ .faulted fault := by simp
  exact (step_iff_effect rfl hgoes).mpr ⟨.add, [32768, 32768, 2], 5, hfaces,
    .compute (x := 32767) (y := 2) hregister (.register hregister rfl) (.literal rfl) rfl hreceives⟩

end Computer

end WordMachine
