import WordMachine.Proofs.Computer.Faulting

/-!
# What execution preserves

`Computer.IsSound` collects what every step relies on and keeps: the program counter is in memory
or behind its last cell, the stack holds literals, the cells of the program are written, and
nothing unprintable was printed. Each way to change a computer keeps it under a condition of its
own, and `IsSound.step` puts them together.
-/

namespace WordMachine

/-- The computer is in order, with a program of the given size at address zero. -/
structure Computer.IsSound (size : Nat) (computer : Computer) : Prop where
  pc_le : computer.machine.pc.toNat ≤ memorySize
  holdsLiterals : computer.machine.stack.HoldsLiterals
  isWritten : ∀ address < size, computer.machine.memory.isWritten address = true
  isPrintable : ∀ byte ∈ computer.console.output, Word.isPrintable byte.toUInt16 = true

/-- A cell that is written stays written. -/
theorem Memory.isWritten_put {memory : Memory} {address : Nat}
    (h : memory.isWritten address = true) (other : Nat) (word : ValidWord) :
    (memory.put other word).isWritten address = true := by
  unfold isWritten at h ⊢
  rw [word?_put]
  split
  · rfl
  · exact h

theorem Literal.toNat_toWord_le (value : Literal) : value.toWord.toNat ≤ memorySize := by
  rw [Literal.toNat_toWord, memorySize]
  omega

/-- Printing cuts nothing off a printable character. -/
theorem Word.toUInt16_toUInt8_of_isPrintable {word : Word} (h : word.isPrintable = true) :
    word.toUInt8.toUInt16 = word := by
  have hlt := lt_of_isPrintable h
  apply UInt16.toNat.inj
  rw [UInt8.toNat_toUInt16, UInt16.toNat_toUInt8]
  omega

namespace Computer

variable {size : Nat} {computer : Computer}

/-! ## One change -/

/-- A computer with a program loaded is in order. -/
theorem isSound_start (program : Program) (input : List UInt8) :
    (start program input).IsSound program.words.length where
  pc_le := Nat.zero_le _
  holdsLiterals := Stack.holdsLiterals_empty
  isWritten address haddress := by
    change (Memory.ofProgram program).isWritten address = true
    rw [Memory.isWritten, Memory.word?_ofProgram, List.getElem?_eq_getElem haddress]
    rfl
  isPrintable byte hbyte := by simp [start, Console.ofInput] at hbyte

namespace IsSound

variable (h : computer.IsSound size)

include h

/-- The machine may go anywhere in memory and behind its last cell. -/
theorem goTo {address : Word} (haddress : address.toNat ≤ memorySize) :
    (computer.goTo address).IsSound size where
  pc_le := haddress
  holdsLiterals := h.holdsLiterals
  isWritten := h.isWritten
  isPrintable := h.isPrintable

theorem assign (register : Fin 8) (value : Literal) :
    (computer.assign register value).IsSound size where
  pc_le := h.pc_le
  holdsLiterals := h.holdsLiterals
  isWritten := h.isWritten
  isPrintable := h.isPrintable

theorem push {word : Word} (hword : word.isLiteral = true) : (computer.push word).IsSound size where
  pc_le := h.pc_le
  holdsLiterals := h.holdsLiterals.push hword
  isWritten := h.isWritten
  isPrintable := h.isPrintable

theorem dropTop : computer.dropTop.IsSound size where
  pc_le := h.pc_le
  holdsLiterals := h.holdsLiterals.below
  isWritten := h.isWritten
  isPrintable := h.isPrintable

theorem store (address : Nat) (word : ValidWord) : (computer.store address word).IsSound size where
  pc_le := h.pc_le
  holdsLiterals := h.holdsLiterals
  isWritten other hother := Memory.isWritten_put (h.isWritten other hother) address word
  isPrintable := h.isPrintable

theorem print {byte : UInt8} (hbyte : Word.isPrintable byte.toUInt16 = true) :
    (computer.print byte).IsSound size where
  pc_le := h.pc_le
  holdsLiterals := h.holdsLiterals
  isWritten := h.isWritten
  isPrintable other hother := by
    rcases Array.mem_push.mp hother with hold | rfl
    · exact h.isPrintable other hold
    · exact hbyte

theorem dropInput : computer.dropInput.IsSound size where
  pc_le := h.pc_le
  holdsLiterals := h.holdsLiterals
  isWritten := h.isWritten
  isPrintable := by
    have houtput : computer.dropInput.console.output = computer.console.output := by
      unfold Computer.dropInput Console.read
      split <;> rfl
    rw [houtput]
    exact h.isPrintable

theorem halt {start : Word} (hstart : start.toNat ≤ memorySize) (halt : Halt) :
    (computer.halt start halt).IsSound size := by
  unfold Computer.halt
  split
  · exact ⟨hstart, h.holdsLiterals, h.isWritten, h.isPrintable⟩
  · exact ⟨h.pc_le, h.holdsLiterals, h.isWritten, h.isPrintable⟩

/-! ## One step -/

/-- Fetching an instruction keeps the computer in order. -/
theorem fetchInstruction {found : Except Fault Instruction} {machine : Machine}
    (hfetch : computer.machine.fetchInstruction = (found, machine)) :
    IsSound size ⟨machine, computer.console⟩ := by
  have hback := goTo_of_fetchInstruction hfetch
  have hpc := (Machine.moves_fetchInstruction computer.machine).2 h.pc_le
  rw [hfetch] at hpc
  rw [← hback] at h
  exact ⟨hpc, h.holdsLiterals, h.isWritten, h.isPrintable⟩

/-- Whatever an instruction resolves to keeps the computer in order. -/
theorem perform {action : Action} (hfits : action.Fits computer) :
    (action.perform computer).2.IsSound size := by
  cases action with
  | halt | emptyReturn | inputExhausted | noop => exact h
  | set register value | compute _ register _ _ value | load register _ value =>
    exact h.assign register value
  | complement register value => exact h.assign register value.complement
  | push value => exact h.push value.isLiteral_toWord
  | pop register top =>
    obtain ⟨value, hvalue⟩ := Literal.exists_of_isLiteral (h.holdsLiterals.top hfits)
    rw [Action.perform, hvalue]
    exact h.dropTop.assign register value
  | jump target => exact h.goTo target.toNat_toWord_le
  | jumpIfNonzero condition target =>
    rw [Action.perform]
    by_cases hzero : condition = 0
    · rwa [if_pos hzero]
    · rw [if_neg hzero]
      exact h.goTo target.toNat_toWord_le
  | jumpIfZero condition target =>
    rw [Action.perform]
    by_cases hzero : condition = 0
    · rw [if_pos hzero]
      exact h.goTo target.toNat_toWord_le
    · rwa [if_neg hzero]
  | store address value => exact h.store address.val value.toValid
  | call back target => exact (h.push hfits.2).goTo target.toNat_toWord_le
  | ret target =>
    have htarget := (Word.isLiteral_iff target).mp (h.holdsLiterals.top hfits)
    exact h.dropTop.goTo (Nat.le_of_lt htarget)
  | print value =>
    refine h.print ?_
    rw [Word.toUInt16_toUInt8_of_isPrintable hfits]
    exact hfits
  | input register byte => exact h.dropInput.assign register (.ofByte byte)

/-- A step keeps the computer in order. -/
theorem step {outcome : Outcome} {after : Computer} (hstep : computer.step = (outcome, after)) :
    after.IsSound size := by
  cases stepsTo_step h.holdsLiterals hstep with
  | stays hhalted => exact h
  | faultsFetching hrunning hfetch => exact h
  | faultsResolving hrunning hfetch hresolve => exact h
  | halts hrunning hfetch hresolve hperform => exact (h.fetchInstruction hfetch).halt h.pc_le _
  | continues hrunning hfetch hresolve hperform =>
    have hperformed := (h.fetchInstruction hfetch).perform (fits_resolve hresolve)
    rwa [hperform] at hperformed

end IsSound

end Computer

end WordMachine
