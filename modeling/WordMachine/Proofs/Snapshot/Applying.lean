import WordMachine.Proofs.Computer.Faulting
import WordMachine.Snapshot

/-!
# Applying snapshots

Which snapshots a machine takes, and what it is like behind them (`apply_eq_ok_iff`): the program
counter must lie in memory or behind its last cell, and registers and stack must be literals. A
snapshot of a machine in order is always taken (`apply_capture`).
-/

namespace WordMachine

/-- Words that are accepted as literals are the words of the literals. -/
theorem Literal.map_toWord_of_mapM {words : List Word} {values : List Literal}
    (h : words.mapM ofWord = .ok values) : words = values.map toWord := by
  induction words generalizing values with
  | nil =>
    obtain rfl := Except.ok.inj h
    rfl
  | cons word words ih =>
    rw [List.mapM_cons] at h
    obtain ⟨value, hvalue, h⟩ := exists_of_bind_eq_ok h
    obtain ⟨rest, hrest, h⟩ := exists_of_bind_eq_ok h
    obtain rfl := Except.ok.inj h
    rw [List.map_cons, ← toWord_of_ofWord hvalue, ← ih hrest]

/-- The words of a vector are taken one after the other, like those of its list. -/
theorem toList_mapM {m : Type → Type} [Monad m] [LawfulMonad m] {α β : Type} {n : Nat}
    (f : α → m β) (words : Vector α n) : Vector.toList <$> words.mapM f = words.toList.mapM f := by
  rw [Vector.toList, ← Array.toList_mapM, ← Vector.toArray_mapM, Functor.map_map]
  rfl

/-- Registers are accepted as words exactly if the words are theirs. -/
theorem Registers.ofWords_eq_ok_iff {words : Vector Word 8} {registers : Registers} :
    ofWords words = .ok registers ↔ words = registers.toWords := by
  constructor
  · intro h
    cases hvalues : words.mapM Literal.ofWord with
    | error fault =>
      rw [ofWords, hvalues] at h
      cases h
    | ok values =>
      rw [ofWords, hvalues] at h
      obtain rfl := Except.ok.inj h
      have hlist : words.toList.mapM Literal.ofWord = .ok values.toList := by
        rw [← toList_mapM, hvalues]
        rfl
      apply Vector.toList_inj.mp
      rw [toWords, Vector.toList_map]
      exact Literal.map_toWord_of_mapM hlist
  · rintro rfl
    have hliteral : Literal.ofWord ∘ Literal.toWord = fun value => .ok value := by
      funext value
      rw [Function.comp_apply, Literal.ofWord, Literal.ofWord?_toWord]
    rw [ofWords, toWords, Vector.mapM_map, hliteral]
    change Registers.mk <$> registers.values.mapM (fun value => pure (id value)) = _
    rw [Vector.mapM_pure, Vector.map_id]
    rfl

/-- A stack is accepted as words, bottom first, exactly if the words are its words and it holds
literals only. -/
theorem Stack.ofList_eq_ok_iff_holdsLiterals {words : List Word} {stack : Stack} :
    ofList words = .ok stack ↔ words = stack.toList ∧ stack.HoldsLiterals := by
  constructor
  · intro h
    exact ⟨(ofList_eq_ok_iff.mp h).1.symm, holdsLiterals_of_ofList h⟩
  · rintro ⟨rfl, hliterals⟩
    exact ofList_eq_ok_iff.mpr ⟨rfl, fun word hword => hliterals word (List.mem_reverse.mp hword)⟩

namespace Snapshot

/-- A machine takes a snapshot exactly if program counter, registers and stack are in order, and
then holds what the snapshot does and is in all else as before. -/
theorem apply_eq_ok_iff {snapshot : Snapshot} {machine after : Machine} :
    snapshot.apply machine = .ok after ↔
      snapshot.pc.toNat ≤ memorySize ∧ ∃ registers stack,
        snapshot.registers = registers.toWords ∧ snapshot.stack = stack.toList ∧
          stack.HoldsLiterals ∧ after = { machine with pc := snapshot.pc, registers, stack } := by
  rw [apply]
  constructor
  · intro h
    split at h
    · next hpc =>
      obtain ⟨registers, hregisters, h⟩ := exists_of_bind_eq_ok h
      obtain ⟨stack, hstack, h⟩ := exists_of_bind_eq_ok h
      obtain ⟨hwords, hliterals⟩ := Stack.ofList_eq_ok_iff_holdsLiterals.mp hstack
      exact ⟨(Word.isPc_iff _).mp hpc, registers, stack,
        Registers.ofWords_eq_ok_iff.mp hregisters, hwords, hliterals, (Except.ok.inj h).symm⟩
    · cases h
  · rintro ⟨hpc, registers, stack, hregisters, hwords, hliterals, rfl⟩
    rw [if_pos ((Word.isPc_iff _).mpr hpc), Registers.ofWords_eq_ok_iff.mpr hregisters,
      Stack.ofList_eq_ok_iff_holdsLiterals.mpr ⟨hwords, hliterals⟩]
    rfl

/-- A machine takes over what the snapshot of another one holds, if the other one's program counter
and stack are in order. -/
theorem apply_capture {machine : Machine} (hpc : machine.pc.toNat ≤ memorySize)
    (hstack : machine.stack.HoldsLiterals) (other : Machine) :
    (capture machine).apply other =
      .ok { other with
        pc := machine.pc, registers := machine.registers, stack := machine.stack } :=
  apply_eq_ok_iff.mpr ⟨hpc, machine.registers, machine.stack, rfl, rfl, hstack, rfl⟩

end Snapshot

end WordMachine
