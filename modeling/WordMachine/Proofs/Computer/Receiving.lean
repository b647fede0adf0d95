import WordMachine.Proofs.Memory.Viewing
import WordMachine.Registers

/-!
# One register, one cell

What becomes of registers and memory when one place receives something: the place holds it, and
every other place holds what it held before. This is said by contents. Nothing else has the same
contents, so that it determines the registers and the memory behind the change
(`Registers.receives_iff`, `Memory.receives_iff`).
-/

namespace WordMachine

/-- The register holds the number afterwards, and the other registers what they held before. -/
structure Registers.Receives (before : Registers) (register : Fin 8) (value : Literal)
    (after : Registers) : Prop where
  holds : after.values.get register = value
  others : ∀ other : Fin 8, other ≠ register → after.values.get other = before.values.get other

/-- The cell holds the word afterwards, and the other cells what they held before, or nothing as
before. -/
structure Memory.Receives (before : Memory) (address : Nat) (word : Word) (after : Memory) :
    Prop where
  holds : after.word? address = some word
  others : ∀ other, other ≠ address → after.word? other = before.word? other

namespace Registers

variable {before after : Registers} {register : Fin 8} {value : Literal}

theorem receives_assign (before : Registers) (register : Fin 8) (value : Literal) :
    before.Receives register value (before.assign register value) where
  holds := Vector.getElem_set_self register.isLt
  others other hne := Vector.getElem_set_ne register.isLt other.isLt fun heq => hne (Fin.ext heq.symm)

/-- A register receives a number by being assigned the number. -/
theorem receives_iff :
    before.Receives register value after ↔ after = before.assign register value := by
  constructor
  · intro h
    have hassign := receives_assign before register value
    obtain ⟨values⟩ := after
    refine congrArg Registers.mk (Vector.ext fun index hindex => ?_)
    by_cases hregister : (⟨index, hindex⟩ : Fin 8) = register
    · subst hregister
      exact h.holds.trans hassign.holds.symm
    · exact (h.others _ hregister).trans (hassign.others _ hregister).symm
  · rintro rfl
    exact receives_assign before register value

end Registers

namespace Memory

variable {before after : Memory} {address : Nat}

theorem receives_put (before : Memory) (word : ValidWord) (hcell : address < memorySize) :
    before.Receives address word.val (before.put address word) where
  holds := by rw [word?_put, if_pos ⟨rfl, hcell⟩]
  others other hne := by rw [word?_put, if_neg fun h => hne h.1.symm]

/-- A cell receives a word by the word being put there. -/
theorem receives_iff {word : ValidWord} (hcell : address < memorySize) :
    before.Receives address word.val after ↔ after = before.put address word := by
  constructor
  · intro h
    have hput := before.receives_put word hcell
    refine ext_word? fun other => ?_
    by_cases hother : other = address
    · rw [hother, h.holds, hput.holds]
    · rw [h.others other hother, hput.others other hother]
  · rintro rfl
    exact before.receives_put word hcell

end Memory

end WordMachine
