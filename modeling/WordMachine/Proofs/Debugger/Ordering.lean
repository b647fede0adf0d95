import WordMachine.Proofs.Debugger.Running

/-!
# Stop conditions as sets

The places to stop at are lists, but they are used as sets: an item that is added is one more, or
it is there already and nothing changes (`adds_insertAscending`). This needs the lists to be in
order, for an item is looked for only up to the place where it would stand. `Stops.IsAscending` says
that they are, and adding keeps it.
-/

namespace WordMachine

/-- The second list has the item in addition to those of the first, or is the first list if the item
is in it. -/
inductive Adds {α : Type} (item : α) (items : List α) : List α → Prop where
  | already (hmem : item ∈ items) : Adds item items items
  | anew {more : List α} (hmem : item ∉ items) (hperm : more.Perm (item :: items)) :
      Adds item items more

/-- The keys of the list go up. -/
def IsAscending {α : Type} (key : α → Nat) (items : List α) : Prop :=
  items.Pairwise fun first second => key first < key second

section Insert

variable {α : Type} {key : α → Nat} {item : α} {items : List α}

/-- What is put in goes to its place. -/
theorem IsAscending.insertAscending (h : IsAscending key items) :
    IsAscending key (insertAscending key item items) := by
  induction items with
  | nil => exact List.pairwise_singleton _ item
  | cons first rest ih =>
    obtain ⟨hfirst, hrest⟩ := List.pairwise_cons.mp h
    rw [WordMachine.insertAscending]
    split
    · next hlt =>
      refine List.pairwise_cons.mpr ⟨List.forall_mem_cons.mpr ⟨hlt, fun other hother => ?_⟩, h⟩
      exact Nat.lt_trans hlt (hfirst other hother)
    · next hge =>
      split
      · exact h
      · next hne =>
        refine List.pairwise_cons.mpr ⟨fun other hother => ?_, ih hrest⟩
        rcases mem_insertAscending hother with rfl | hmem
        · omega
        · exact hfirst other hmem

/-- An item that is in the list is found. -/
theorem insertAscending_of_mem (h : IsAscending key items) (hmem : item ∈ items) :
    insertAscending key item items = items := by
  induction items with
  | nil => exact absurd hmem List.not_mem_nil
  | cons first rest ih =>
    obtain ⟨hfirst, hrest⟩ := List.pairwise_cons.mp h
    rw [insertAscending]
    rcases List.mem_cons.mp hmem with rfl | hmem
    · rw [if_neg (Nat.lt_irrefl _), if_pos rfl]
    · have hlt := hfirst item hmem
      rw [if_neg (Nat.lt_asymm hlt), if_neg (Nat.ne_of_gt hlt), ih hrest hmem]

/-- An item that is not in the list is put in, if no other item has its key. -/
theorem perm_insertAscending (hkey : ∀ other, key item = key other → item = other)
    (hmem : item ∉ items) : (insertAscending key item items).Perm (item :: items) := by
  induction items with
  | nil => exact List.Perm.refl _
  | cons first rest ih =>
    rw [List.mem_cons, not_or] at hmem
    have hne : key item ≠ key first := fun heq => hmem.1 (hkey first heq)
    rw [insertAscending, if_neg hne]
    split
    · exact List.Perm.refl _
    · exact ((ih hmem.2).cons first).trans (List.Perm.swap item first rest)

/-- Putting an item into a list adds it, if no other item has its key. -/
theorem adds_insertAscending (h : IsAscending key items)
    (hkey : ∀ other, key item = key other → item = other) :
    Adds item items (insertAscending key item items) := by
  by_cases hmem : item ∈ items
  · rw [insertAscending_of_mem h hmem]
    exact .already hmem
  · exact .anew hmem (perm_insertAscending hkey hmem)

end Insert

/-- No two opcodes have the same code. -/
theorem Opcode.code_inj {opcode other : Opcode} (h : opcode.code = other.code) :
    opcode = other := by
  have hfound := all_getElem?_code opcode
  rw [h, all_getElem?_code] at hfound
  exact (Option.some.inj hfound).symm

namespace Stops

/-- The three lists are in order. -/
structure IsAscending (stops : Stops) : Prop where
  breakpoints : WordMachine.IsAscending UInt16.toNat stops.breakpoints
  breakops : WordMachine.IsAscending Opcode.code stops.breakops
  watchpoints : WordMachine.IsAscending UInt16.toNat stops.watchpoints

theorem isAscending_nowhere : nowhere.IsAscending := ⟨.nil, .nil, .nil⟩

variable {stops : Stops} (h : stops.IsAscending)

include h

theorem IsAscending.addBreakpoint (address : Word) : (stops.addBreakpoint address).IsAscending :=
  ⟨h.breakpoints.insertAscending, h.breakops, h.watchpoints⟩

theorem IsAscending.addBreakop (opcode : Opcode) : (stops.addBreakop opcode).IsAscending :=
  ⟨h.breakpoints, h.breakops.insertAscending, h.watchpoints⟩

theorem IsAscending.addWatchpoint (address : Word) : (stops.addWatchpoint address).IsAscending :=
  ⟨h.breakpoints, h.breakops, h.watchpoints.insertAscending⟩

end Stops

namespace Debugger

variable {debugger after : Debugger}

/-- The two debuggers have the same program and stop in the same places. -/
def SameSetting (debugger after : Debugger) : Prop :=
  after.program = debugger.program ∧ after.stops = debugger.stops

/-- Such debuggers differ in the computer and the count of steps only. -/
theorem SameSetting.eq (h : debugger.SameSetting after) :
    after = { debugger with computer := after.computer, cycles := after.cycles } := by
  obtain ⟨hprogram, hstops⟩ := h
  rw [← hprogram, ← hstops]

theorem AdvancesTo.sameSetting {stop : Option Stop} (h : debugger.AdvancesTo stop after) :
    debugger.SameSetting after := by
  cases h with
  | stays | continues | halts | faults => exact ⟨rfl, rfl⟩

/-- What an advance keeps is kept by any number of them. -/
theorem sameSetting_of_advancesTo (debugger : Debugger) :
    ∀ before stop after, AdvancesTo before stop after → debugger.SameSetting before →
      debugger.SameSetting after := by
  rintro before stop after hadvance ⟨hprogram, hstops⟩
  obtain ⟨hprogram', hstops'⟩ := hadvance.sameSetting
  exact ⟨hprogram'.trans hprogram, hstops'.trans hstops⟩

/-- Running changes nothing but the computer and the count of steps. -/
theorem sameSetting_step {count : Nat} {stop : Stop} (h : debugger.step count = (stop, after)) :
    debugger.SameSetting after := by
  have hkept := step_preserves (P := debugger.SameSetting) debugger.sameSetting_of_advancesTo
    ⟨rfl, rfl⟩ count
  rwa [h] at hkept

theorem sameSetting_run {budget : Nat} {stop : Stop}
    (h : debugger.run budget = some (stop, after)) : debugger.SameSetting after :=
  run_preserves (P := debugger.SameSetting) debugger.sameSetting_of_advancesTo ⟨rfl, rfl⟩ h

end Debugger

end WordMachine
