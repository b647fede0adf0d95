import WordMachine.Proofs.Debugger.Invariant
import WordMachine.Proofs.Session.Checked
import WordMachine.Proofs.Session.Executing

/-!
# Reachable sessions

`Reachable` is every session that comes about from a program, an input and a folder by carrying out
commands, while the files in the folder and the places that paths lead to change at will. Its
debugger is in order (`Reachable.isSound`), whatever was set, restored or run on the way.

`reachable_safe` spells out what that means for the machine, and adds that no command can make the
arithmetic of the machine overflow or look up what is not there.
-/

namespace WordMachine.Session

/-- The sessions on a program. -/
inductive Reachable (program : Program) : Session → Prop where
  | start (input : List UInt8) (folder : Folder) (paths : DumpPaths) (host : Host) :
      Reachable program (.start program input folder paths host)
  | execute {session after : Session} {budget : Nat} {command : Command}
      {result : Except SessionError Response} (hreach : Reachable program session)
      (hexecute : session.execute budget command = some (result, after)) : Reachable program after
  /-- Files come, go and change from outside. -/
  | changeFiles {session : Session} (folder : Folder) (host : Host)
      (hreach : Reachable program session) : Reachable program { session with folder, host }

variable {program : Program} {session : Session}

/-- A command keeps the debugger in order, whether it fails or not. -/
theorem ExecutesTo.isSound {host : Host} {folder : Folder} {debugger after : Debugger}
    {command : Command} {result : Except SessionError Response}
    (hexecutes : ExecutesTo host folder debugger command result after)
    (h : debugger.IsSound program) : after.IsSound program := by
  cases hexecutes with
  | fails | view | dump => exact h
  | run hrun => exact h.run hrun
  | @step count stop after hstep =>
    have hsound := h.step count
    rwa [hstep] at hsound
  | reset => exact h.reset
  | set hset => exact h.set hset
  | restore hload happly => exact h.apply happly
  | breakpoint hadd => exact h.addBreakpoint hadd
  | watch hadd => exact h.addWatchpoint hadd
  | breakop hname => exact h.addBreakop _

/-- The debugger of a reachable session is in order. -/
theorem Reachable.isSound (h : Reachable program session) : session.debugger.IsSound program := by
  induction h with
  | start input folder paths host => exact Debugger.isSound_start program input
  | execute hreach hexecute ih => exact (executesTo_execute hexecute).isSound ih
  | changeFiles folder host hreach ih => exact ih

/-- The commands can be carried out one after the other, and the session is then the second one. -/
inductive CarriesOut : Session → List Command → Session → Prop where
  | nil (session : Session) : CarriesOut session [] session
  | cons {session middle after : Session} {budget : Nat} {command : Command}
      {commands : List Command} {result : Except SessionError Response}
      (hexecute : session.execute budget command = some (result, middle))
      (hrest : CarriesOut middle commands after) : CarriesOut session (command :: commands) after

/-- What holds in every session on a program: where the program counter may stand, what registers,
stack and cells may hold, that the cells of the program are written, where the debugger may stop
and watch, and what may have been printed. -/
structure IsOrderly (program : Program) (session : Session) : Prop where
  pc_le : session.debugger.machine.pc.toNat ≤ 32768
  registers_le : ∀ word ∈ session.debugger.machine.registers.toWords, word.toNat ≤ 32767
  stack_le : ∀ word ∈ session.debugger.machine.stack.toList, word.toNat ≤ 32767
  cells_size : session.debugger.machine.memory.cells.size = 32768
  word_le : ∀ address word, session.debugger.machine.memory.word? address = some word →
    word.toNat ≤ 32775
  isWritten : ∀ address < program.words.length,
    session.debugger.machine.memory.isWritten address = true
  breakpoints : ∀ address ∈ session.debugger.stops.breakpoints,
    1 ≤ address.toNat ∧ address.toNat ≤ 32767
  watchpoints : ∀ address ∈ session.debugger.stops.watchpoints,
    1 ≤ address.toNat ∧ address.toNat ≤ 32767
  isPrintable : ∀ byte ∈ session.debugger.computer.console.output,
    Word.isPrintable byte.toUInt16 = true

/-- Every reachable session is orderly. -/
theorem Reachable.isOrderly (h : Reachable program session) : session.IsOrderly program := by
  have hsound := h.isSound
  refine ⟨hsound.computer.pc_le, fun word hword => ?_, fun word hword => ?_, rfl,
    fun address word hword => ?_, hsound.computer.isWritten, hsound.stops.breakpoints,
    hsound.stops.watchpoints, hsound.computer.isPrintable⟩
  · obtain ⟨value, -, rfl⟩ := Vector.mem_map.mp hword
    rw [Literal.toNat_toWord]
    omega
  · have hliteral := hsound.computer.holdsLiterals word (List.mem_reverse.mp hword)
    exact Nat.le_of_lt_succ ((Word.isLiteral_iff word).mp hliteral)
  · exact (Word.isValid_iff_le word).mp (Memory.isValid_of_word? hword)

/-- Every reachable session is orderly, and every command that is carried out in it goes through
with all arithmetic checked, as long as the steps counted fit into sixty-four bits. -/
theorem reachable_safe (h : Reachable program session) :
    session.IsOrderly program ∧
      ∀ budget command result after,
        session.execute budget command = some (result, after) →
          after.debugger.cycles < UInt64.size →
            session.executeChecked budget command = some (some (result, after)) :=
  ⟨h.isOrderly, fun _ _ _ _ hexecute hcycles => executeChecked_eq hexecute hcycles⟩

/-- The program counter can be set behind the last cell. -/
theorem reachable_safe_of_set :
    ∃ session, Reachable ⟨[21], by decide, List.all_eq_true.mp rfl⟩ session ∧
      session.debugger.machine.pc = 32768 ∧
      session.IsOrderly ⟨[21], by decide, List.all_eq_true.mp rfl⟩ := by
  have hstart : Reachable ⟨[21], by decide, List.all_eq_true.mp rfl⟩ (start _ [] ⟨[]⟩ {}) :=
    .start [] ⟨[]⟩ {} .flat
  have hexecute : (start ⟨[21], by decide, List.all_eq_true.mp rfl⟩ [] ⟨[]⟩ {}).execute 0
      (.set .pc [32768]) = some (.ok (.set .pc), _) := rfl
  have hset := hstart.execute hexecute
  exact ⟨_, hset, rfl, (reachable_safe hset).1⟩

end WordMachine.Session
