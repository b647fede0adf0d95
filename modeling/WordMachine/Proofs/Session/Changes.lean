import WordMachine.Proofs.Command.Lines
import WordMachine.Proofs.Debugger.Ordering
import WordMachine.Proofs.Session.Replies
import WordMachine.Proofs.Session.Restoring

/-!
# What a line of text changes

`Changes` lists what each command puts where when it is carried out: every row names the parts of
the debugger that may be others afterwards, and says by contents what they are. `ExecutesTo.changes`
says that a command touches nothing else. A command that is not carried out touches nothing at all.

`dispatch_changes_only_target` says this of lines of text, where it can be seen from the reply which
of the two it was.
-/

namespace WordMachine

/-- The registers hold the words, `r0` first. -/
def Registers.Holds (registers : Registers) (words : List Word) : Prop :=
  registers.values.toList.map Fin.val = words.map UInt16.toNat

theorem Registers.holds_toWords (registers : Registers) :
    registers.Holds registers.toWords.toList := by
  rw [Holds, toWords, Vector.toList_map, List.map_map]
  exact List.map_congr_left fun value _ => (Literal.toNat_toWord value).symm

namespace Session

/-- What a command that is carried out does to the debugger. -/
inductive Changes (host : Host) (folder : Folder) (before : Debugger) :
    Command → Debugger → Prop where
  /-- Running is about the computer and the count of steps. -/
  | run {computer : Computer} {cycles : Nat} :
      Changes host folder before .run { before with computer, cycles }
  | step {count : Nat} {computer : Computer} {cycles : Nat} :
      Changes host folder before (.step count) { before with computer, cycles }
  /-- The program is loaded into a new machine. -/
  | reset {registers : Registers} {memory : Memory}
      (hregisters : registers.Holds [0, 0, 0, 0, 0, 0, 0, 0])
      (hmemory : ∀ address, memory.word? address = before.program.words[address]?) :
      Changes host folder before .reset
        { before with
          computer.machine := { pc := 0, registers, stack := ⟨[]⟩, memory, halted := none } }
  | view {target : Option Target} {first last : Option Word} :
      Changes host folder before (.view target first last) before
  | dump : Changes host folder before .dump before
  | setPc {pc : Word} :
      Changes host folder before (.set .pc [pc]) { before with computer.machine.pc := pc }
  | setRegisters {words : List Word} {registers : Registers} (hregisters : registers.Holds words) :
      Changes host folder before (.set .registers words)
        { before with computer.machine.registers := registers }
  /-- The bottom of the stack is named first, and kept last. -/
  | setStack {words : List Word} {stack : Stack} (hstack : stack.words = words.reverse) :
      Changes host folder before (.set .stack words)
        { before with computer.machine.stack := stack }
  /-- One cell is written. -/
  | setMemory {address word : Word} {memory : Memory}
      (hcell : before.computer.machine.memory.Receives address.toNat word memory) :
      Changes host folder before (.set .memory [address, word])
        { before with computer.machine.memory := memory }
  | restore {path : String} {snapshot : Snapshot} {registers : Registers} {stack : Stack}
      (hload : loadSnapshot host folder path = .ok snapshot)
      (hregisters : registers.Holds snapshot.registers.toList)
      (hstack : stack.words = snapshot.stack.reverse) :
      Changes host folder before (.restore path)
        { before with
          computer.machine.pc := snapshot.pc
          computer.machine.registers := registers
          computer.machine.stack := stack
          computer.machine.halted := none }
  | breakpoint {address : Word} {breakpoints : List Word}
      (hadds : Adds address before.stops.breakpoints breakpoints) :
      Changes host folder before (.breakpoint address)
        { before with stops.breakpoints := breakpoints }
  | watch {address : Word} {watchpoints : List Word}
      (hadds : Adds address before.stops.watchpoints watchpoints) :
      Changes host folder before (.watch address)
        { before with stops.watchpoints := watchpoints }
  | breakop {name : String} {opcode : Opcode} {breakops : List Opcode}
      (hname : Opcode.ofMnemonic? name = some opcode)
      (hadds : Adds opcode before.stops.breakops breakops) :
      Changes host folder before (.breakop name) { before with stops.breakops := breakops }

variable {program : Program} {session after : Session} {host : Host} {folder : Folder}
  {debugger changed : Debugger} {command : Command}

/-! ## Places to stop at -/

/-- Every command keeps the places to stop at in order. -/
theorem ExecutesTo.isAscending {result : Except SessionError Response}
    (h : ExecutesTo host folder debugger command result changed)
    (hascending : debugger.stops.IsAscending) : changed.stops.IsAscending := by
  cases h with
  | fails | view | dump | reset | restore => exact hascending
  | run hrun =>
    rw [(Debugger.sameSetting_run hrun).2]
    exact hascending
  | step hstep =>
    rw [(Debugger.sameSetting_step hstep).2]
    exact hascending
  | set hset =>
    obtain ⟨machine, -, rfl⟩ := Debugger.exists_of_set hset
    exact hascending
  | breakpoint hadd =>
    obtain ⟨-, -, hadd⟩ := exists_of_bind_eq_ok hadd
    obtain rfl := Except.ok.inj hadd
    exact hascending.addBreakpoint _
  | watch hadd =>
    obtain ⟨-, -, hadd⟩ := exists_of_bind_eq_ok hadd
    obtain rfl := Except.ok.inj hadd
    exact hascending.addWatchpoint _
  | breakop hname => exact hascending.addBreakop _

/-- The places to stop at are in order in every session. -/
theorem Reachable.isAscending (h : Reachable program session) :
    session.debugger.stops.IsAscending := by
  induction h with
  | start input folder paths host => exact Stops.isAscending_nowhere
  | execute hreach hexecute ih => exact (executesTo_execute hexecute).isAscending ih
  | changeFiles folder host hreach ih => exact ih

/-! ## Commands -/

/-- Setting a target puts the values there. -/
theorem changes_of_set {target : Target} {values : List Word}
    (h : debugger.set target values = .ok changed) :
    Changes host folder debugger (.set target values) changed := by
  obtain ⟨machine, hsets, rfl⟩ := Debugger.exists_of_set h
  cases hsets with
  | pc hpc => exact .setPc
  | @registers r0 r1 r2 r3 r4 r5 r6 r7 registers hregisters =>
    have hvalues : [r0, r1, r2, r3, r4, r5, r6, r7] = registers.toWords.toList :=
      congrArg Vector.toList (Registers.ofWords_eq_ok_iff.mp hregisters)
    rw [hvalues]
    exact .setRegisters registers.holds_toWords
  | stack hstack =>
    obtain ⟨rfl, -⟩ := Stack.ofList_eq_ok_iff_holdsLiterals.mp hstack
    exact .setStack (List.reverse_reverse _).symm
  | memory hmemory =>
    obtain ⟨word, rfl, hcell, rfl⟩ := Memory.exists_put_of_write hmemory
    exact .setMemory (Memory.receives_put _ word hcell)

/-- The opcode that is found has the name. -/
theorem ofMnemonic?_of_findOpcode {name : String} {opcode : Opcode}
    (h : Debugger.findOpcode name = .ok opcode) : Opcode.ofMnemonic? name = some opcode := by
  unfold Debugger.findOpcode at h
  split at h
  · next found hfound => rw [hfound, Except.ok.inj h]
  · cases h

/-- A command that is carried out changes what it is meant to change and nothing else. -/
theorem ExecutesTo.changes {response : Response}
    (h : ExecutesTo host folder debugger command (.ok response) changed)
    (hascending : debugger.stops.IsAscending) : Changes host folder debugger command changed := by
  cases h with
  | view => exact .view
  | dump => exact .dump
  | reset => exact .reset rfl (Memory.word?_ofProgram _)
  | run hrun =>
    rw [(Debugger.sameSetting_run hrun).eq]
    exact .run
  | step hstep =>
    rw [(Debugger.sameSetting_step hstep).eq]
    exact .step
  | set hset => exact changes_of_set hset
  | @restore path snapshot machine hload happly =>
    obtain ⟨pc, words, values⟩ := snapshot
    obtain ⟨-, registers, stack, rfl, rfl, -, rfl⟩ := Snapshot.apply_eq_ok_iff.mp happly
    exact .restore hload registers.holds_toWords (List.reverse_reverse _).symm
  | breakpoint hadd =>
    obtain ⟨-, -, hadd⟩ := exists_of_bind_eq_ok hadd
    obtain rfl := Except.ok.inj hadd
    exact .breakpoint (adds_insertAscending hascending.breakpoints fun _ => UInt16.toNat.inj)
  | watch hadd =>
    obtain ⟨-, -, hadd⟩ := exists_of_bind_eq_ok hadd
    obtain rfl := Except.ok.inj hadd
    exact .watch (adds_insertAscending hascending.watchpoints fun _ => UInt16.toNat.inj)
  | breakop hname =>
    exact .breakop (ofMnemonic?_of_findOpcode hname)
      (adds_insertAscending hascending.breakops fun _ => Opcode.code_inj)

/-- A command that fails changes nothing. -/
theorem ExecutesTo.eq_of_error {error : SessionError}
    (h : ExecutesTo host folder debugger command (.error error) changed) : changed = debugger := by
  cases h with
  | fails => rfl

/-! ## Lines of text -/

/-- A line of text is either answered with an error, and then it has changed nothing, or it is a
command that was carried out, and then it has changed nothing but what the command is about. -/
theorem dispatch_changes_only_target (hreach : Reachable program session) {budget : Nat}
    {line reply : String} (h : session.dispatch budget line = some (reply, after)) :
    ReadsAsError reply ∧ after.debugger = session.debugger ∨
      ¬ ReadsAsError reply ∧ ∃ command, Command.ofLine line = .ok command ∧
        Changes session.host session.folder session.debugger command after.debugger := by
  unfold dispatch at h
  cases hcommand : Command.ofLine line with
  | error error =>
    rw [hcommand] at h
    obtain ⟨rfl, rfl⟩ := Prod.mk.inj (Option.some.inj h)
    exact .inl ⟨readsAsError_error _, rfl⟩
  | ok command =>
    rw [hcommand] at h
    obtain ⟨⟨result, executed⟩, hexecute, heq⟩ := Option.map_eq_some_iff.mp h
    obtain ⟨rfl, rfl⟩ := Prod.mk.inj heq
    have hexecutes := executesTo_execute hexecute
    cases result with
    | error error => exact .inl ⟨readsAsError_error _, hexecutes.eq_of_error⟩
    | ok response =>
      exact .inr ⟨response.not_readsAsError_text, command, rfl,
        hexecutes.changes hreach.isAscending⟩

/-- A line that sets the program counter too far and one that restores from no file are answered
with errors, and nothing has changed. A line that sets the stack has changed the stack. -/
theorem dispatch_changes_only_target_of_filled :
    (∃ after, filled.dispatch 0 "set pc 40000" =
        some ("error: memory fault: address 40000 is out of range", after) ∧
      after.debugger = filled.debugger) ∧
    (∃ after, filled.dispatch 0 "restore s" =
        some ("error: i/o error: No such file or directory (os error 2)", after) ∧
      after.debugger = filled.debugger) ∧
    ∃ after, filled.dispatch 0 "set stack 7 8 9" = some ("stack set", after) ∧
      after.debugger = { filled.debugger with computer.machine.stack := ⟨[9, 8, 7]⟩ } := by
  refine ⟨?_, ?_, ?_⟩
  · have hspaced : Command.IsSpaced "set pc 40000" ["set", "pc", "40000"] :=
      Command.isSpaced_of_intercalate (by decide) rfl
    have hline : Command.ofLine "set pc 40000" = .ok (.set .pc [40000]) :=
      (Command.ofLine_of_isSpaced hspaced).trans rfl
    obtain ⟨after, hdispatch⟩ : ∃ after, filled.dispatch 0 "set pc 40000" =
        some ("error: memory fault: address 40000 is out of range", after) := by
      rw [dispatch, hline]
      exact ⟨_, rfl⟩
    rcases dispatch_changes_only_target reachable_filled hdispatch with ⟨-, hsame⟩ | ⟨hreply, -⟩
    · exact ⟨after, hdispatch, hsame⟩
    · rw [ReadsAsError] at hreply
      exact absurd (by decide) hreply
  · have hspaced : Command.IsSpaced "restore s" ["restore", "s"] :=
      Command.isSpaced_of_intercalate (by decide) rfl
    have hline : Command.ofLine "restore s" = .ok (.restore "s") :=
      (Command.ofLine_of_isSpaced hspaced).trans rfl
    have hname : filled.host.locate "s" = .ok "s" := Host.locate_flat_letter (.inl rfl)
    have hload : loadSnapshot filled.host filled.folder "s" = .error (.file .notFound) := by
      simp only [loadSnapshot, Folder.read, hname]
      rfl
    obtain ⟨after, hdispatch⟩ : ∃ after, filled.dispatch 0 "restore s" =
        some ("error: i/o error: No such file or directory (os error 2)", after) := by
      rw [dispatch, hline]
      simp only [execute, restore, hload]
      exact ⟨_, rfl⟩
    rcases dispatch_changes_only_target reachable_filled hdispatch with ⟨-, hsame⟩ | ⟨hreply, -⟩
    · exact ⟨after, hdispatch, hsame⟩
    · rw [ReadsAsError] at hreply
      exact absurd (by decide) hreply
  · have hspaced : Command.IsSpaced "set stack 7 8 9" ["set", "stack", "7", "8", "9"] :=
      Command.isSpaced_of_intercalate (by decide) rfl
    have hline : Command.ofLine "set stack 7 8 9" = .ok (.set .stack [7, 8, 9]) :=
      (Command.ofLine_of_isSpaced hspaced).trans rfl
    obtain ⟨⟨debugger, folder, paths, host⟩, hdispatch⟩ :
        ∃ after, filled.dispatch 0 "set stack 7 8 9" = some ("stack set", after) := by
      rw [dispatch, hline]
      exact ⟨_, rfl⟩
    refine ⟨_, hdispatch, ?_⟩
    rcases dispatch_changes_only_target reachable_filled hdispatch with
      ⟨hreply, -⟩ | ⟨-, command, hcommand, hchanges⟩
    · exact absurd hreply (Response.not_readsAsError_text (.set .stack))
    · obtain rfl := Except.ok.inj (hline.symm.trans hcommand)
      cases hchanges with
      | @setStack _ stack hstack =>
        obtain ⟨words⟩ := stack
        obtain rfl : words = [9, 8, 7] := hstack
        rfl

end Session

end WordMachine
