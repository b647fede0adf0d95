import WordMachine.Proofs.Session.Reachable
import WordMachine.Proofs.Snapshot.RoundTrip

/-!
# Restoring what was dumped

Only a dump writes files, and no command changes where paths lead (`files_of_execute`), so that what
a dump has written is still there behind any commands but another dump, and is read as it was
written (`loadSnapshot_of_dump`). A restore then brings back program counter, registers and stack,
and wakes the machine up; all else stays as the commands in between have left it
(`restore_brings_back`).
-/

namespace WordMachine

/-- Where there is one folder, a file can have a single letter for its name. -/
theorem Host.locate_flat_letter {name : String} (h : name = "s" ∨ name = "c") :
    Host.flat.locate name = .ok name := by
  have hname : Folder.fileName? name = some name := by
    rcases h with rfl | rfl
    all_goals
      rw [Folder.fileName?, String.splitOn, if_neg (by decide), String.splitOnAux,
        if_neg (by decide), if_neg (by decide), String.splitOnAux, if_pos (by decide)]
      decide
  simp only [Host.flat, hname]

namespace Session

variable {program : Program} {session dumped later after : Session}

/-! ## Files -/

/-- Changing the debugger leaves the files alone. -/
theorem files_of_changed {response : Response} {changes : Except DebugError Debugger}
    {result : Except SessionError Response}
    (h : session.changed response changes = (result, after)) :
    after.folder = session.folder ∧ after.host = session.host := by
  cases changes with
  | error error =>
    obtain ⟨-, rfl⟩ := Prod.mk.inj h
    exact ⟨rfl, rfl⟩
  | ok debugger =>
    obtain ⟨-, rfl⟩ := Prod.mk.inj h
    exact ⟨rfl, rfl⟩

/-- No command but a dump writes files, or has paths lead elsewhere. -/
theorem files_of_execute {budget : Nat} {command : Command} {result : Except SessionError Response}
    (h : session.execute budget command = some (result, after)) (hcommand : command ≠ .dump) :
    after.folder = session.folder ∧ after.host = session.host := by
  unfold execute at h
  cases command with
  | dump => exact absurd rfl hcommand
  | run =>
    obtain ⟨ran, -, heq⟩ := Option.map_eq_some_iff.mp h
    obtain ⟨-, rfl⟩ := Prod.mk.inj heq
    exact ⟨rfl, rfl⟩
  | step count =>
    obtain ⟨-, rfl⟩ := Prod.mk.inj (Option.some.inj h)
    exact ⟨rfl, rfl⟩
  | view target first last =>
    simp only at h
    split at h
    · obtain ⟨-, rfl⟩ := Prod.mk.inj (Option.some.inj h)
      exact ⟨rfl, rfl⟩
    · obtain ⟨-, rfl⟩ := Prod.mk.inj (Option.some.inj h)
      exact ⟨rfl, rfl⟩
  | restore path =>
    have hrestore : session.restore path = (result, after) := Option.some.inj h
    unfold restore at hrestore
    split at hrestore
    · obtain ⟨-, rfl⟩ := Prod.mk.inj hrestore
      exact ⟨rfl, rfl⟩
    · exact files_of_changed hrestore
  | breakop name =>
    simp only at h
    split at h
    · exact files_of_changed (Option.some.inj h)
    · obtain ⟨-, rfl⟩ := Prod.mk.inj (Option.some.inj h)
      exact ⟨rfl, rfl⟩
  | reset | set | breakpoint | watch => exact files_of_changed (Option.some.inj h)

/-- Commands that are no dumps write no files, however many there are. -/
theorem CarriesOut.files_eq {commands : List Command} (h : session.CarriesOut commands after)
    (hcommands : .dump ∉ commands) :
    after.folder = session.folder ∧ after.host = session.host := by
  induction h with
  | nil session => exact ⟨rfl, rfl⟩
  | cons hexecute hrest ih =>
    rw [List.mem_cons, not_or] at hcommands
    obtain ⟨hfirst, hothers⟩ := hcommands
    obtain ⟨hfolder, hhost⟩ := files_of_execute hexecute (Ne.symm hfirst)
    obtain ⟨hfolders, hhosts⟩ := ih hothers
    exact ⟨hfolders.trans hfolder, hhosts.trans hhost⟩

/-- A dump that succeeds has written the snapshot of the machine and then the core, and nothing
else. -/
theorem exists_of_dump {response : Response} (h : session.dump = (.ok response, dumped)) :
    ∃ written saved,
      session.folder.write session.paths.snapshot
        (Snapshot.capture session.debugger.machine).toBytes session.host = .ok written ∧
      Image.save written session.paths.core session.debugger.machine.memory.compact session.host =
        .ok saved ∧
      dumped = { session with folder := saved } := by
  unfold dump at h
  simp only at h
  split at h
  · cases h
  · next written hwrite =>
    split at h
    · cases h
    · next saved hsave =>
      obtain ⟨-, rfl⟩ := Prod.mk.inj h
      exact ⟨written, saved, hwrite, hsave, rfl⟩

/-- A file that holds what was written of a snapshot is read as the snapshot. -/
theorem loadSnapshot_of_read {host : Host} {folder : Folder} {path : String} {snapshot : Snapshot}
    (h : folder.read path host = .ok snapshot.toBytes) :
    loadSnapshot host folder path = .ok snapshot := by
  rw [loadSnapshot, h]
  simp only [Snapshot.ofBytes_toBytes]
  rfl

/-- A dump that succeeds has written a snapshot of the machine, if the core goes to another file. -/
theorem loadSnapshot_of_dump {response : Response}
    (hfiles : session.host.locate session.paths.snapshot ≠ session.host.locate session.paths.core)
    (h : session.dump = (.ok response, dumped)) :
    loadSnapshot dumped.host dumped.folder session.paths.snapshot =
      .ok (.capture session.debugger.machine) := by
  obtain ⟨written, saved, hwrite, hsave, rfl⟩ := exists_of_dump h
  refine loadSnapshot_of_read ?_
  rw [Folder.read_of_write_of_ne hsave hfiles, Folder.read_write hwrite]

/-- A dump succeeds if both its paths lead to files. -/
theorem exists_of_locate (session : Session) {name core : String}
    (hname : session.host.locate session.paths.snapshot = .ok name)
    (hcore : session.host.locate session.paths.core = .ok core) (budget : Nat) :
    ∃ folder, session.execute budget .dump =
      some (.ok (.dumped session.paths), { session with folder }) := by
  rw [execute, dump]
  simp only [Folder.write, Image.save, hname, hcore]
  exact ⟨_, rfl⟩

/-! ## Restoring -/

/-- What becomes of a session when an earlier state of its machine is put back: program counter,
registers and stack are the earlier ones, the machine is awake, and all else is as it was. -/
structure BringsBack (earlier later restored : Session) : Prop where
  pc_eq : restored.debugger.computer.machine.pc = earlier.debugger.computer.machine.pc
  registers_eq : restored.debugger.computer.machine.registers.values =
    earlier.debugger.computer.machine.registers.values
  stack_eq : restored.debugger.computer.machine.stack.words =
    earlier.debugger.computer.machine.stack.words
  halted_eq : restored.debugger.computer.machine.halted = none
  memory_eq : restored.debugger.computer.machine.memory = later.debugger.computer.machine.memory
  console_eq : restored.debugger.computer.console = later.debugger.computer.console
  program_eq : restored.debugger.program = later.debugger.program
  stops_eq : restored.debugger.stops = later.debugger.stops
  cycles_eq : restored.debugger.cycles = later.debugger.cycles
  folder_eq : restored.folder = later.folder
  paths_eq : restored.paths = later.paths
  host_eq : restored.host = later.host

/-- What was dumped can be restored. Behind a dump that succeeds and any commands but another dump,
a restore brings back program counter, registers and stack as they were dumped and wakes the machine
up, and leaves memory, console, stop conditions and the count of steps as they are. -/
theorem restore_brings_back (hreach : Reachable program session)
    (hfiles : session.host.locate session.paths.snapshot ≠ session.host.locate session.paths.core)
    {budget : Nat} {response : Response}
    (hdump : session.execute budget .dump = some (.ok response, dumped)) {commands : List Command}
    (hcarries : dumped.CarriesOut commands later) (hcommands : .dump ∉ commands)
    (budget' : Nat) :
    ∃ restored,
      later.execute budget' (.restore session.paths.snapshot) =
        some (.ok (.restored session.paths.snapshot), restored) ∧
      session.BringsBack later restored := by
  have hsound := hreach.isSound.computer
  have hload : loadSnapshot later.host later.folder session.paths.snapshot =
      .ok (.capture session.debugger.machine) := by
    obtain ⟨hfolder, hhost⟩ := hcarries.files_eq hcommands
    rw [hfolder, hhost]
    exact loadSnapshot_of_dump hfiles (Option.some.inj hdump)
  have happly : (Snapshot.capture session.debugger.machine).apply later.debugger.machine = _ :=
    Snapshot.apply_capture hsound.pc_le hsound.holdsLiterals later.debugger.machine
  rw [execute, restore, hload]
  simp only [happly]
  exact ⟨_, rfl, ⟨rfl, rfl, rfl, rfl, rfl, rfl, rfl, rfl, rfl, rfl, rfl, rfl⟩⟩

/-- A program that ends at once. -/
def ending : Program := ⟨[0], by decide, List.all_eq_true.mp rfl⟩

/-- A session with registers and stack filled and the program counter behind the last cell. -/
def filled : Session where
  debugger := (Debugger.start ending []).withMachine
    { Machine.start ending with
      pc := 32768
      registers := ⟨#v[1, 2, 3, 4, 5, 6, 7, 32767]⟩
      stack := ⟨[6, 5]⟩ }
  folder := ⟨[]⟩
  paths := ⟨"s", "c"⟩
  host := .flat

/-- Three commands fill the session. -/
theorem reachable_filled : Reachable ending filled := by
  have hwords : #v[1, 2, 3, 4, 5, 6, 7, 32767] =
      Registers.toWords ⟨#v[1, 2, 3, 4, 5, 6, 7, 32767]⟩ := by
    apply Vector.toList_inj.mp
    rw [Registers.toWords, Vector.toList_map]
    rfl
  have hregisters (debugger : Debugger) :
      debugger.set .registers [1, 2, 3, 4, 5, 6, 7, 32767] = .ok (debugger.withMachine
        { debugger.machine with registers := ⟨#v[1, 2, 3, 4, 5, 6, 7, 32767]⟩ }) := by
    simp only [Debugger.set, Registers.ofWords_eq_ok_iff.mpr hwords]
    rfl
  have hstack (debugger : Debugger) : debugger.set .stack [5, 6] =
      .ok (debugger.withMachine { debugger.machine with stack := ⟨[6, 5]⟩ }) := rfl
  have hpc (debugger : Debugger) : debugger.set .pc [32768] =
      .ok (debugger.withMachine { debugger.machine with pc := 32768 }) := rfl
  have hstart : Reachable ending (start ending [] ⟨[]⟩ ⟨"s", "c"⟩) :=
    .start [] ⟨[]⟩ ⟨"s", "c"⟩ .flat
  have hfirst := hstart.execute (execute_set _ 0 (hregisters _))
  have hsecond := hfirst.execute (execute_set _ 0 (hstack _))
  exact hsecond.execute (execute_set _ 0 (hpc _))

/-- The program ends with its first step. -/
theorem exists_step_ending (console : Console) :
    ∃ after, Computer.step ⟨.start ending, console⟩ = (.halted .instruction, after) ∧
      after.machine.halted = some .instruction := by
  have hmemory : (Machine.start ending).memory = .ofProgram ending := rfl
  have hfaces : (Machine.start ending).Faces .halt [] 1 :=
    Machine.faces_of_prefix hmemory rfl (List.prefix_refl _) rfl
  obtain ⟨hlength, hfetch⟩ := Machine.faces_iff.mp hfaces
  have hhalts : Computer.execute ⟨{ Machine.start ending with pc := 1 }, console⟩
      (.ofOperands .halt [] hlength) =
        (.halted .instruction, ⟨{ Machine.start ending with pc := 1 }, console⟩) := rfl
  exact ⟨_, Computer.step_of_fetchInstruction rfl hfetch hhalts, rfl⟩

/-- Registers, stack and a program counter behind the last cell are dumped, and are restored when a
reset and a step to the end of the program have put others in their place. -/
theorem restore_brings_back_behind_reset :
    ∃ dumped later restored,
      filled.execute 0 .dump = some (.ok (.dumped ⟨"s", "c"⟩), dumped) ∧
      dumped.CarriesOut [.reset, .step 1] later ∧
      later.debugger.computer.machine.halted = some .instruction ∧
      later.execute 0 (.restore "s") = some (.ok (.restored "s"), restored) ∧
      restored.debugger.computer.machine.pc = 32768 ∧
      restored.debugger.computer.machine.registers.values = #v[1, 2, 3, 4, 5, 6, 7, 32767] ∧
      restored.debugger.computer.machine.stack.words = [6, 5] ∧
      restored.debugger.computer.machine.halted = none := by
  have hfiles : filled.host.locate filled.paths.snapshot ≠
      filled.host.locate filled.paths.core := by
    change Host.flat.locate "s" ≠ Host.flat.locate "c"
    rw [Host.locate_flat_letter (.inl rfl), Host.locate_flat_letter (.inr rfl)]
    decide
  obtain ⟨folder, hdump⟩ := filled.exists_of_locate (Host.locate_flat_letter (.inl rfl))
    (Host.locate_flat_letter (.inr rfl)) 0
  obtain ⟨after, hafter, hhalted⟩ := exists_step_ending filled.debugger.computer.console
  have hadvance : filled.debugger.reset.advance =
      (some (.halted .instruction), ⟨after, ending, .nowhere, 1⟩) := by
    change Debugger.advance ⟨⟨.start ending, _⟩, ending, .nowhere, 0⟩ = _
    rw [Debugger.advance, hafter]
    rfl
  have hstep : execute ⟨filled.debugger.reset, folder, ⟨"s", "c"⟩, .flat⟩ 0 (.step 1) =
      some (.ok (.stopped (.halted .instruction) after.machine.pc 1),
        ⟨⟨after, ending, .nowhere, 1⟩, folder, ⟨"s", "c"⟩, .flat⟩) := by
    rw [execute, Debugger.step, hadvance]
    rfl
  have hreset : execute { filled with folder } 0 .reset =
      some (.ok .reset, ⟨filled.debugger.reset, folder, ⟨"s", "c"⟩, .flat⟩) := rfl
  have hcarries := CarriesOut.cons hreset (.cons hstep (.nil _))
  obtain ⟨restored, hrestore, hback⟩ :=
    restore_brings_back reachable_filled hfiles hdump hcarries (by decide) 0
  exact ⟨_, _, restored, hdump, hcarries, hhalted, hrestore, hback.pc_eq, hback.registers_eq,
    hback.stack_eq, hback.halted_eq⟩

end Session

end WordMachine
