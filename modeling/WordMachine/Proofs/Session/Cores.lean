import WordMachine.Proofs.Image.Codec
import WordMachine.Proofs.Memory.Reloading
import WordMachine.Proofs.Session.Restoring

/-!
# What a core keeps

A dump writes its core last, so that the file holds the compact words of memory, in whatever file
the snapshot went to (`load_of_dump`). A machine can be started on them again (`core_keeps_words`),
but the addresses are lost: behind a gap the words have moved down.
-/

namespace WordMachine.Session

variable {session dumped : Session}

/-- A dump that succeeds has written the compact words of memory. -/
theorem load_of_dump {response : Response} (h : session.dump = (.ok response, dumped)) :
    Image.load dumped.folder session.paths.core session.host =
      .ok session.debugger.machine.memory.compact := by
  obtain ⟨written, saved, -, hsave, rfl⟩ := exists_of_dump h
  have hread : saved.read session.paths.core session.host =
      .ok (Image.encode session.debugger.machine.memory.compact) :=
    Folder.read_write hsave
  rw [Image.load, hread]
  simp only [Image.decode_encode]
  rfl

/-- A valid word can be set in any cell. -/
theorem execute_set_memory (session : Session) (budget : Nat) {address word : Word}
    (valid : word.isValid = true) (inside : address.toNat < memorySize) :
    session.execute budget (.set .memory [address, word]) =
      some (.ok (.set .memory),
        { session with
          debugger := session.debugger.withMachine
            { session.debugger.machine with
              memory := session.debugger.machine.memory.put address.toNat ⟨word, valid⟩ } }) := by
  have hwrite : session.debugger.machine.memory.write address.toNat word =
      .ok (session.debugger.machine.memory.put address.toNat ⟨word, valid⟩) := by
    rw [Memory.write, dif_pos valid, if_pos inside]
  refine execute_set session budget ?_
  simp only [Debugger.set, hwrite]
  rfl

/-- The core that a dump has written is read as the compact words of memory, and a machine can be
started on them. Its memory holds the written words in the order of their addresses, from address
zero on, and is the memory that was dumped if and only if the written cells of that memory are those
in front of some address. -/
theorem core_keeps_words {budget : Nat} {response : Response}
    (hdump : session.execute budget .dump = some (.ok response, dumped)) :
    Image.load dumped.folder session.paths.core session.host =
        .ok session.debugger.machine.memory.compact ∧
      (session.debugger.machine.memory.written.Pairwise fun first second =>
        first.1 < second.1) ∧
      (∀ address word, (address, word) ∈ session.debugger.machine.memory.written ↔
        session.debugger.machine.memory.word? address = some word) ∧
      ∃ program, Program.ofWords session.debugger.machine.memory.compact = .ok program ∧
        (∀ address, (Machine.start program).memory.word? address =
          session.debugger.machine.memory.written[address]?.map Prod.snd) ∧
        ((Machine.start program).memory = session.debugger.machine.memory ↔
          ∃ size, ∀ address,
            session.debugger.machine.memory.isWritten address = true ↔ address < size) := by
  obtain ⟨program, hprogram⟩ := session.debugger.machine.memory.exists_program_compact
  refine ⟨load_of_dump (Option.some.inj hdump), Memory.pairwise_written _, fun address word => ?_,
    program, hprogram, Memory.word?_ofProgram_compact hprogram, ?_⟩
  · exact Memory.mem_written_iff
  · exact Memory.ofProgram_eq_iff_isGapless hprogram

/-- A word that is set behind a gap moves down, and the core brings back another memory. -/
theorem core_keeps_words_of_gap :
    ∃ session dumped program, Reachable ⟨[21], by decide, List.all_eq_true.mp rfl⟩ session ∧
      session.execute 0 .dump = some (.ok (.dumped ⟨"s", "c"⟩), dumped) ∧
      (∃ words, Image.load dumped.folder "c" = .ok words ∧ Program.ofWords words = .ok program) ∧
      (Machine.start program).memory ≠ session.debugger.machine.memory := by
  obtain ⟨debugger, hexecute, hword⟩ : ∃ debugger : Debugger,
      (start ⟨[21], by decide, List.all_eq_true.mp rfl⟩ [] ⟨[]⟩ ⟨"s", "c"⟩).execute 0
        (.set .memory [5, 7]) = some (.ok (.set .memory), ⟨debugger, ⟨[]⟩, ⟨"s", "c"⟩, .flat⟩) ∧
      ∀ address, debugger.machine.memory.word? address =
        if 5 = address ∧ address < memorySize then some 7 else [21][address]? := by
    refine ⟨_, execute_set_memory _ 0 (by decide) (by decide), fun address => ?_⟩
    rw [← Memory.word?_ofProgram ⟨[21], by decide, List.all_eq_true.mp rfl⟩]
    exact Memory.word?_put _ 5 address ⟨7, by decide⟩
  have hreach := Reachable.execute (.start [] ⟨[]⟩ ⟨"s", "c"⟩ .flat) hexecute
  obtain ⟨folder, hdump⟩ := exists_of_locate ⟨debugger, ⟨[]⟩, ⟨"s", "c"⟩, .flat⟩
    (Host.locate_flat_letter (.inl rfl)) (Host.locate_flat_letter (.inr rfl)) 0
  obtain ⟨hload, -, -, program, hprogram, -, hgap⟩ := core_keeps_words hdump
  refine ⟨_, _, program, hreach, hdump, ⟨_, hload, hprogram⟩, fun heq => ?_⟩
  -- The sixth cell is written, so that without a gap the second one would be as well.
  obtain ⟨size, hsize⟩ := hgap.mp heq
  have hsixth : 5 < size := by
    rw [← hsize, Memory.isWritten, hword, if_pos ⟨rfl, by decide⟩, Option.isSome_some]
  have hsecond : debugger.machine.memory.isWritten 1 = true :=
    (hsize 1).mpr (Nat.lt_trans (by decide) hsixth)
  rw [Memory.isWritten, hword, if_neg (by decide)] at hsecond
  cases hsecond

end WordMachine.Session
