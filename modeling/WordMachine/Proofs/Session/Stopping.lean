import WordMachine.Proofs.Debugger.Reasons
import WordMachine.Proofs.Session.Transparency

/-!
# Where a debugger stops

`Stops.EndsAt` says that a step, counted from one, ends a series of steps: the machine halts or
faults in it, or it goes through and there is a reason to stop behind it. `Stops.EndsFirst` is the
first such step. A debugger that runs or steps stops exactly there (`stops_of_endsFirst`), and goes
on as long as there is none (`goes_on_of_passes`).

`stops_exactly` puts these together with what the steps on the way have kept clear of.
-/

namespace WordMachine

/-! ## The step that ends a series -/

namespace Stops

/-- The step with the given number, counted from one, ends a series of steps. -/
inductive EndsAt (stops : Stops) (computer : Computer) : Nat → Stop → Prop where
  | halts {made : Nat} {halt : Halt} {after : Computer}
      (hstep : (computer.stepTimes made).step = (.halted halt, after)) :
      EndsAt stops computer (made + 1) (.halted halt)
  | faults {made : Nat} {fault : Fault} {after : Computer}
      (hstep : (computer.stepTimes made).step = (.faulted fault, after)) :
      EndsAt stops computer (made + 1) (.faulted fault)
  | continues {made : Nat} {stop : Stop} {after : Computer}
      (hstep : (computer.stepTimes made).step = (.continued, after))
      (hreason : stops.IsReason after.machine stop) : EndsAt stops computer (made + 1) stop

/-- None of the first steps ends a series of steps. -/
def Passes (stops : Stops) (computer : Computer) (steps : Nat) : Prop :=
  ∀ index ≤ steps, ∀ stop, ¬ stops.EndsAt computer index stop

/-- The step with the given number is the first one that ends a series of steps. -/
def EndsFirst (stops : Stops) (computer : Computer) (steps : Nat) (stop : Stop) : Prop :=
  stops.EndsAt computer steps stop ∧ ∀ index < steps, ∀ other, ¬ stops.EndsAt computer index other

variable {stops : Stops} {computer : Computer} {made steps : Nat} {stop : Stop}

/-- Before the first step nothing has ended. -/
theorem not_endsAt_zero : ¬ stops.EndsAt computer 0 stop := nofun

/-- Behind a step, the numbers of the steps to come are smaller by one. -/
theorem endsAt_succ_iff :
    stops.EndsAt computer (made + 2) stop ↔ stops.EndsAt computer.step.2 (made + 1) stop := by
  constructor
  · intro h
    cases h with
    | halts hstep => exact .halts hstep
    | faults hstep => exact .faults hstep
    | continues hstep hreason => exact .continues hstep hreason
  · intro h
    cases h with
    | halts hstep => exact .halts (computer.stepTimes_succ made ▸ hstep)
    | faults hstep => exact .faults (computer.stepTimes_succ made ▸ hstep)
    | continues hstep hreason => exact .continues (computer.stepTimes_succ made ▸ hstep) hreason

/-- Either none of the first steps ends a series, or one of them is the first to do so. -/
theorem passes_or_endsFirst (stops : Stops) (computer : Computer) (count : Nat) :
    stops.Passes computer count ∨
      ∃ steps ≤ count, ∃ stop, stops.EndsFirst computer steps stop := by
  induction count with
  | zero =>
    refine .inl fun index hindex stop hends => ?_
    obtain rfl := Nat.le_zero.mp hindex
    exact not_endsAt_zero hends
  | succ count ih =>
    rcases ih with hpasses | ⟨steps, hle, hfirst⟩
    · by_cases hlast : ∃ stop, stops.EndsAt computer (count + 1) stop
      · obtain ⟨stop, hends⟩ := hlast
        exact .inr ⟨count + 1, Nat.le_refl _, stop, hends,
          fun index hlt => hpasses index (Nat.le_of_lt_succ hlt)⟩
      · refine .inl fun index hle => ?_
        rcases Nat.le_or_eq_of_le_succ hle with hle | rfl
        · exact hpasses index hle
        · exact not_exists.mp hlast
    · exact .inr ⟨steps, Nat.le_succ_of_le hle, hfirst⟩

/-- A series that passes its first steps passes one step less when seen from behind the first. -/
theorem Passes.tail (h : stops.Passes computer (steps + 1)) :
    stops.Passes computer.step.2 steps := by
  intro index hle stop hends
  cases index with
  | zero => exact not_endsAt_zero hends
  | succ made => exact h (made + 2) (by omega) stop (endsAt_succ_iff.mpr hends)

/-- A series whose first step does not end it ends one step earlier when seen from behind it. -/
theorem EndsFirst.tail (h : stops.EndsFirst computer (made + 2) stop) :
    stops.EndsFirst computer.step.2 (made + 1) stop := by
  refine ⟨endsAt_succ_iff.mp h.1, fun index hlt other hends => ?_⟩
  cases index with
  | zero => exact not_endsAt_zero hends
  | succ index => exact h.2 (index + 2) (by omega) other (endsAt_succ_iff.mpr hends)

/-- Behind a step that does not end the series, the next instruction keeps clear of everything to
stop at. -/
theorem spares_of_not_endsAt (h : ∀ stop, ¬ stops.EndsAt computer (made + 1) stop) :
    stops.Spares (computer.stepTimes (made + 1)) := by
  rw [Computer.stepTimes_succ']
  rcases hstep : (computer.stepTimes made).step with ⟨outcome, after⟩
  cases outcome with
  | halted halt => exact absurd (.halts hstep) (h (.halted halt))
  | faulted fault => exact absurd (.faults hstep) (h (.faulted fault))
  | continued =>
    refine spares_of_not_meets (reason?_eq_none_iff.mp ?_)
    rw [Option.eq_none_iff_forall_ne_some]
    intro stop hreason
    exact h stop (.continues hstep (reason?_eq_some_iff.mp hreason))

/-- The instructions that a series executes behind its first one keep clear of everything to stop
at. -/
theorem spares_of_lt (h : ∀ index < steps, ∀ stop, ¬ stops.EndsAt computer index stop) :
    ∀ index, 1 ≤ index → index < steps → stops.Spares (computer.stepTimes index) := by
  intro index hpos hlt
  obtain ⟨made, rfl⟩ := Nat.exists_eq_add_of_le' hpos
  exact spares_of_not_endsAt (h (made + 1) hlt)

end Stops

/-! ## Stepping and running -/

/-- The number of steps that are counted in a series that ends with a stop. A fault is no step. -/
def Stop.counted (stop : Stop) (steps : Nat) : Nat :=
  match stop with
  | .faulted _ => steps - 1
  | .stepped | .breakpoint _ | .breakop _ | .watch _ | .halted _ => steps

namespace Debugger

/-- The debugger behind a series of steps that ends with a stop. -/
def behind (debugger : Debugger) (steps : Nat) (stop : Stop) : Debugger :=
  { debugger with
    computer := debugger.computer.stepTimes steps
    cycles := debugger.cycles + stop.counted steps }

variable {debugger : Debugger} {made steps : Nat} {stop : Stop}

/-- A series of steps may be cut behind its first one. -/
theorem behind_behind (debugger : Debugger) (made : Nat) (stop : Stop) :
    (debugger.behind 1 .stepped).behind (made + 1) stop = debugger.behind (made + 2) stop := by
  have hcounted : debugger.cycles + 1 + stop.counted (made + 1) =
      debugger.cycles + stop.counted (made + 2) := by
    cases stop <;> simp only [Stop.counted] <;> omega
  exact congrArg (fun cycles => { debugger with
    computer := debugger.computer.stepTimes (made + 2), cycles }) hcounted

/-- What an advance of a running machine comes to depends on the outcome of the step. -/
theorem advance_of_step {outcome : Outcome} {after : Computer}
    (hrunning : debugger.machine.halted = none)
    (hstep : debugger.computer.step = (outcome, after)) :
    debugger.advance =
      match outcome with
      | .continued => (debugger.stops.reason? after.machine, debugger.behind 1 .stepped)
      | .halted halt => (some (.halted halt), debugger.behind 1 (.halted halt))
      | .faulted fault => (some (.faulted fault), debugger.behind 1 (.faulted fault)) := by
  obtain ⟨computer, program, stops, cycles⟩ := debugger
  have hrunning : computer.machine.halted = none := hrunning
  have hstep : computer.step = (outcome, after) := hstep
  have hafter : computer.stepTimes 1 = after := congrArg Prod.snd hstep
  simp only [advance, hrunning, hstep, behind, hafter]
  cases outcome <;> rfl

/-- A step that ends a series is answered with its stop. -/
theorem advance_of_endsAt (hrunning : debugger.machine.halted = none)
    (h : debugger.stops.EndsAt debugger.computer 1 stop) :
    debugger.advance = (some stop, debugger.behind 1 stop) := by
  cases h with
  | halts hstep => exact advance_of_step hrunning hstep
  | faults hstep => exact advance_of_step hrunning hstep
  | continues hstep hreason =>
    have hbehind : debugger.behind 1 .stepped = debugger.behind 1 stop := by
      cases hreason.1 <;> rfl
    have hadvance := advance_of_step hrunning hstep
    simp only [Stops.reason?_eq_some_iff.mpr hreason] at hadvance
    rw [hadvance, hbehind]

/-- A step that does not end a series is made and counted, and the machine goes on running. -/
theorem advance_of_not_endsAt (hrunning : debugger.machine.halted = none)
    (h : ∀ stop, ¬ debugger.stops.EndsAt debugger.computer 1 stop) :
    debugger.advance = (none, debugger.behind 1 .stepped) ∧
      (debugger.behind 1 .stepped).machine.halted = none := by
  rcases hstep : debugger.computer.step with ⟨outcome, after⟩
  have hadvance := advance_of_step hrunning hstep
  cases outcome with
  | halted halt => exact absurd (.halts hstep) (h (.halted halt))
  | faulted fault => exact absurd (.faults hstep) (h (.faulted fault))
  | continued =>
    have hnone : debugger.stops.reason? after.machine = none := by
      rw [Option.eq_none_iff_forall_ne_some]
      intro stop hreason
      exact h stop (.continues hstep (Stops.reason?_eq_some_iff.mp hreason))
    have hafter : (debugger.behind 1 .stepped).computer = after := congrArg Prod.snd hstep
    simp only [hnone] at hadvance
    refine ⟨hadvance, ?_⟩
    rw [machine, hafter]
    exact (Computer.halted_of_step_continued hstep).2

/-- Where none of the steps ends the series, all that were asked for are made, and a run has not
stopped yet. -/
theorem goes_on_of_passes (hrunning : debugger.machine.halted = none)
    (h : debugger.stops.Passes debugger.computer steps) :
    debugger.step steps = (.stepped, debugger.behind steps .stepped) ∧
      debugger.run steps = none := by
  induction steps generalizing debugger with
  | zero => exact ⟨rfl, rfl⟩
  | succ steps ih =>
    obtain ⟨hadvance, hstill⟩ := advance_of_not_endsAt hrunning (h 1 (by omega))
    obtain ⟨hstep, hrun⟩ := ih hstill h.tail
    rw [step, run, hadvance]
    simp only
    rw [hstep, hrun]
    cases steps with
    | zero => exact ⟨rfl, rfl⟩
    | succ made => exact ⟨by rw [behind_behind], rfl⟩

/-- Where a step ends the series, no more steps are made, and a run stops. -/
theorem stops_of_endsFirst (hrunning : debugger.machine.halted = none)
    (h : debugger.stops.EndsFirst debugger.computer steps stop) {count : Nat}
    (hle : steps ≤ count) :
    debugger.step count = (stop, debugger.behind steps stop) ∧
      debugger.run count = some (stop, debugger.behind steps stop) := by
  induction count generalizing debugger steps with
  | zero =>
    obtain rfl := Nat.le_zero.mp hle
    exact absurd h.1 Stops.not_endsAt_zero
  | succ count ih =>
    rw [step, run]
    cases steps with
    | zero => exact absurd h.1 Stops.not_endsAt_zero
    | succ made =>
      cases made with
      | zero =>
        rw [advance_of_endsAt hrunning h.1]
        exact ⟨rfl, rfl⟩
      | succ made =>
        obtain ⟨hadvance, hstill⟩ := advance_of_not_endsAt hrunning (h.2 1 (by omega))
        obtain ⟨hstep, hrun⟩ := ih hstill h.tail (by omega)
        rw [hadvance]
        simp only
        rw [hstep, hrun, behind_behind]
        exact ⟨rfl, rfl⟩

/-- A debugger stops exactly where it should. When a running machine is stepped, the first step
within the count that ends the series is the last one made and its stop is the answer, and without
one all steps are made; a run answers exactly if there is such a step at all. The instructions that
are executed on the way, from the second one on, keep clear of everything to stop at. -/
theorem stops_exactly (hrunning : debugger.machine.halted = none) :
    (∀ count, ∃ steps stop, debugger.step count = (stop, debugger.behind steps stop) ∧
      (steps ≤ count ∧ debugger.stops.EndsFirst debugger.computer steps stop ∨
        steps = count ∧ stop = .stepped ∧ debugger.stops.Passes debugger.computer count) ∧
      ∀ index, 1 ≤ index → index < steps →
        debugger.stops.Spares (debugger.computer.stepTimes index)) ∧
    ∀ budget stop after, debugger.run budget = some (stop, after) ↔
      ∃ steps ≤ budget, debugger.stops.EndsFirst debugger.computer steps stop ∧
        after = debugger.behind steps stop ∧
        ∀ index, 1 ≤ index → index < steps →
          debugger.stops.Spares (debugger.computer.stepTimes index) := by
  constructor
  · intro count
    rcases debugger.stops.passes_or_endsFirst debugger.computer count with
      hpasses | ⟨steps, hle, stop, hfirst⟩
    · exact ⟨count, .stepped, (goes_on_of_passes hrunning hpasses).1, .inr ⟨rfl, rfl, hpasses⟩,
        Stops.spares_of_lt fun index hlt => hpasses index (Nat.le_of_lt hlt)⟩
    · exact ⟨steps, stop, (stops_of_endsFirst hrunning hfirst hle).1, .inl ⟨hle, hfirst⟩,
        Stops.spares_of_lt hfirst.2⟩
  · intro budget stop after
    constructor
    · intro hrun
      rcases debugger.stops.passes_or_endsFirst debugger.computer budget with
        hpasses | ⟨steps, hle, found, hfirst⟩
      · rw [(goes_on_of_passes hrunning hpasses).2] at hrun
        cases hrun
      · rw [(stops_of_endsFirst hrunning hfirst hle).2] at hrun
        obtain ⟨rfl, rfl⟩ := Prod.mk.inj (Option.some.inj hrun)
        exact ⟨steps, hle, hfirst, rfl, Stops.spares_of_lt hfirst.2⟩
    · rintro ⟨steps, hle, hfirst, rfl, -⟩
      exact (stops_of_endsFirst hrunning hfirst hle).2

/-- A run stops at a breakpoint behind the first instruction. -/
theorem stops_exactly_behind_noop :
    run { start ⟨[21, 0], by decide, List.all_eq_true.mp rfl⟩ [] with stops := ⟨[1], [], []⟩ } 1 =
      some (.breakpoint 1, behind
        { start ⟨[21, 0], by decide, List.all_eq_true.mp rfl⟩ [] with stops := ⟨[1], [], []⟩ } 1
        (.breakpoint 1)) := by
  have hstep : (Computer.start ⟨[21, 0], by decide, List.all_eq_true.mp rfl⟩ []).step =
      (.continued,
        (Computer.start ⟨[21, 0], by decide, List.all_eq_true.mp rfl⟩ []).goTo (0 + 1)) :=
    Computer.step_noop rfl (Memory.word?_ofProgram _ 0)
  have hreason : Stops.IsReason ⟨[1], [], []⟩
      ((Computer.start ⟨[21, 0], by decide, List.all_eq_true.mp rfl⟩ []).goTo (0 + 1)).machine
      (.breakpoint 1) :=
    ⟨.breakpoint List.mem_cons_self, fun _ _ => Nat.zero_le _⟩
  refine ((stops_exactly rfl).2 _ _ _).mpr ⟨1, Nat.le_refl 1, ⟨?_, ?_⟩, rfl, ?_⟩
  · exact .continues hstep hreason
  · intro index hlt other
    obtain rfl := Nat.lt_one_iff.mp hlt
    exact Stops.not_endsAt_zero
  · intro index hpos hlt
    omega

end Debugger

end WordMachine
