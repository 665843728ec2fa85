import Mathlib.Data.ENat.Lattice
import ScriptMachine.Proofs.Machine.CallStack
import ScriptMachine.Proofs.Machine.Stepping

/-!
# Limits cut runs short

A run checks its limits before each instruction.  A limit that is reached ends the run there; up to
that instruction, and if no limit is reached, it is the run that it would be without the limit.

* `Run.due?`              the instruction for which a run checks its limits;
* `Run.dispatched?`       the same if the limits allow it, so that it is executed;
* `Run.count`             how often a run comes to a place of some kind;
* `Machine.limitChecks`   how often an operation checks its limits, which may be infinitely often;
* `runFor_within`, `ahead_of_beyond`   a run up to a limit of instructions;
* `runFor_deeper`         a run whose stack is never too deep;
* `resume_limits`         running and stepping under different limits.
-/

namespace ScriptMachine

/-! ## what a run checks -/

/-- The instruction for which a run checks its limits next.  There is none if the run is lost, or
pauses before. -/
def Run.due? (linked : Linked) (drive : Drive) (run : Run) : Option Instruction :=
  (linked.program.instruction? run.state.location.sectionIndex run.state.location.pc).filter
    fun ins => !decide (drive = .step ∧ ins.startsStatement ∧ run.moved)

/-- the instruction that a run executes next, if it does -/
def Run.dispatched? (linked : Linked) (limits : Limits) (drive : Drive) (run : Run) :
    Option Instruction :=
  (run.due? linked drive).filter
    fun _ => (limits.exceeded? (run.cycles + 1) run.state.stack.depth).isNone

/-- how many of the first `fuel` places that a run comes to are of some kind -/
def Run.count (linked : Linked) (limits : Limits) (drive : Drive) (kind : Run → Bool) :
    Nat → Run → Nat
  | 0, _ => 0
  | fuel + 1, run => (if kind run then 1 else 0) + match tick linked limits drive run with
    | .going run' => run'.count linked limits drive kind fuel
    | .stopped _ => 0

/-- does the run check its limits next? -/
abbrev Run.checks (linked : Linked) (drive : Drive) (run : Run) : Bool :=
  (run.due? linked drive).isSome

/-- does the run execute an instruction next? -/
abbrev Run.dispatches (linked : Linked) (limits : Limits) (drive : Drive) (run : Run) : Bool :=
  (run.dispatched? linked limits drive).isSome

section
variable {linked : Linked} {limits : Limits} {drive : Drive} {run run' last : Run} {ins : Instruction}
  {fuel n : Nat}

/-- a run that checks no limit stops, whatever the limits are -/
theorem tick_of_not_due (h : run.due? linked drive = none) :
    ∃ stop, ∀ limits, tick linked limits drive run = .stopped stop := by
  unfold Run.due? at h
  unfold tick
  dsimp only
  cases hins : linked.program.instruction? run.state.location.sectionIndex run.state.location.pc with
  | none => exact ⟨_, fun _ => rfl⟩
  | some ins =>
    rw [hins] at h
    have hwait : drive = .step ∧ ins.startsStatement ∧ run.moved := by
      simpa [Option.filter_some] using h
    exact ⟨_, fun _ => if_pos hwait⟩

/-- a run that checks its limits fails at one or executes the instruction -/
theorem tick_of_due (h : run.due? linked drive = some ins) (limits : Limits) :
    tick linked limits drive run
      = match limits.exceeded? (run.cycles + 1) run.state.stack.depth with
        | some e => .stopped (.failed e run.state)
        | none => .after drive (run.cycles + 1) (execute linked ins.op run.state) := by
  obtain ⟨hins, hgoes⟩ := Option.filter_eq_some_iff.mp h
  have hwait : ¬ (drive = .step ∧ ins.startsStatement = true ∧ run.moved = true) :=
    of_decide_eq_false (Bool.not_eq_true' _ ▸ hgoes)
  unfold tick
  dsimp only
  rw [hins]
  dsimp only
  rw [if_neg hwait]
  cases limits.exceeded? (run.cycles + 1) run.state.stack.depth with
  | some e => rfl
  | none =>
    dsimp only
    cases execute linked ins.op run.state with
    | error e s => rfl
    | ok signal s => cases signal <;> rfl

theorem cycles_of_after {cycles : Nat} {r : EStateM.Result RuntimeError State Signal}
    (h : Progress.after drive cycles r = .going run') : run'.cycles = cycles := by
  cases r with
  | error e s => cases h
  | ok signal s =>
    cases signal with
    | proceed =>
      cases h
      rfl
    | pause =>
      unfold Progress.after at h
      dsimp only at h
      split at h <;> cases h
      rfl
    | halt | hostReturn => cases h

/-- a run that goes on has executed an instruction, and counts it -/
theorem dispatched_of_going (h : tick linked limits drive run = .going run') :
    run.dispatches linked limits drive = true ∧ run'.cycles = run.cycles + 1 := by
  cases hdue : run.due? linked drive with
  | none =>
    obtain ⟨stop, hstop⟩ := tick_of_not_due hdue
    rw [hstop] at h
    cases h
  | some ins =>
    rw [tick_of_due hdue] at h
    cases hlimit : limits.exceeded? (run.cycles + 1) run.state.stack.depth with
    | some e =>
      rw [hlimit] at h
      cases h
    | none =>
      rw [hlimit] at h
      refine ⟨?_, cycles_of_after h⟩
      rw [Run.dispatches, Run.dispatched?, hdue, hlimit]
      rfl

theorem checks_of_going (h : tick linked limits drive run = .going run') :
    run.checks linked drive = true := by
  obtain ⟨ins, hins⟩ := Option.isSome_iff_exists.mp (dispatched_of_going h).1
  exact Option.isSome_iff_exists.mpr ⟨ins, (Option.filter_eq_some_iff.mp hins).1⟩

/-! ## counting -/

theorem count_going {kind : Run → Bool} (h : tick linked limits drive run = .going run')
    (hkind : kind run = true) : run.count linked limits drive kind (fuel + 1)
      = run'.count linked limits drive kind fuel + 1 := by
  rw [Run.count, h, if_pos hkind, Nat.add_comm]

theorem count_le (kind : Run → Bool) (fuel : Nat) (run : Run) :
    run.count linked limits drive kind fuel ≤ fuel := by
  induction fuel generalizing run with
  | zero => exact Nat.le_refl _
  | succ fuel ih =>
    have hone : (if kind run = true then 1 else 0) ≤ 1 := by split <;> decide
    rw [Run.count]
    cases tick linked limits drive run with
    | stopped stop => exact Nat.le_trans hone (Nat.succ_le_succ (Nat.zero_le _))
    | going run' =>
      have hrest := ih run'
      dsimp only
      omega

/-- a run that is still going has checked its limits before each of its instructions -/
theorem count_checks_of_none (h : runFor linked limits drive fuel run = none) :
    run.count linked limits drive (Run.checks linked drive) fuel = fuel := by
  induction fuel generalizing run with
  | zero => rfl
  | succ fuel ih =>
    rw [runFor] at h
    cases htick : tick linked limits drive run with
    | stopped stop =>
      rw [htick] at h
      cases h
    | going run' =>
      rw [htick] at h
      rw [count_going htick (checks_of_going htick), ih h]

/-- so many instructions were executed, and then so many more -/
theorem count_ahead (h : run.ahead linked limits drive n = some last) :
    run.count linked limits drive (Run.dispatches linked limits drive) (n + fuel)
      = n + last.count linked limits drive (Run.dispatches linked limits drive) fuel := by
  induction n generalizing run with
  | zero =>
    cases h
    rw [Nat.zero_add, Nat.zero_add]
  | succ n ih =>
    rw [Run.ahead] at h
    cases htick : tick linked limits drive run with
    | stopped stop =>
      rw [htick] at h
      cases h
    | going run' =>
      rw [htick] at h
      rw [Nat.add_right_comm n 1 fuel, count_going htick (dispatched_of_going htick).1, ih h]
      omega

theorem runFor_ahead (h : run.ahead linked limits drive n = some last) :
    runFor linked limits drive (n + fuel) run = runFor linked limits drive fuel last := by
  induction n generalizing run with
  | zero =>
    cases h
    rw [Nat.zero_add]
  | succ n ih =>
    rw [Run.ahead] at h
    rw [Nat.add_right_comm n 1 fuel, runFor]
    cases htick : tick linked limits drive run with
    | stopped stop =>
      rw [htick] at h
      cases h
    | going run' =>
      rw [htick] at h
      exact ih h

/-- so long a run does not stop -/
theorem runFor_of_le (h : run.ahead linked limits drive n = some last) (hle : fuel ≤ n) :
    runFor linked limits drive fuel run = none := by
  induction n generalizing run fuel with
  | zero =>
    rw [Nat.le_zero.mp hle]
    rfl
  | succ n ih =>
    cases fuel with
    | zero => rfl
    | succ fuel =>
      rw [Run.ahead] at h
      rw [runFor]
      cases htick : tick linked limits drive run with
      | stopped stop =>
        rw [htick] at h
        cases h
      | going run' =>
        rw [htick] at h
        exact ih h (Nat.le_of_succ_le_succ hle)

end

/-! ## a limit of instructions -/

section
variable {linked : Linked} {depth : Nat} {drive : Drive} {run : Run} {n fuel : Nat}

theorem exceeded_within {cycles : Nat} (h : cycles ≤ n) (d : Nat) :
    Limits.exceeded? ⟨some n, depth⟩ cycles d = Limits.exceeded? ⟨none, depth⟩ cycles d :=
  if_neg (Nat.not_lt.mpr h)

theorem exceeded_beyond {cycles : Nat} (h : n < cycles) (d : Nat) :
    Limits.exceeded? ⟨some n, depth⟩ cycles d = some (.tooManyCycles n) := if_pos h

/-- an instruction within the limit is executed as if there was none -/
theorem tick_within (h : run.checks linked drive = true → run.cycles + 1 ≤ n) :
    tick linked ⟨some n, depth⟩ drive run = tick linked ⟨none, depth⟩ drive run := by
  cases hdue : run.due? linked drive with
  | none =>
    obtain ⟨stop, hstop⟩ := tick_of_not_due hdue
    rw [hstop, hstop]
  | some ins =>
    rw [tick_of_due hdue, tick_of_due hdue, exceeded_within (h (by rw [Run.checks, hdue]; rfl))]

/-- the first instruction beyond the limit is not executed -/
theorem tick_beyond (hchecks : run.checks linked drive = true) (h : n < run.cycles + 1) :
    tick linked ⟨some n, depth⟩ drive run = .stopped (.failed (.tooManyCycles n) run.state) := by
  obtain ⟨ins, hdue⟩ := Option.isSome_iff_exists.mp hchecks
  rw [tick_of_due hdue, exceeded_beyond h]

/-- A run that checks its limits no more than `n` times is the run without the limit. -/
theorem runFor_within (h : run.cycles
      + run.count linked ⟨none, depth⟩ drive (Run.checks linked drive) fuel ≤ n) :
    runFor linked ⟨some n, depth⟩ drive fuel run = runFor linked ⟨none, depth⟩ drive fuel run := by
  induction fuel generalizing run with
  | zero => rfl
  | succ fuel ih =>
    rw [Run.count] at h
    have hfirst : run.checks linked drive = true → run.cycles + 1 ≤ n := by
      intro hchecks
      rw [if_pos hchecks] at h
      omega
    rw [runFor, runFor, tick_within hfirst]
    cases htick : tick linked ⟨none, depth⟩ drive run with
    | stopped stop => rfl
    | going run' =>
      rw [htick, if_pos (checks_of_going htick)] at h
      refine ih ?_
      rw [(dispatched_of_going htick).2]
      dsimp only at h
      omega

/-- A run that checks its limits more often gets to its instruction number `n` as it does without the
limit, and then checks them once more. -/
theorem ahead_of_beyond {k : Nat} (h : k < run.count linked ⟨none, depth⟩ drive (Run.checks linked drive) fuel)
    (hn : n = run.cycles + k) : ∃ last, last.cycles = n ∧ last.checks linked drive = true
      ∧ run.ahead linked ⟨some n, depth⟩ drive k = some last
      ∧ run.ahead linked ⟨none, depth⟩ drive k = some last := by
  induction k generalizing run fuel with
  | zero =>
    cases fuel with
    | zero => cases h
    | succ fuel =>
      refine ⟨run, hn.symm, ?_, rfl, rfl⟩
      by_contra hchecks
      rw [Run.count, if_neg hchecks] at h
      cases htick : tick linked ⟨none, depth⟩ drive run with
      | stopped stop =>
        rw [htick] at h
        cases h
      | going run' => exact hchecks (checks_of_going htick)
  | succ k ih =>
    cases fuel with
    | zero => cases h
    | succ fuel =>
      rw [Run.ahead, Run.ahead, tick_within fun _ => by omega]
      cases htick : tick linked ⟨none, depth⟩ drive run with
      | stopped stop =>
        rw [Run.count, htick] at h
        have hone : (if run.checks linked drive = true then 1 else 0) ≤ 1 := by split <;> decide
        dsimp only at h
        omega
      | going run' =>
        rw [count_going htick (checks_of_going htick)] at h
        refine ih (Nat.lt_of_succ_lt_succ h) ?_
        rw [(dispatched_of_going htick).2, hn]
        omega

end

/-! ## a limit of the stack -/

section
variable {linked : Linked} {max : Option Nat} {depth depth' : Nat} {drive : Drive} {run : Run}
  {fuel : Nat}

/-- a deeper limit is not reached either -/
theorem exceeded_deeper (hdepth : depth ≤ depth') {cycles d : Nat}
    (h : Limits.exceeded? ⟨max, depth⟩ cycles d ≠ some (.stackOverflow depth)) :
    Limits.exceeded? ⟨max, depth'⟩ cycles d = Limits.exceeded? ⟨max, depth⟩ cycles d := by
  have hshallow : Limits.exceeded? ⟨none, depth⟩ cycles d ≠ some (.stackOverflow depth) →
      Limits.exceeded? ⟨none, depth'⟩ cycles d = Limits.exceeded? ⟨none, depth⟩ cycles d := by
    intro h
    have hd : ¬ depth < d := fun hlt => h (if_pos hlt)
    exact (if_neg fun hlt => hd (Nat.lt_of_le_of_lt hdepth hlt)).trans (if_neg hd).symm
  cases max with
  | none => exact hshallow h
  | some n =>
    by_cases hn : n < cycles
    · rw [exceeded_beyond hn, exceeded_beyond hn]
    · have hn := Nat.not_lt.mp hn
      rw [exceeded_within hn] at h ⊢
      rw [exceeded_within hn]
      exact hshallow h

/-- A run whose stack is not too deep is the same run under a deeper limit. -/
theorem runFor_deeper (hdepth : depth ≤ depth')
    (h : ∀ s, runFor linked ⟨max, depth⟩ drive fuel run ≠ some (.failed (.stackOverflow depth) s)) :
    runFor linked ⟨max, depth'⟩ drive fuel run = runFor linked ⟨max, depth⟩ drive fuel run := by
  induction fuel generalizing run with
  | zero => rfl
  | succ fuel ih =>
    rw [runFor] at h
    rw [runFor, runFor]
    cases hdue : run.due? linked drive with
    | none =>
      obtain ⟨stop, hstop⟩ := tick_of_not_due hdue
      rw [hstop, hstop]
    | some ins =>
      have hsame : tick linked ⟨max, depth'⟩ drive run = tick linked ⟨max, depth⟩ drive run := by
        rw [tick_of_due hdue, tick_of_due hdue, exceeded_deeper hdepth]
        intro hlimit
        rw [tick_of_due hdue, hlimit] at h
        exact h _ rfl
      rw [hsame]
      cases htick : tick linked ⟨max, depth⟩ drive run with
      | stopped stop => rfl
      | going run' =>
        rw [htick] at h
        exact ih h

/-- an instruction that is executed finds no more entries than the limit says -/
theorem depth_le_of_dispatched {limits : Limits} {ins : Instruction}
    (h : run.dispatched? linked limits drive = some ins) :
    run.state.stack.depth ≤ limits.maxStackDepth := by
  obtain ⟨-, hlimit⟩ := Option.filter_eq_some_iff.mp h
  have hnone := Option.isNone_iff_eq_none.mp hlimit
  refine Nat.not_lt.mp fun hlt => ?_
  obtain ⟨max, depth⟩ := limits
  have hover : Limits.exceeded? ⟨none, depth⟩ (run.cycles + 1) run.state.stack.depth
      = some (.stackOverflow depth) := if_pos hlt
  cases max with
  | none =>
    rw [hover] at hnone
    cases hnone
  | some n =>
    by_cases hn : n < run.cycles + 1
    · rw [exceeded_beyond hn] at hnone
      cases hnone
    · rw [exceeded_within (Nat.not_lt.mp hn), hover] at hnone
      cases hnone

end

/-! ## operations -/

namespace Machine

/-- the same machine under other limits -/
def limited (m : Machine) (limits : Limits) : Machine := { m with limits := limits }

/-- the same outcome, with the machine under other limits -/
def Outcome.limited {α : Type} (limits : Limits) (outcome : Outcome α) : Outcome α :=
  (outcome.1, outcome.2.limited limits)

/-- the run with which the program goes on -/
def resumed (m : Machine) : Run := ⟨m.state, 0, m.moved⟩

/-- how often an operation checks its limits, which may be infinitely often -/
noncomputable def limitChecks (m : Machine) (drive : Drive) : ℕ∞ :=
  ⨆ fuel, (m.resumed.count m.linked m.limits drive (Run.checks m.linked drive) fuel : ℕ∞)

/-- how many instructions an operation executes -/
noncomputable def dispatches (m : Machine) (drive : Drive) : ℕ∞ :=
  ⨆ fuel, (m.resumed.count m.linked m.limits drive (Run.dispatches m.linked m.limits drive) fuel : ℕ∞)

theorem finishRun_limited (m : Machine) (limits : Limits) (stop : Stop) :
    (m.limited limits).finishRun stop = (m.finishRun stop).limited limits := by
  cases stop <;> rfl

section
variable {m : Machine} {drive : Drive} {limits limits' : Limits} {depth n fuel : Nat}

theorem resume_limited_eq (hmode : m.mode = .paused) (limits : Limits) (drive : Drive) (fuel : Nat) :
    (m.limited limits).resume drive fuel
      = (runFor m.linked limits drive fuel m.resumed).map (m.limited limits).finishRun :=
  resume_eq (m := m.limited limits) hmode drive fuel

/-- the same run under other limits is the same outcome -/
theorem resume_limited (hmode : m.mode = .paused)
    (h : runFor m.linked limits' drive fuel m.resumed = runFor m.linked limits drive fuel m.resumed) :
    (m.limited limits').resume drive fuel
      = ((m.limited limits).resume drive fuel).map (Outcome.limited limits') := by
  rw [resume_limited_eq hmode, resume_limited_eq hmode, h, Option.map_map]
  congr 1
  funext stop
  rw [Function.comp_apply, finishRun_limited, finishRun_limited]
  rfl

/-- an operation that checks its limits no more often than `n` times -/
theorem resume_within (hmode : m.mode = .paused)
    (hk : (m.limited ⟨none, depth⟩).limitChecks drive ≤ n) :
    (∃ fuel outcome, (m.limited ⟨none, depth⟩).resume drive fuel = some outcome)
      ∧ ∀ fuel, (m.limited ⟨some n, depth⟩).resume drive fuel
        = ((m.limited ⟨none, depth⟩).resume drive fuel).map (Outcome.limited ⟨some n, depth⟩) := by
  have hcount (fuel : Nat) :
      m.resumed.count m.linked ⟨none, depth⟩ drive (Run.checks m.linked drive) fuel ≤ n :=
    Nat.cast_le.mp ((le_iSup _ fuel).trans hk)
  refine ⟨?_, fun fuel => resume_limited hmode (runFor_within ?_)⟩
  · -- a run that is still going after `n + 1` instructions has checked its limits too often
    cases hstop : runFor m.linked ⟨none, depth⟩ drive (n + 1) m.resumed with
    | none =>
      have hall := hcount (n + 1)
      rw [count_checks_of_none hstop] at hall
      exact absurd hall (Nat.not_succ_le_self n)
    | some stop =>
      refine ⟨n + 1, (m.limited ⟨none, depth⟩).finishRun stop, ?_⟩
      rw [resume_limited_eq hmode, hstop]
      rfl
  · rw [resumed, Nat.zero_add]
    exact hcount fuel

/-- an operation that checks its limits more often than `n` times -/
theorem resume_beyond (hmode : m.mode = .paused)
    (hk : n < (m.limited ⟨none, depth⟩).limitChecks drive) :
    (m.limited ⟨some n, depth⟩).dispatches drive = n
      ∧ ∃ last, m.resumed.ahead m.linked ⟨none, depth⟩ drive n = some last
        ∧ ∀ fuel, (m.limited ⟨some n, depth⟩).resume drive fuel = if fuel ≤ n then none else
          some (.error (.tooManyCycles n), (m.limited ⟨some n, depth⟩).abandon last.state) := by
  obtain ⟨fuel, hfuel⟩ := lt_iSup_iff.mp hk
  have hfuel : n < m.resumed.count m.linked ⟨none, depth⟩ drive (Run.checks m.linked drive) fuel :=
    Nat.cast_lt.mp hfuel
  obtain ⟨last, hcycles, hchecks, hlast, hlast'⟩ := ahead_of_beyond hfuel (Nat.zero_add n).symm
  have hbeyond : n < last.cycles + 1 := hcycles ▸ Nat.lt_succ_self n
  have hstop : tick m.linked ⟨some n, depth⟩ drive last
      = .stopped (.failed (.tooManyCycles n) last.state) := tick_beyond hchecks hbeyond
  have hnone (fuel : Nat) : last.count m.linked ⟨some n, depth⟩ drive
      (Run.dispatches m.linked ⟨some n, depth⟩ drive) fuel = 0 := by
    cases fuel with
    | zero => rfl
    | succ fuel =>
      have hdispatch : last.dispatches m.linked ⟨some n, depth⟩ drive = false := by
        rw [Run.dispatches, Run.dispatched?, exceeded_beyond hbeyond]
        cases last.due? m.linked drive <;> rfl
      rw [Run.count, hstop, hdispatch]
      rfl
  have hcount (fuel : Nat) : m.resumed.count m.linked ⟨some n, depth⟩ drive
      (Run.dispatches m.linked ⟨some n, depth⟩ drive) (n + fuel) = n := by
    rw [count_ahead hlast, hnone, Nat.add_zero]
  refine ⟨le_antisymm (iSup_le fun fuel => Nat.cast_le.mpr ?_) ?_, last, hlast', fun fuel => ?_⟩
  · rcases Nat.le_total fuel n with hle | hle
    · exact (count_le _ _ _).trans hle
    · obtain ⟨more, rfl⟩ := Nat.exists_eq_add_of_le hle
      exact (hcount more).le
  · exact le_iSup_of_le n (Nat.cast_le.mpr (hcount 0).ge)
  · rw [resume_limited_eq hmode]
    split
    · next hle =>
      rw [runFor_of_le hlast hle]
      rfl
    · obtain ⟨more, rfl⟩ : ∃ more, fuel = n + (more + 1) := ⟨fuel - (n + 1), by omega⟩
      rw [runFor_ahead hlast, runFor, hstop]
      rfl

end

end Machine

/-- **Limits cut a run without changing it.**  Take any machine whose program is not done, and any way of
going on with it.  Under a limit of `n` instructions the operation has the outcome that it has without
that limit if it checks its limits at most `n` times; else it fails after exactly `n` instructions, in the
state that it comes to without the limit.  If it does not fail for the depth of its stack, it has the same
outcome under every deeper limit.  And no instruction of any run is executed on a deeper stack than the
limit says. -/
theorem resume_limits (m : Machine) (hmode : m.mode = .paused) (drive : Drive) (depth : Nat) :
    (∀ n : Nat,
      ((m.limited ⟨none, depth⟩).limitChecks drive ≤ n →
        (∃ fuel outcome, (m.limited ⟨none, depth⟩).resume drive fuel = some outcome)
        ∧ ∀ fuel, (m.limited ⟨some n, depth⟩).resume drive fuel
          = ((m.limited ⟨none, depth⟩).resume drive fuel).map (Machine.Outcome.limited ⟨some n, depth⟩))
      ∧ (n < (m.limited ⟨none, depth⟩).limitChecks drive →
        (m.limited ⟨some n, depth⟩).dispatches drive = n
        ∧ ∃ last, m.resumed.ahead m.linked ⟨none, depth⟩ drive n = some last
          ∧ ∀ fuel, (m.limited ⟨some n, depth⟩).resume drive fuel = if fuel ≤ n then none else
            some (.error (.tooManyCycles n), (m.limited ⟨some n, depth⟩).abandon last.state)))
    ∧ (∀ max depth', depth ≤ depth' → ∀ fuel,
      (∀ m', (m.limited ⟨max, depth⟩).resume drive fuel ≠ some (.error (.stackOverflow depth), m')) →
      (m.limited ⟨max, depth'⟩).resume drive fuel
        = ((m.limited ⟨max, depth⟩).resume drive fuel).map (Machine.Outcome.limited ⟨max, depth'⟩))
    ∧ ∀ (linked : Linked) max drive (run : Run) ins,
      run.dispatched? linked ⟨max, depth⟩ drive = some ins → run.state.stack.depth ≤ depth := by
  refine ⟨fun n => ⟨Machine.resume_within hmode, Machine.resume_beyond hmode⟩,
    fun max depth' hdepth fuel hover => Machine.resume_limited hmode (runFor_deeper hdepth fun s hs => ?_),
    fun linked max drive run ins h => depth_le_of_dispatched h⟩
  refine hover ((m.limited ⟨max, depth⟩).abandon s) ?_
  rw [Machine.resume_limited_eq hmode, hs]
  rfl

/-- a program of three instructions, on a stack of at most one entry -/
def threeInstructions : Program :=
  let code (ops : List Op) : Array Instruction := (ops.map fun op => ⟨op, none, false⟩).toArray
  { constants := #[.null]
    sections := #[⟨"main", code [.const 0, .pop, .halt]⟩]
    functions := #[]
    classes := []
    source := ⟨#[], ""⟩
    functionNames := [] }

/-- it checks its limits three times; two instructions are too few for it, and so is no entry -/
theorem resume_limits_three :
    let m : Machine := ⟨⟨threeInstructions, {}, ⟨0⟩, []⟩, {}, .start, .paused, false⟩
    m.mode = .paused
      ∧ (m.limited ⟨none, 1⟩).limitChecks .run = 3
      ∧ (∃ m', (m.limited ⟨some 3, 1⟩).resume .run 3 = some (.ok .done, m'))
      ∧ (∃ m', (m.limited ⟨some 2, 1⟩).resume .run 3 = some (.error (.tooManyCycles 2), m')
        ∧ m'.state.location = ⟨0, 2⟩)
      ∧ (m.limited ⟨some 2, 1⟩).dispatches .run = 2
      ∧ (∃ m', (m.limited ⟨none, 1⟩).resume .run 3 = some (.ok .done, m'))
      ∧ (∃ m', (m.limited ⟨none, 7⟩).resume .run 3 = some (.ok .done, m'))
      ∧ (∃ m', (m.limited ⟨none, 0⟩).resume .run 3 = some (.error (.stackOverflow 0), m')) := by
  intro m
  have hchecks : (m.limited ⟨none, 1⟩).limitChecks .run = 3 := by
    refine le_antisymm (iSup_le fun fuel => Nat.cast_le.mpr ?_) (le_iSup_of_le 3 (Nat.cast_le.mpr ?_))
    · match fuel with
      | 0 | 1 | 2 => exact (count_le _ _ _).trans (by decide)
      | fuel + 3 => exact le_of_eq rfl
    · exact le_of_eq rfl
  have hlimits := resume_limits m rfl .run 1
  obtain ⟨-, hwithin⟩ := (hlimits.1 3).1 hchecks.le
  obtain ⟨hdispatches, last, hlast, hbeyond⟩ := (hlimits.1 2).2 (hchecks ▸ by decide)
  cases hlast
  have hdeeper := hlimits.2.1 none 7 (by decide) 3
  refine ⟨rfl, hchecks, ⟨_, hwithin 3⟩, ⟨_, hbeyond 3, rfl⟩, hdispatches, ⟨_, rfl⟩,
    ⟨_, hdeeper fun m' h => ?_⟩, ⟨_, rfl⟩⟩
  cases h

end ScriptMachine
