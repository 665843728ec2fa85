import ScriptMachine.Proofs.Lowering.Unpaused
import ScriptMachine.Proofs.Machine.Statements

/-!
# Stepping through a program

A host that steps from statement to statement sees the run that it would otherwise let go on to its
end.  Only the pauses are added, and they are where statements start.

* `Run.fetched`        the places that a run comes to, instruction by instruction;
* `StepsTo`            a run in pieces, each up to the next pause;
* `stepsTo_of_runFor`  a run to its end, in pieces;
* `Machine.Stepping`   a host that steps until the program is done or fails;
* `stepping_of_run`    stepping through a program comes to what running it comes to.
-/

namespace ScriptMachine

/-! ## places -/

/-- the places of the instructions that a run fetches, one after another; the last one is where it
stops -/
def Run.fetched (linked : Linked) (limits : Limits) (drive : Drive) : Nat → Run → List Location
  | 0, _ => []
  | fuel + 1, run => run.state.location :: match tick linked limits drive run with
    | .going run' => run'.fetched linked limits drive fuel
    | .stopped _ => []

/-- does a statement start there? -/
def Program.startsAt (program : Program) (location : Location) : Bool :=
  (program.instruction? location.sectionIndex location.pc).any Instruction.startsStatement

/-! ## runs in pieces -/

/-- A run in pieces.  Each piece goes on up to a pause, and these are the places of the pauses; the
last piece goes on to the end. -/
inductive StepsTo (linked : Linked) (limits : Limits) : Run → List Location → Stop → Prop
  | ends (h : runFor linked limits .step fuel run = some stop) (hstop : ∀ s, stop ≠ .paused s) :
    StepsTo linked limits run [] stop
  | pauses (h : runFor linked limits .step fuel run = some (.paused s))
      (hrest : StepsTo linked limits ⟨s, 0, false⟩ places stop) :
    StepsTo linked limits run (s.location :: places) stop

section
variable {linked : Linked} {depth : Nat}

/-- one more instruction before the first piece -/
theorem StepsTo.tick {limits : Limits} {run run' : Run} {places : List Location} {stop : Stop}
    (htick : tick linked limits .step run = .going run') (h : StepsTo linked limits run' places stop) :
    StepsTo linked limits run places stop := by
  have hone {fuel : Nat} {stop : Stop} (h : runFor linked limits .step fuel run' = some stop) :
      runFor linked limits .step (fuel + 1) run = some stop := by
    rw [runFor, htick]
    exact h
  cases h with
  | ends h hstop => exact .ends (hone h) hstop
  | pauses h hrest => exact .pauses (hone h) hrest

/-- the same instruction in another run: the number of instructions before does not matter -/
def Progress.counted (cycles : Nat) : Progress → Progress
  | .going run => .going { run with cycles := cycles }
  | .stopped stop => .stopped stop

/-- Without a limit of instructions a run that steps does what any run does, unless it pauses. -/
theorem tick_step {s : State} {moved moved' : Bool} {cycles cycles' : Nat}
    (hgoes : linked.program.startsAt s.location = false ∨ moved = false) :
    tick linked ⟨none, depth⟩ .step ⟨s, cycles, moved⟩
      = (tick linked ⟨none, depth⟩ .run ⟨s, cycles', moved'⟩).counted (cycles + 1) := by
  unfold tick
  dsimp only
  cases hins : linked.program.instruction? s.location.sectionIndex s.location.pc with
  | none => rfl
  | some ins =>
    have hstarts : linked.program.startsAt s.location = ins.startsStatement := by
      rw [Program.startsAt, hins]
      rfl
    have hstep : ¬(Drive.step = .step ∧ ins.startsStatement = true ∧ moved = true) := by
      rintro ⟨-, hins, hmoved⟩
      rw [hstarts, hins, hmoved] at hgoes
      rcases hgoes with h | h <;> cases h
    have hrun : ¬(Drive.run = .step ∧ ins.startsStatement = true ∧ moved' = true) := fun h => nomatch h.1
    have hlimit : Limits.exceeded? ⟨none, depth⟩ (cycles + 1) s.stack.depth
      = Limits.exceeded? ⟨none, depth⟩ (cycles' + 1) s.stack.depth := rfl
    dsimp only
    rw [if_neg hstep, if_neg hrun, hlimit]
    cases Limits.exceeded? ⟨none, depth⟩ (cycles' + 1) s.stack.depth with
    | some e => rfl
    | none =>
      dsimp only
      cases execute linked ins.op s with
      | error e s' => rfl
      | ok signal s' => cases signal <;> rfl

/-- where a statement starts a run that has moved pauses -/
theorem tick_pause {limits : Limits} {s : State} {cycles : Nat}
    (hstarts : linked.program.startsAt s.location = true) :
    tick linked limits .step ⟨s, cycles, true⟩ = .stopped (.paused s) := by
  obtain ⟨ins, hins, hstart⟩ := (Option.any_eq_true _ _).mp hstarts
  unfold tick
  dsimp only
  rw [hins]
  exact if_pos ⟨rfl, hstart, rfl⟩

/-- a run moves with every instruction -/
theorem moved_of_tick {limits : Limits} {drive : Drive} {run run' : Run}
    (h : tick linked limits drive run = .going run') : run'.moved = true := by
  unfold tick at h
  dsimp only at h
  split at h
  · cases h
  · split at h
    · cases h
    · split at h
      · cases h
      · split at h <;> try cases h
        · rfl
        · split at h <;> cases h
          rfl

/-- the places where a run in pieces pauses: where a statement starts, and where the run starts only if
it has moved before -/
def Program.pauses (program : Program) (moved : Bool) (places : List Location) : List Location :=
  (places.drop (if moved then 0 else 1)).filter program.startsAt

/-- A run to its end, in pieces. -/
theorem stepsTo_of_runFor {fuel : Nat} {run : Run} {stop : Stop}
    (hrun : runFor linked ⟨none, depth⟩ .run fuel run = some stop) (hstop : ∀ s, stop ≠ .paused s)
    (cycles : Nat) :
    StepsTo linked ⟨none, depth⟩ { run with cycles := cycles }
      (linked.program.pauses run.moved (run.fetched linked ⟨none, depth⟩ .run fuel)) stop := by
  induction fuel generalizing run cycles with
  | zero => cases hrun
  | succ fuel ih =>
    obtain ⟨s, before, moved⟩ := run
    rw [runFor] at hrun
    rw [Run.fetched]
    generalize hlater : (match tick linked ⟨none, depth⟩ .run ⟨s, before, moved⟩ with
      | .going run' => run'.fetched linked ⟨none, depth⟩ .run fuel
      | .stopped _ => []) = later
    -- the instruction and what comes behind it, if there is no pause before
    have hgo (cycles : Nat) (moved' : Bool)
        (hgoes : linked.program.startsAt s.location = false ∨ moved' = false) :
        StepsTo linked ⟨none, depth⟩ ⟨s, cycles, moved'⟩ (later.filter linked.program.startsAt) stop := by
      have htick := @tick_step linked depth s moved' moved cycles before hgoes
      cases hone : tick linked ⟨none, depth⟩ .run ⟨s, before, moved⟩ with
      | going run' =>
        obtain ⟨s', after, moved''⟩ := run'
        obtain rfl : moved'' = true := moved_of_tick hone
        rw [hone] at hrun hlater htick
        have hrest := ih hrun (cycles + 1)
        rw [show Run.fetched linked ⟨none, depth⟩ .run fuel _ = later from hlater] at hrest
        exact hrest.tick htick
      | stopped stop' =>
        rw [hone] at hrun hlater htick
        cases hrun
        cases hlater
        have hlast : runFor linked ⟨none, depth⟩ .step 1 ⟨s, cycles, moved'⟩ = some stop := by
          rw [runFor, htick]
          rfl
        exact .ends hlast hstop
    cases moved with
    | false => exact hgo cycles false (.inr rfl)
    | true =>
      cases hstarts : linked.program.startsAt s.location with
      | false =>
        show StepsTo _ _ _ (List.filter _ (s.location :: later)) stop
        rw [List.filter_cons_of_neg (by rw [hstarts]; exact Bool.false_ne_true)]
        exact hgo cycles true (.inl hstarts)
      | true =>
        show StepsTo _ _ _ (List.filter _ (s.location :: later)) stop
        rw [List.filter_cons_of_pos hstarts]
        have hpause : runFor linked ⟨none, depth⟩ .step 1 ⟨s, cycles, true⟩ = some (.paused s) := by
          rw [runFor, tick_pause hstarts]
        exact .pauses hpause (hgo 0 false (.inr rfl))

end

/-! ## a host that steps -/

/-- A host that steps through a program until it is done or fails: the places where the machine pauses,
and what the last step comes to. -/
inductive Machine.Stepping : Machine → List Location → Outcome Mode → Prop
  | last (h : m.step fuel = some outcome) (hend : outcome.1 ≠ .ok .paused) : Stepping m [] outcome
  | pause (h : m.step fuel = some (.ok .paused, m')) (hrest : Stepping m' places outcome) :
    Stepping m (m'.state.location :: places) outcome

namespace Machine

/-- what the stop of a run comes to -/
def finishRun (m : Machine) : Stop → Outcome Mode
  | .failed error s => (.error error, m.abandon s)
  | .halted s => (.ok .done, { m with state := s, mode := .done, moved := true })
  | .paused s => (.ok .paused, { m with state := s, moved := false })
  | .returned s => (.ok .paused, { m with state := s, moved := true })

theorem resume_eq {m : Machine} (hmode : m.mode = .paused) (drive : Drive) (fuel : Nat) :
    m.resume drive fuel
      = (runFor m.linked m.limits drive fuel ⟨m.state, 0, m.moved⟩).map m.finishRun := by
  obtain ⟨linked, limits, state, mode, moved⟩ := m
  cases hmode
  unfold resume
  dsimp only
  cases runFor linked limits drive fuel ⟨state, 0, moved⟩ with
  | none => rfl
  | some stop => cases stop <;> rfl

/-- the pieces of a run are the steps of the host -/
theorem stepping_of_stepsTo {m : Machine} {places : List Location} {stop : Stop}
    (hmode : m.mode = .paused) (hmoved : m.moved = false) (hstop : ∀ s, stop ≠ .returned s)
    (h : StepsTo m.linked m.limits ⟨m.state, 0, m.moved⟩ places stop) :
    m.Stepping places (m.finishRun stop) := by
  generalize hrun : (⟨m.state, 0, m.moved⟩ : Run) = run at h
  generalize hlinked : m.linked = linked at h
  generalize hlimits : m.limits = limits at h
  induction h generalizing m with
  | ends h hpaused =>
    subst hrun hlinked hlimits
    have hlast := (resume_eq hmode .step _).trans (congrArg (Option.map m.finishRun) h)
    refine .last hlast ?_
    rename_i stop
    cases stop with
    | failed e s => nofun
    | halted s => nofun
    | paused s => exact absurd rfl (hpaused s)
    | returned s => exact absurd rfl (hstop s)
  | @pauses _ _ s _ stop h hrest ih =>
    subst hrun hlinked hlimits
    have hpause := (resume_eq hmode .step _).trans (congrArg (Option.map m.finishRun) h)
    have hrest := @ih ⟨m.linked, m.limits, s, m.mode, false⟩ hmode rfl hstop rfl rfl rfl
    -- the machine in the pause ends like the one before
    have hsame : finishRun ⟨m.linked, m.limits, s, m.mode, false⟩ stop = m.finishRun stop := by
      cases stop with
      | failed e s => rw [finishRun, finishRun, abandon, abandon, hmoved]
      | halted s => rfl
      | paused s => rfl
      | returned s => rfl
    rw [hsame] at hrest
    exact .pause hpause hrest

/-- the machine after some functions of the host are registered, one after another -/
def registerAll (m : Machine) (natives : List (String × Native)) : Machine :=
  natives.foldl (fun m native => m.register native.1 native.2) m

theorem registerAll_eq (m : Machine) (natives : List (String × Native)) :
    m.registerAll natives
      = { m with linked := { m.linked with natives := natives.reverse ++ m.linked.natives } } := by
  induction natives generalizing m with
  | nil => rfl
  | cons native natives ih =>
    rw [registerAll, List.foldl_cons, ← registerAll, ih, List.reverse_cons, List.append_assoc]
    rfl

theorem Ok.registerAll {program : Program} {T : Location → Shape} {m : Machine} (h : m.Ok program T)
    (natives : List (String × Native)) : (m.registerAll natives).Ok program T := by
  induction natives generalizing m with
  | nil => exact h
  | cons native natives ih => exact ih (h.register native.1 native.2)

end Machine

/-! ## programs that do not pause -/

/-- the instruction that gives a signal to the host, if only one does -/
def Signal.op? : Signal → Option Op
  | .proceed => none
  | .pause => some .debugger
  | .halt => some .halt
  | .hostReturn => some .ret

/-- only a `debugger` statement pauses, and only the end of the main code halts -/
theorem op_of_signal {linked : Linked} {op op' : Op} {signal : Signal} {s s' : State}
    (h : execute linked op s = .ok signal s') (hop : signal.op? = some op') : op = op' := by
  have hproceed {x : Exec Unit} {s : State}
      (h : (do x; return .proceed : Exec Signal) linked s = .ok signal s') : op = op' := by
    cases hx : x linked s with
    | ok _ s₁ =>
      rw [Exec.bind_ok hx] at h
      cases h
      cases hop
    | error e s₁ =>
      rw [Exec.bind_error hx] at h
      cases h
  cases op with
  | debugger | halt =>
    cases h
    exact Option.some.inj hop
  | ret =>
    have h : Exec.dispatch .ret linked _ = .ok signal s' := h
    rw [Exec.dispatch_ret] at h
    split at h
    · cases h
    · next toHost _ _ =>
      cases toHost <;> cases h
      · cases hop
      · exact Option.some.inj hop
  | _ => exact hproceed h

theorem not_paused {linked : Linked} {limits : Limits}
    (hnone : ∀ i pc ins, linked.program.instruction? i pc = some ins → ins.op ≠ .debugger) {fuel : Nat}
    {run : Run} {stop : Stop} (h : runFor linked limits .run fuel run = some stop) (s : State) :
    stop ≠ .paused s := by
  induction fuel generalizing run with
  | zero => cases h
  | succ fuel ih =>
    rw [runFor] at h
    cases htick : tick linked limits .run run with
    | going run' =>
      rw [htick] at h
      exact ih h
    | stopped stop' =>
      rw [htick] at h
      cases h
      rintro rfl
      unfold tick at htick
      dsimp only at htick
      split at htick
      · cases htick
      · next ins hins =>
        rw [if_neg (fun h => Drive.run_ne_step h.1)] at htick
        split at htick
        · cases htick
        · split at htick
          · cases htick
          · cases htick
          · next hexec => exact hnone _ _ _ hins (op_of_signal hexec rfl)
          · cases htick
          · cases htick

/-- **Stepping through a program is running it.**  Take a program without `debugger` statements, any
functions of the host and no limit but that of the stack.  If the program runs to its end or fails,
then so it does for a host that steps from statement to statement, with the same outcome: the same
machine, with all that is on its heap and all that it has shown, and the same error.  The host pauses
exactly where the run fetches the first instruction of a statement, each time in turn, but for the
very first instruction of the program. -/
theorem stepping_of_run (body : List Stmt) (source : Source) (program : Program)
    (hprogram : compileProgram body source = .ok program) (hbody : Stmt.anyPauses body = false)
    (depth : Nat) (m₀ : Machine) (hload : Machine.load program ⟨none, depth⟩ = .ok m₀)
    (natives : List (String × Native)) (m : Machine) (hm : m = m₀.registerAll natives) (fuel : Nat)
    (outcome : Machine.Outcome Mode) (hrun : m.run fuel = some outcome) :
    m.Stepping ((Run.fetched m.linked m.limits .run fuel ⟨m.state, 0, m.moved⟩).tail.filter
      program.startsAt) outcome := by
  obtain ⟨code, b, hcode, hp⟩ := compileProgram_ok hprogram
  have hshaped := wellShaped_of_compiled hcode rfl rfl source
  rw [← hp] at hshaped
  obtain ⟨table, T, hshape, -⟩ := hshaped
  obtain ⟨table', htable, rfl⟩ := Machine.load_ok hload
  obtain rfl : table = table' := Except.ok.inj (hshape.labels.symm.trans htable)
  have htab : Tabled program := hp ▸ tabled_of_compiled hcode source
  have hok := (Machine.Ok.loaded hshape htab ⟨none, depth⟩).registerAll natives
  rw [← hm] at hok
  have heq := hm.trans (Machine.registerAll_eq _ natives)
  have hmode : m.mode = .paused := by rw [heq]
  have hmoved : m.moved = false := by rw [heq]
  have hlimits : m.limits = ⟨none, depth⟩ := by rw [heq]
  rw [Machine.run, Machine.resume_eq hmode] at hrun
  obtain ⟨stop, hstop, rfl⟩ := Option.map_eq_some_iff.mp hrun
  have hwell : StopsWell m.linked T Drive.run.hosted stop :=
    runFor_sound hok.shaped hok.tabled ⟨m.state, 0, m.moved⟩ (hok.paused hmode) hstop
  have hreturned (s : State) : stop ≠ .returned s := by
    rintro rfl
    cases hwell.1
  have hpaused := not_paused (fun i pc ins hins => by
    rw [hok.runs] at hins
    exact instruction_unpaused hprogram hbody hins) hstop
  rw [hlimits] at hstop
  have hsteps := stepsTo_of_runFor hstop hpaused 0
  rw [← hlimits] at hsteps
  have hstepping := Machine.stepping_of_stepsTo hmode hmoved hreturned hsteps
  rwa [Program.pauses, hmoved, if_neg Bool.false_ne_true, List.drop_one, hok.runs, ← hmoved]
    at hstepping

/-- `while (true) { break; }` -/
def leavingAtOnce : List Stmt :=
  let at_ : TokenRange := ⟨0, 0⟩
  let leaving : Stmt := .node .breakLoop at_
  [.node (.whileLoop (.node (.bool true) at_) (.node (.block [leaving]) at_)) at_]

/-- where a run fetches statements, but for its start, and what it comes to -/
def statementsOf (body : List Stmt) (fuel : Nat) : Option (List Location × Option Mode) :=
  match compileProgram body ⟨#[], ""⟩ with
  | .error _ => none
  | .ok program =>
    match Machine.load program ⟨none, 9⟩ with
    | .error _ => none
    | .ok m => (m.run fuel).map fun outcome =>
      ((Run.fetched m.linked m.limits .run fuel ⟨m.state, 0, m.moved⟩).tail.filter program.startsAt,
        outcome.1.toOption)

/-- the host pauses once, before the `break` -/
theorem stepping_leavingAtOnce :
    ∃ (m : Machine) (outcome : Machine.Outcome Mode), m.run 20 = some outcome
      ∧ outcome.1.toOption = some .done ∧ m.Stepping [⟨0, 5⟩] outcome := by
  have hstatements : statementsOf leavingAtOnce 20 = some ([⟨0, 5⟩], some .done) := by cbv
  unfold statementsOf at hstatements
  cases hprogram : compileProgram leavingAtOnce ⟨#[], ""⟩ with
  | error e =>
    rw [hprogram] at hstatements
    cases hstatements
  | ok program =>
    rw [hprogram] at hstatements
    dsimp only at hstatements
    cases hload : Machine.load program ⟨none, 9⟩ with
    | error e =>
      rw [hload] at hstatements
      cases hstatements
    | ok m =>
      rw [hload] at hstatements
      obtain ⟨outcome, hrun, hresult⟩ := Option.map_eq_some_iff.mp hstatements
      obtain ⟨hplaces, hmode⟩ := Prod.mk.inj hresult
      have hstepping := stepping_of_run leavingAtOnce ⟨#[], ""⟩ program hprogram rfl 9 m hload [] m rfl
        20 outcome hrun
      rw [hplaces] at hstepping
      exact ⟨m, outcome, hrun, hmode, hstepping⟩

end ScriptMachine
