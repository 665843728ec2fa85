import ScriptMachine.Proofs.Machine.Safe
import ScriptMachine.Proofs.Verified

/-!
# Sessions of a host with a machine

* `HostOp`              what a host can ask a machine for;
* `Machine.apply`       one operation;
* `Machine.after`       a session, one operation after another;
* `Machine.Enters`      the run that an operation starts;
* `Run.ahead`           the states of a run, instruction by instruction;
* `Machine.Ok`          a machine whose state is sound, or whose program is done;
* `Machine.Ok.after`    it stays so, whatever the host does;
* `session_noDefect`    no operation on a compiled program fails for a defect.
-/

namespace ScriptMachine

/-! ## operations -/

/-- An operation of the host.  What can go on without end gives up after `fuel` instructions. -/
inductive HostOp where
  | register (name : String) (native : Native)
  | run (fuel : Nat)
  | step (fuel : Nat)
  | call (name : String) (args : List HostValue) (fuel : Nat)
  | global (name : String)

/-- what an operation gives to the host -/
inductive Reply where
  | registered
  | mode (mode : Mode)
  | value (value : HostValue)

namespace Machine

/-- the result of an operation, nothing if it gave up -/
def apply (m : Machine) : HostOp → Option (Outcome Reply)
  | .register name native => some (.ok .registered, m.register name native)
  | .run fuel => (m.run fuel).map fun (r, m') => (r.map .mode, m')
  | .step fuel => (m.step fuel).map fun (r, m') => (r.map .mode, m')
  | .call name args fuel => (m.call name args fuel).map fun (r, m') => (r.map .value, m')
  | .global name => some (.ok (.value (m.global name)), m)

/-- the machine after a session, if no operation gave up -/
def after (m : Machine) : List HostOp → Option Machine
  | [] => some m
  | op :: ops => (m.apply op).bind fun outcome => outcome.2.after ops

/-- the run that an operation starts: the program goes on, or a function is called -/
inductive Enters (m : Machine) : Drive → Run → Prop
  | run (h : m.mode = .paused) : Enters m .run ⟨m.state, 0, m.moved⟩
  | step (h : m.mode = .paused) : Enters m .step ⟨m.state, 0, m.moved⟩
  | call {name : String} {args : List HostValue} {index : Nat} {s : State} (h : m.mode = .done)
      (hindex : m.linked.program.functionIndex? name = some index)
      (hs : (Exec.enterFunction index (m.importArgs args).1 none true).run m.linked
        (m.importArgs args).2 = .ok () s) : Enters m .call ⟨s, 0, m.moved⟩

end Machine

/-- a run after so many instructions, if it is still going -/
def Run.ahead (linked : Linked) (limits : Limits) (drive : Drive) : Nat → Run → Option Run
  | 0, run => some run
  | n + 1, run =>
    match tick linked limits drive run with
    | .going run' => run'.ahead linked limits drive n
    | .stopped _ => none

/-! ## runs -/

/-- the run was too long or its stack too deep -/
def RuntimeError.isLimit : RuntimeError → Bool
  | .tooManyCycles _ => true
  | .stackOverflow _ => true
  | _ => false

theorem Limits.exceeded_isLimit {limits : Limits} {cycles depth : Nat} {e : RuntimeError}
    (h : limits.exceeded? cycles depth = some e) : e.isLimit = true := by
  unfold exceeded? at h
  split at h
  · split at h
    · cases h
      rfl
    · split at h
      · cases h
        rfl
      · cases h
  · split at h
    · cases h
      rfl
    · cases h

theorem Limits.exceeded_noDefect {limits : Limits} {cycles depth : Nat} {e : RuntimeError}
    (h : limits.exceeded? cycles depth = some e) : e.isInternal = false := by
  have hlimit := Limits.exceeded_isLimit h
  cases e with
  | tooManyCycles => rfl
  | stackOverflow => rfl
  | _ => cases hlimit

section
variable {linked : Linked} {limits : Limits} {drive : Drive} {T : Location → Shape}

theorem Drive.run_ne_step : Drive.run ≠ .step := nofun

theorem Drive.call_ne_step : Drive.call ≠ .step := nofun

/-- how a run goes on after an instruction -/
def Progress.after (drive : Drive) (cycles : Nat) :
    EStateM.Result RuntimeError State Signal → Progress
  | .error error s => .stopped (.failed error s)
  | .ok .proceed s => .going ⟨s, cycles, true⟩
  | .ok .pause s => if drive = .call then .going ⟨s, cycles, true⟩ else .stopped (.paused s)
  | .ok .halt s => .stopped (.halted s)
  | .ok .hostReturn s => .stopped (.returned s)

theorem tick_after (hdrive : drive ≠ .step) {run : Run} {ins : Instruction}
    (hins : linked.program.instruction? run.state.location.sectionIndex run.state.location.pc
      = some ins)
    (hlimit : limits.exceeded? (run.cycles + 1) run.state.stack.depth = none) :
    tick linked limits drive run = .after drive (run.cycles + 1) (execute linked ins.op run.state) := by
  unfold tick
  dsimp only
  rw [hins]
  dsimp only
  rw [if_neg (fun h => hdrive h.1), hlimit]
  dsimp only
  cases execute linked ins.op run.state with
  | error e s => rfl
  | ok signal s => cases signal <;> rfl

theorem tick_exceeded (hdrive : drive ≠ .step) {run : Run} {ins : Instruction} {e : RuntimeError}
    (hins : linked.program.instruction? run.state.location.sectionIndex run.state.location.pc
      = some ins)
    (hlimit : limits.exceeded? (run.cycles + 1) run.state.stack.depth = some e) :
    tick linked limits drive run = .stopped (.failed e run.state) := by
  unfold tick
  dsimp only
  rw [hins]
  dsimp only
  rw [if_neg (fun h => hdrive h.1), hlimit]

/-- is it a run of a function that the host called? -/
def Drive.hosted (drive : Drive) : Bool := drive = .call

/-- How a run that started in a sound state can stop.  Only the main code pauses and halts. -/
def StopsWell (linked : Linked) (T : Location → Shape) (hosted : Bool) : Stop → Prop
  | .paused s => hosted = false ∧ Sound linked T hosted s
  | .halted s => hosted = false ∧ HeapOk linked s.heap ∧ s.stack.slots = []
  | .returned s => hosted = true ∧ HeapOk linked s.heap ∧ ∃ v, s.stack.slots = [.value v]
  | .failed e s => e.isInternal = false ∧ HeapOk linked s.heap

/-- One instruction of a sound run: it goes on sound, or stops well. -/
theorem tick_sound (limits : Limits) (hshape : WellShaped linked.program linked.labels T)
    (htab : Tabled linked.program) {run : Run} (hs : Sound linked T drive.hosted run.state) :
    match tick linked limits drive run with
    | .going run' => Sound linked T drive.hosted run'.state
    | .stopped stop => StopsWell linked T drive.hosted stop := by
  obtain ⟨ins, hins⟩ := Option.isSome_iff_exists.mp hs.exists_
  have hend := Exec.safe_execute hshape htab hs hins
  unfold tick
  dsimp only
  rw [hins]
  dsimp only
  by_cases hpause : drive = .step ∧ ins.startsStatement ∧ run.moved
  · rw [if_pos hpause]
    obtain ⟨rfl, -⟩ := hpause
    exact ⟨rfl, hs⟩
  · rw [if_neg hpause]
    cases hlimit : limits.exceeded? (run.cycles + 1) run.state.stack.depth with
    | some e => exact ⟨Limits.exceeded_noDefect hlimit, hs.here.heap⟩
    | none =>
      cases hexec : execute linked ins.op run.state with
      | error e s =>
        rw [hexec] at hend
        exact hend
      | ok signal s =>
        rw [hexec] at hend
        cases signal with
        | proceed => exact hend
        | halt => exact hend
        | hostReturn => exact hend
        | pause =>
          dsimp only
          by_cases hcall : drive = .call
          · rw [if_pos hcall]
            exact hend
          · rw [if_neg hcall]
            exact ⟨decide_eq_false hcall, hend⟩

theorem runFor_sound (hshape : WellShaped linked.program linked.labels T)
    (htab : Tabled linked.program) {fuel : Nat} (run : Run) {stop : Stop}
    (hs : Sound linked T drive.hosted run.state)
    (hstop : runFor linked limits drive fuel run = some stop) :
    StopsWell linked T drive.hosted stop := by
  induction fuel generalizing run with
  | zero => cases hstop
  | succ fuel ih =>
    have hone := tick_sound limits hshape htab hs
    rw [runFor] at hstop
    cases htick : tick linked limits drive run with
    | going run' =>
      rw [htick] at hstop hone
      exact ih run' hone hstop
    | stopped stop' =>
      rw [htick] at hstop hone
      cases hstop
      exact hone

theorem ahead_sound (hshape : WellShaped linked.program linked.labels T)
    (htab : Tabled linked.program) {n : Nat} {run last : Run}
    (hs : Sound linked T drive.hosted run.state)
    (hlast : run.ahead linked limits drive n = some last) :
    Sound linked T drive.hosted last.state := by
  induction n generalizing run with
  | zero =>
    cases hlast
    exact hs
  | succ n ih =>
    have hone := tick_sound limits hshape htab hs
    rw [Run.ahead] at hlast
    cases htick : tick linked limits drive run with
    | going run' =>
      rw [htick] at hlast hone
      exact ih hone hlast
    | stopped stop =>
      rw [htick] at hlast
      cases hlast

end

/-! ## machines -/

/-- the state of a machine for a compiled program -/
structure Machine.Ok (program : Program) (T : Location → Shape) (m : Machine) : Prop where
  runs : m.linked.program = program
  shaped : WellShaped m.linked.program m.linked.labels T
  tabled : Tabled m.linked.program
  paused : m.mode = .paused → Sound m.linked T false m.state
  done : m.mode = .done → HeapOk m.linked m.state.heap ∧ m.state.stack.slots = []

namespace Machine.Ok

variable {program : Program} {T : Location → Shape} {m : Machine}

/-- a machine before the first instruction -/
theorem loaded {table : LabelTable} (hshape : WellShaped program table T)
    (htab : Tabled program) (limits : Limits) :
    Ok program T ⟨⟨program, table, ⟨0⟩, []⟩, limits,
      ⟨⟨0, 0⟩, ⟨0⟩, Stack.empty, (Heap.empty.newGlobal).2, []⟩, .paused, false⟩ := by
  refine ⟨rfl, hshape, htab, fun _ => ?_, nofun⟩
  have hsections : 0 < program.sections.size := by
    rw [htab.sections]
    exact Nat.succ_pos _
  have hempty : Heap.empty.Known program.functions.size := by
    refine ⟨fun env name v hv => ?_, fun id v hv => ?_⟩
    · cases hv
    · cases hv with
      | mk hv => cases hv
  have hglobal : HeapStep program.functions.size Heap.empty (Heap.empty.newGlobal).2 := .newEnv _ _
  refine ⟨hshape.first (Array.getElem?_eq_getElem hsections), rfl, ⟨hglobal.known hempty, ?_⟩, ⟨0⟩, [],
    [], rfl, .main rfl rfl, ?_, ?_⟩
  · exact Nat.zero_lt_one
  · rw [hshape.start]
    exact .nil
  · rw [hshape.start]
    exact ⟨rfl, Nat.zero_lt_one⟩

theorem register (h : m.Ok program T) (name : String) (native : Native) : (m.register name native).Ok program T := by
  refine ⟨h.runs, h.shaped, h.tabled, fun hmode => ?_, fun hmode => ?_⟩
  · obtain ⟨hexists, hloc, hheap, hframe⟩ := h.paused hmode
    exact ⟨hexists, hloc, ⟨hheap.known, hheap.global⟩, hframe⟩
  · obtain ⟨hheap, hstack⟩ := h.done hmode
    exact ⟨⟨hheap.known, hheap.global⟩, hstack⟩

/-- a function that the host calls starts on an empty stack -/
theorem sound_call (h : m.Ok program T) (hmode : m.mode = .done) {name : String} {index : Nat}
    (hindex : m.linked.program.functionIndex? name = some index) (args : List HostValue) :
    ∃ s, (Exec.enterFunction index (m.importArgs args).1 none true).run m.linked
        (m.importArgs args).2 = .ok () s
      ∧ Sound m.linked T true s := by
  obtain ⟨hheap, hstack⟩ := h.done hmode
  obtain ⟨hstep, hargs⟩ := fromHostAll_step m.linked.global h.tabled.names args m.state.heap
  have hentry := Array.getElem?_eq_getElem (functionIndex?_lt h.tabled.names hindex)
  refine ⟨_, Exec.enterFunction_eq hentry _ _ _ _, ?_⟩
  refine Exec.sound_callee h.shaped h.tabled hentry hargs (hheap.step hstep) fun heap base _ => ?_
  have hslots : (m.importArgs args).2.stack.slots = [] := hstack
  rw [hslots]
  exact .host rfl (Nat.succ_ne_zero _) rfl

/-- every run that an operation starts is sound -/
theorem enters (h : m.Ok program T) {drive : Drive} {run : Run} (hrun : m.Enters drive run) :
    Sound m.linked T drive.hosted run.state := by
  cases hrun with
  | run hmode => exact h.paused hmode
  | step hmode => exact h.paused hmode
  | call hmode hindex hs =>
    obtain ⟨s, hs', hsound⟩ := h.sound_call hmode hindex _
    rw [hs] at hs'
    cases hs'
    exact hsound

end Machine.Ok

/-! ## what operations come to -/

/-- an operation fails only because of the script or its use, and leaves a machine of this kind -/
def Machine.EndsOk {α : Type} (program : Program) (T : Location → Shape) (outcome : Outcome α) :
    Prop :=
  (∀ e, outcome.1 = .error e → e.isInternal = false) ∧ outcome.2.Ok program T

theorem Machine.EndsOk.error {α : Type} {program : Program} {T : Location → Shape} {m : Machine} {e : RuntimeError}
    (he : e.isInternal = false) (h : m.Ok program T) : EndsOk program T ((.error e, m) : Outcome α) := by
  refine ⟨fun e' he' => ?_, h⟩
  cases he'
  exact he

namespace Machine.Ok

variable {program : Program} {T : Location → Shape} {m : Machine}

theorem resume (h : m.Ok program T) (drive : Drive) {fuel : Nat} {outcome : Outcome Mode}
    (hdrive : drive ≠ .call) (ho : m.resume drive fuel = some outcome) :
    EndsOk program T outcome := by
  have hhosted : drive.hosted = false := decide_eq_false hdrive
  unfold Machine.resume at ho
  cases hmode : m.mode with
  | done =>
    rw [hmode] at ho
    cases ho
    exact ⟨nofun, h⟩
  | paused =>
    rw [hmode] at ho
    dsimp only at ho
    have hsound := h.paused hmode
    rw [← hhosted] at hsound
    cases hrun : runFor m.linked m.limits drive fuel ⟨m.state, 0, m.moved⟩ with
    | none =>
      rw [hrun] at ho
      cases ho
    | some stop =>
      have hstop := runFor_sound h.shaped h.tabled _ hsound hrun
      rw [hhosted] at hstop
      rw [hrun] at ho
      cases stop with
      | failed e s =>
        cases ho
        obtain ⟨hcause, hheap⟩ := hstop
        exact .error hcause ⟨h.runs, h.shaped, h.tabled, nofun, fun _ => ⟨hheap, rfl⟩⟩
      | halted s =>
        cases ho
        exact ⟨nofun, h.runs, h.shaped, h.tabled, nofun, fun _ => hstop.2⟩
      | paused s =>
        cases ho
        exact ⟨nofun, h.runs, h.shaped, h.tabled, fun _ => hstop.2, nofun⟩
      | returned s => cases hstop.1

/-- back on the empty stack from before a call -/
theorem restore (h : m.Ok program T) (hmode : m.mode = .done) {before s : State}
    (hbefore : before.stack.slots = []) (hheap : HeapOk m.linked s.heap) :
    ({ m with state := Machine.restore before s } : Machine).Ok program T := by
  refine ⟨h.runs, h.shaped, h.tabled, fun hpaused => ?_, fun _ => ⟨hheap, ?_⟩⟩
  · rw [hmode] at hpaused
    cases hpaused
  · have hdepth : before.stack.depth = 0 := by rw [← before.stack.depth_eq, hbefore]; rfl
    show s.stack.slots.drop (s.stack.depth - before.stack.depth) = []
    rw [hdepth, ← s.stack.depth_eq]
    exact List.drop_length

/-- the end of a call leaves the stack empty -/
theorem finishCall (h : m.Ok program T) (hmode : m.mode = .done) {before : State} {stop : Stop}
    (hbefore : before.stack.slots = []) (hstop : StopsWell m.linked T true stop) :
    EndsOk program T (m.finishCall before stop) := by
  cases stop with
  | paused s => cases hstop.1
  | halted s => cases hstop.1
  | failed e s => exact .error hstop.1 (h.restore hmode hbefore hstop.2)
  | returned s =>
    obtain ⟨-, hheap, v, hslots⟩ := hstop
    obtain ⟨loc, env, st, heap, ev⟩ := s
    obtain rfl : st = .of [.value v] := Stack.ext_slots hslots
    refine ⟨nofun, h.runs, h.shaped, h.tabled, fun hpaused => ?_, fun _ => ⟨hheap, rfl⟩⟩
    rw [show m.mode = _ from hpaused] at hmode
    cases hmode

theorem call (h : m.Ok program T) {name : String} {args : List HostValue} {fuel : Nat}
    {outcome : Outcome HostValue} (ho : m.call name args fuel = some outcome) :
    EndsOk program T outcome := by
  unfold Machine.call at ho
  cases hmode : m.mode with
  | paused =>
    rw [hmode] at ho
    cases ho
    exact .error rfl h
  | done =>
    rw [hmode] at ho
    dsimp only at ho
    cases hindex : m.linked.program.functionIndex? name with
    | none =>
      rw [hindex] at ho
      cases ho
      exact .error rfl h
    | some index =>
      obtain ⟨s, hs, hsound⟩ := h.sound_call hmode hindex args
      rw [hindex] at ho
      dsimp only at ho
      rw [hs] at ho
      obtain ⟨stop, hstop, rfl⟩ := Option.map_eq_some_iff.mp ho
      have hends : StopsWell m.linked T Drive.call.hosted stop :=
        runFor_sound h.shaped h.tabled ⟨s, 0, m.moved⟩ hsound hstop
      exact h.finishCall hmode (h.done hmode).2 hends

/-- one operation -/
theorem apply (h : m.Ok program T) {op : HostOp} {outcome : Outcome Reply}
    (ho : m.apply op = some outcome) : EndsOk program T outcome := by
  have hmap {α : Type} {o : Outcome α} {f : α → Reply} (hend : EndsOk program T o) :
      EndsOk program T (o.1.map f, o.2) := by
    obtain ⟨r, m'⟩ := o
    cases r with
    | ok a => exact ⟨nofun, hend.2⟩
    | error e => exact .error (hend.1 e rfl) hend.2
  cases op with
  | register name native =>
    cases ho
    exact ⟨nofun, h.register name native⟩
  | run fuel =>
    obtain ⟨o, hrun, rfl⟩ := Option.map_eq_some_iff.mp ho
    exact hmap (h.resume .run nofun hrun)
  | step fuel =>
    obtain ⟨o, hrun, rfl⟩ := Option.map_eq_some_iff.mp ho
    exact hmap (h.resume .step nofun hrun)
  | call name args fuel =>
    obtain ⟨o, hcall, rfl⟩ := Option.map_eq_some_iff.mp ho
    exact hmap (h.call hcall)
  | global name =>
    cases ho
    exact ⟨nofun, h⟩

/-- a whole session -/
theorem after (h : m.Ok program T) {ops : List HostOp} {m' : Machine} (hm : m.after ops = some m') :
    m'.Ok program T := by
  induction ops generalizing m with
  | nil =>
    cases hm
    exact h
  | cons op ops ih =>
    obtain ⟨outcome, ho, hrest⟩ := Option.bind_eq_some_iff.mp hm
    exact ih (h.apply ho).2 hrest

end Machine.Ok

theorem compileSource_ok {text : String} {program : Program}
    (h : compileSource text = .ok program) :
    ∃ tokens body, readSource text = .ok (tokens, body)
      ∧ compileProgram body ⟨tokens.toArray, text⟩ = .ok program := by
  unfold compileSource at h
  cases hread : readSource text with
  | error e =>
    rw [hread] at h
    cases h
  | ok r =>
    obtain ⟨tokens, body⟩ := r
    rw [hread] at h
    refine ⟨tokens, body, rfl, ?_⟩
    have hmap : (compileProgram body ⟨tokens.toArray, text⟩).mapError SourceError.compile
        = .ok program := h
    cases hok : compileProgram body ⟨tokens.toArray, text⟩ with
    | error e =>
      rw [hok] at hmap
      cases hmap
    | ok p =>
      rw [hok] at hmap
      cases hmap
      rfl

/-- **Compiled programs never run into a defect.**  There is a machine for every text that compiles,
and whatever functions a host registers and whatever it does, in whatever order, no operation fails
but because of the script, a limit or a call that is not possible. -/
theorem session_noDefect (text : String) (program : Program)
    (h : compileSource text = .ok program)
    (hsize : ∀ s ∈ program.sections.toList, s.code.size < 2 ^ 31) (limits : Limits) :
    ∃ m₀, Machine.load program limits = .ok m₀
      ∧ ∀ ops m, m₀.after ops = some m → ∀ op outcome, m.apply op = some outcome →
        ∀ e, outcome.1 = .error e → e.isInternal = false := by
  obtain ⟨tokens, body, -, hprogram⟩ := compileSource_ok h
  obtain ⟨code, b, hcode, rfl⟩ := compileProgram_ok hprogram
  obtain ⟨table, T, hshaped, -⟩ := wellShaped_of_compiled hcode rfl rfl _
  refine ⟨_, load_of_wellShaped hshaped hsize limits, fun ops m hm op outcome ho => ?_⟩
  have hloaded := Machine.Ok.loaded hshaped (tabled_of_compiled hcode _) limits
  exact ((hloaded.after hm).apply ho).1

/-- a function that throws, called in a region and in its finalizer -/
def throwingTwice : String :=
  "try \x7b f(); \x7d finally \x7b f(); \x7d function f() \x7b throw f; \x7d"

set_option maxRecDepth 4000 in
theorem session_noDefect_throwingTwice :
    ∃ program, compileSource throwingTwice = .ok program
      ∧ ∃ m₀, Machine.load program {} = .ok m₀
        ∧ ∀ ops m, m₀.after ops = some m → ∀ op outcome, m.apply op = some outcome →
          ∀ e, outcome.1 = .error e → e.isInternal = false := by
  have hsizes : (compileSource throwingTwice).map (fun p => p.sections.toList.map fun s => s.code.size)
      = .ok [23, 4] := by cbv
  obtain ⟨program, hok, hsize⟩ := small_of_sizes [23, 4] hsizes (by decide)
  exact ⟨program, hok, session_noDefect _ program hok hsize {}⟩

end ScriptMachine
