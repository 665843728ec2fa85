import ScriptMachine.Proofs.Machine.Activations
import ScriptMachine.Proofs.Machine.Heights
import ScriptMachine.Proofs.Machine.Registers

/-!
# What a host finds between two operations

However an operation ends, nothing of it is left in the registers.  A program that is done, be it at
its end or because it failed, has left all scopes and an empty stack, and calls of the host keep it
so.  At the end of the main code no instruction clears anything: the code is balanced.

* `halt_home`, `runFor_home`   the main code ends in the global environment;
* `Machine.Home`               a program that is done is in the global environment;
* `Machine.Ok.home_after`      it stays there, whatever the host does;
* `Registers.done_after`       a program that is done stays done;
* `Registers.AtRest`           registers with nothing left of the last operation;
* `session_atRest`             sessions with compiled programs leave them so.
-/

namespace ScriptMachine

/-! ## the end of the main code -/

section
variable {linked : Linked} {limits : Limits} {drive : Drive} {T : Location → Shape} {hosted : Bool}

/-- The instruction at the end of the main code is at the depth of no scope, so the environment is the
one that the main code runs in. -/
theorem halt_home (hshape : WellShaped linked.program linked.labels T) {s s' : State}
    (hs : Sound linked T hosted s) {ins : Instruction}
    (hins : linked.program.instruction? s.location.sectionIndex s.location.pc = some ins)
    (hhalt : execute linked ins.op s = .ok .halt s') : s'.env = linked.global := by
  have hop : ins.op = .halt := op_of_signal hhalt rfl
  have henv : s'.env = s.env := by
    rw [hop] at hhalt
    cases hhalt
    rfl
  have htyped := hshape.typed _ _ ins hins
  rw [hop] at htyped
  obtain ⟨-, -, base, own, rest, -, hframes, -, hscope⟩ := hs.here
  rw [henv]
  generalize T s.location = σ at htyped hscope
  cases htyped with
  | halt hi =>
    have hmain : s.location.sectionIndex = 0 := bne_eq_false_iff_eq.mp hi
    rw [hmain] at hframes
    cases hframes with
    | main _ hglobal => exact hscope.1.trans hglobal
    | host _ hne _ => exact absurd rfl hne
    | call hne _ _ _ _ _ => exact absurd rfl hne

theorem tick_home (hshape : WellShaped linked.program linked.labels T) {run : Run}
    (hs : Sound linked T hosted run.state) {s : State}
    (h : tick linked limits drive run = .stopped (.halted s)) : s.env = linked.global := by
  obtain ⟨ins, hins⟩ := Option.isSome_iff_exists.mp hs.exists_
  unfold tick at h
  dsimp only at h
  rw [hins] at h
  dsimp only at h
  by_cases hpause : drive = .step ∧ ins.startsStatement ∧ run.moved
  · rw [if_pos hpause] at h
    cases h
  · rw [if_neg hpause] at h
    cases hlimit : limits.exceeded? (run.cycles + 1) run.state.stack.depth with
    | some e =>
      rw [hlimit] at h
      cases h
    | none =>
      rw [hlimit] at h
      cases hexec : execute linked ins.op run.state with
      | error e s =>
        rw [hexec] at h
        cases h
      | ok signal s' =>
        rw [hexec] at h
        cases signal with
        | halt =>
          cases h
          exact halt_home hshape hs hins hexec
        | pause =>
          dsimp only at h
          split at h <;> cases h
        | proceed | hostReturn => cases h

theorem runFor_home (hshape : WellShaped linked.program linked.labels T)
    (htab : Tabled linked.program) {fuel : Nat} {run : Run}
    (hs : Sound linked T drive.hosted run.state) {s : State}
    (h : runFor linked limits drive fuel run = some (.halted s)) : s.env = linked.global := by
  induction fuel generalizing run with
  | zero => cases h
  | succ fuel ih =>
    have hone := tick_sound limits hshape htab hs
    rw [runFor] at h
    cases htick : tick linked limits drive run with
    | going run' =>
      rw [htick] at h hone
      exact ih hone h
    | stopped stop =>
      rw [htick] at h
      cases h
      exact tick_home hshape hs htick

end

/-! ## the environment of a program that is done -/

namespace Machine

/-- a program that is done is in the global environment -/
def Home (m : Machine) : Prop := m.mode = .done → m.state.env = m.linked.global

theorem finishCall_linked (m : Machine) (before : State) (stop : Stop) :
    (m.finishCall before stop).2.linked = m.linked := by
  cases stop with
  | returned s =>
    unfold finishCall
    dsimp only
    cases Exec.pop.run m.linked s <;> rfl
  | failed _ _ | halted _ | paused _ => rfl

namespace Ok

variable {program : Program} {T : Location → Shape} {m : Machine}

/-- A run leaves all scopes when it fails, and needs not when it halts. -/
theorem home_resume (h : m.Ok program T) (hhome : m.Home) (drive : Drive) (hdrive : drive ≠ .call)
    {fuel : Nat} {outcome : Outcome Mode} (ho : m.resume drive fuel = some outcome) :
    outcome.2.Home := by
  cases hmode : m.mode with
  | done =>
    unfold Machine.resume at ho
    rw [hmode] at ho
    cases ho
    exact hhome
  | paused =>
    rw [resume_eq hmode] at ho
    obtain ⟨stop, hstop, rfl⟩ := Option.map_eq_some_iff.mp ho
    have hsound : Sound m.linked T drive.hosted m.state := by
      rw [show drive.hosted = false from decide_eq_false hdrive]
      exact h.paused hmode
    cases stop with
    | failed e s => exact fun _ => rfl
    | halted s => exact fun _ => runFor_home h.shaped h.tabled hsound hstop
    | paused s | returned s =>
      intro hdone
      cases hmode.symm.trans hdone

/-- a call of the host comes back to the environment that it was made in -/
theorem home_call (h : m.Ok program T) (hhome : m.Home) {name : String} {args : List HostValue}
    {fuel : Nat} {outcome : Outcome HostValue} (ho : m.call name args fuel = some outcome) :
    outcome.2.Home := by
  cases hmode : m.mode with
  | paused =>
    unfold Machine.call at ho
    rw [hmode] at ho
    cases ho
    exact hhome
  | done =>
    cases hindex : m.linked.program.functionIndex? name with
    | none =>
      unfold Machine.call at ho
      rw [hmode] at ho
      dsimp only at ho
      rw [hindex] at ho
      cases ho
      exact hhome
    | some index =>
      obtain ⟨s, hs, -⟩ := h.sound_call hmode hindex args
      rw [call_eq hmode hindex hs] at ho
      obtain ⟨stop, hstop, rfl⟩ := Option.map_eq_some_iff.mp ho
      rcases enterFunction_on m.linked index (m.importArgs args).1 (m.importArgs args).2.heap
        m.state.events with ⟨u, -, hu⟩ | herror
      · cases hs.symm.trans (hu (m.importArgs args).2 true rfl rfl)
        obtain ⟨-, -, henv, -⟩ := m.finishCall_back (runFor_above rfl rfl hstop)
        intro _
        rw [henv, finishCall_linked]
        exact hhome hmode
      · cases hs.symm.trans (herror _ true)

/-- one operation -/
theorem home_apply (h : m.Ok program T) (hhome : m.Home) {op : HostOp} {outcome : Outcome Reply}
    (ho : m.apply op = some outcome) : outcome.2.Home := by
  cases op with
  | register name native =>
    cases ho
    exact hhome
  | run fuel =>
    obtain ⟨o, hrun, rfl⟩ := Option.map_eq_some_iff.mp ho
    exact h.home_resume hhome .run nofun hrun
  | step fuel =>
    obtain ⟨o, hrun, rfl⟩ := Option.map_eq_some_iff.mp ho
    exact h.home_resume hhome .step nofun hrun
  | call name args fuel =>
    obtain ⟨o, hcall, rfl⟩ := Option.map_eq_some_iff.mp ho
    exact h.home_call hhome hcall
  | global name =>
    cases ho
    exact hhome

/-- a whole session -/
theorem home_after (h : m.Ok program T) (hhome : m.Home) {ops : List HostOp} {m' : Machine}
    (hm : m.after ops = some m') : m'.Home := by
  induction ops generalizing m with
  | nil =>
    cases hm
    exact hhome
  | cons op ops ih =>
    obtain ⟨outcome, ho, hrest⟩ := Option.bind_eq_some_iff.mp hm
    exact ih (h.apply ho).2 (h.home_apply hhome ho) hrest

end Ok

end Machine

/-! ## registers -/

namespace Registers

variable {r r' : Registers}

/-- a program that is done stays done -/
theorem done_apply (h : r.phase = .done) {op : HostOp} {outcome : Outcome Answered}
    (ho : r.apply op = some outcome) : outcome.2.phase = .done := by
  have hresume {phase : Phase} {fuel : Nat} {o : Outcome Phase}
      (ho : r.resume phase fuel = some o) : o.2.phase = .done := by
    unfold resume at ho
    rw [if_pos h] at ho
    cases ho
    exact h
  cases op with
  | register name native =>
    cases ho
    exact h
  | run fuel =>
    obtain ⟨o, hrun, rfl⟩ := Option.map_eq_some_iff.mp ho
    exact hresume hrun
  | step fuel =>
    obtain ⟨o, hrun, rfl⟩ := Option.map_eq_some_iff.mp ho
    exact hresume hrun
  | call name args fuel =>
    obtain ⟨o, hcall, rfl⟩ := Option.map_eq_some_iff.mp ho
    unfold call at hcall
    rw [if_neg (not_not_intro h)] at hcall
    split at hcall
    · cases hcall
      exact h
    · dsimp only at hcall
      split at hcall
      · cases hcall
        exact h
      · obtain ⟨out, -, rfl⟩ := Option.map_eq_some_iff.mp hcall
        unfold finishCall
        dsimp only
        split <;> rfl
  | global name =>
    cases ho
    exact h

theorem done_after (h : r.phase = .done) {ops : List HostOp} (hr : r.after ops = some r') :
    r'.phase = .done := by
  induction ops generalizing r with
  | nil =>
    cases hr
    exact h
  | cons op ops ih =>
    obtain ⟨outcome, ho, hrest⟩ := Option.bind_eq_some_iff.mp hr
    exact ih (done_apply h ho) hrest

/-- Nothing is left of an operation.  The program waits, or it is done: then the stack is empty, all
scopes are left and no instruction is next. -/
structure AtRest (r : Registers) : Prop where
  phase : r.phase = .paused ∨ r.phase = .done
  hostCalls : r.hostCalls = 0
  hostReturned : r.hostReturned = false
  done : r.phase = .done →
    r.state.stack = Stack.empty ∧ r.state.env = r.linked.global ∧ r.pending? = none

theorem Idle.atRest {m : Machine} (h : r.Idle m) {program : Program} {T : Location → Shape}
    (hok : m.Ok program T) (hhome : m.Home) : r.AtRest := by
  have hmode (hdone : r.phase = .done) : m.mode = .done := by
    rw [h.phase] at hdone
    cases hmode : m.mode with
    | done => rfl
    | paused =>
      rw [hmode] at hdone
      cases hdone
  refine ⟨?_, h.hostCalls, h.hostReturned, fun hdone => ⟨?_, ?_, if_pos hdone⟩⟩
  · rw [h.phase]
    cases m.mode with
    | paused => exact .inl rfl
    | done => exact .inr rfl
  · rw [h.state]
    exact Stack.ext_slots (hok.done (hmode hdone)).2
  · rw [h.state, h.linked]
    exact hhome (hmode hdone)

end Registers

/-- **A session is always left clean.**  Take any session with a compiled program, under any limits.
After each operation that returns, the program waits or is done, no call of the host is open and none
is noted as returned.  If the program is done, the stack is empty, the environment is the global one
and no instruction is next: be it that the main code came to its end, that it failed, or that a call of
the host has returned or failed since then.  A program that is done stays so.  And the machine has the
same session, with the same answers. -/
theorem session_atRest (body : List Stmt) (source : Source) (program : Program)
    (hprogram : compileProgram body source = .ok program) (limits : Limits) (r₀ : Registers)
    (hload : Registers.load program limits = .ok r₀) :
    (∀ ops r, r₀.after ops = some r → r.AtRest
      ∧ (r.phase = .done → ∀ more r', r.after more = some r' → r'.phase = .done))
    ∧ ∃ m₀, Machine.load program limits = .ok m₀
      ∧ ∀ ops, Option.Rel Registers.Idle (r₀.after ops) (m₀.after ops)
        ∧ ∀ r m, r₀.after ops = some r → m₀.after ops = some m →
          ∀ op, Option.Rel (Registers.Agree .ofReply) (r.apply op) (m.apply op) := by
  obtain ⟨code, b, hcode, hprogram'⟩ := compileProgram_ok hprogram
  obtain ⟨table, T, hshape, -⟩ := wellShaped_of_compiled hcode rfl rfl source
  have htabled := tabled_of_compiled hcode source
  rw [← hprogram'] at hshape htabled
  obtain ⟨m₀, hm₀, hidle₀⟩ := Registers.Idle.ofLoad hload
  have hok₀ := Machine.Ok.ofLoad hshape htabled hm₀
  have hhome₀ : m₀.Home := by
    obtain ⟨_, -, rfl⟩ := Machine.load_ok hm₀
    exact nofun
  have hsession {ops : List HostOp} {r : Registers} (hr : r₀.after ops = some r) :
      ∃ m, m₀.after ops = some m ∧ r.Idle m := by
    have hrel := hidle₀.after hok₀ ops
    rw [hr] at hrel
    generalize m₀.after ops = m? at hrel
    cases hrel with
    | some hidle => exact ⟨_, rfl, hidle⟩
  refine ⟨fun ops r hr => ⟨?_, fun hdone more r' hr' => Registers.done_after hdone hr'⟩, m₀, hm₀,
    fun ops => ⟨hidle₀.after hok₀ ops, fun r m hr hm => ?_⟩⟩
  · obtain ⟨m, hm, hidle⟩ := hsession hr
    exact hidle.atRest (hok₀.after hm) (hok₀.home_after hhome₀ hm)
  · obtain ⟨m', hm', hidle⟩ := hsession hr
    cases hm.symm.trans hm'
    exact hidle.apply (hok₀.after hm)

/-- `function f(x) { throw x; } { debugger; }` -/
def throwingBack : List Stmt :=
  let at_ : TokenRange := ⟨0, 0⟩
  let throwing : Stmt := .node (.throwValue (.node (.variable "x") at_)) at_
  [.node (.function (.mk (some "f") ["x"] [throwing] at_)) at_,
    .node (.block [.node .debugger at_]) at_]

/-- the phase after a session with a program -/
def phaseAfter (body : List Stmt) (ops : List HostOp) : Option Phase :=
  match compileProgram body ⟨#[], ""⟩ with
  | .error _ => none
  | .ok program =>
    match Registers.load program {} with
    | .error _ => none
    | .ok r => (r.after ops).map Registers.phase

/-- The program pauses in a block, goes on to its end, and then a function throws a value at the host. -/
theorem session_atRest_throwing :
    ∃ (program : Program) (r₀ r : Registers),
      compileProgram throwingBack ⟨#[], ""⟩ = .ok program ∧ Registers.load program {} = .ok r₀
      ∧ r₀.after [.run 9, .run 9, .call "f" [.bool true] 9] = some r
      ∧ r.phase = .done ∧ r.AtRest ∧ ∀ more r', r.after more = some r' → r'.phase = .done := by
  have hphase : phaseAfter throwingBack [.run 9, .run 9, .call "f" [.bool true] 9] = some .done := by
    decide +kernel
  unfold phaseAfter at hphase
  cases hprogram : compileProgram throwingBack ⟨#[], ""⟩ with
  | error e =>
    rw [hprogram] at hphase
    cases hphase
  | ok program =>
    rw [hprogram] at hphase
    dsimp only at hphase
    cases hload : Registers.load program {} with
    | error e =>
      rw [hload] at hphase
      cases hphase
    | ok r₀ =>
      rw [hload] at hphase
      obtain ⟨r, hr, hdone⟩ := Option.map_eq_some_iff.mp hphase
      obtain ⟨hrest, hstays⟩ :=
        (session_atRest throwingBack ⟨#[], ""⟩ program hprogram {} r₀ hload).1 _ r hr
      exact ⟨program, r₀, r, rfl, hload, hr, hdone, hrest, hstays hdone⟩

end ScriptMachine
