import ScriptMachine.Proofs.Machine.Stepping

/-!
# The machine by its registers

A machine can also be written down with all registers that change while the host waits: what it is
doing, how many instructions there were, how many calls of the host are open and whether the last one
has returned.  The instructions set these registers, and the loop goes by nothing else.

* `Phase`               what a machine is doing;
* `Registers`           a loaded program with its registers;
* `Registers.round`     one round of the loop;
* `Registers.loop`      the loop: rounds as long as the machine is active;
* `Registers.resume`, `Registers.call`, `Registers.apply`, `Registers.after`   operations of the host;
* `Tracks`              registers in the midst of a run;
* `Tracks.loop`         the loop ends as the run stops;
* `Idle`                registers between operations, and the machine that they belong to;
* `Idle.apply`, `Idle.after`   the host can not tell the registers from the machine.
-/

namespace ScriptMachine

/-! ## registers -/

inductive Phase where
  | paused
  | running
  /-- to the next statement -/
  | stepping
  | done
  deriving DecidableEq, Repr

namespace Phase

def isActive : Phase → Bool
  | running | stepping => true
  | paused | done => false

def ofMode : Mode → Phase
  | .paused => paused
  | .done => done

end Phase

structure Registers where
  linked : Linked
  limits : Limits
  state : State
  phase : Phase
  /-- instructions since the host came in -/
  cycles : Nat
  /-- instructions since the last pause -/
  sincePause : Nat
  /-- calls of the host that are open -/
  hostCalls : Nat
  /-- has the call of the host returned? -/
  hostReturned : Bool

/-- what an operation gives to the host -/
inductive Answered where
  | registered
  | phase (phase : Phase)
  | value (value : HostValue)

namespace Registers

/-- what an operation of the host came to, and the registers after it -/
abbrev Outcome (α : Type) := Except RuntimeError α × Registers

/-- Registers before the first instruction of a program. -/
def load (program : Program) (limits : Limits) : Except VerifyError Registers := do
  program.verify
  let labels ← program.checkedLabels
  let (global, heap) := Heap.empty.newGlobal
  return {
    linked := ⟨program, labels, global, []⟩
    limits := limits
    state := ⟨⟨0, 0⟩, global, Stack.empty, heap, []⟩
    phase := .paused
    cycles := 0
    sincePause := 0
    hostCalls := 0
    hostReturned := false }

/-! ### the loop -/

def pause (r : Registers) : Registers := { r with phase := .paused, sincePause := 0 }

/-- what an instruction does to the registers; calls of the host run to their end -/
def obey (r : Registers) : Signal → Registers
  | .proceed => r
  | .pause => if r.hostCalls = 0 then r.pause else r
  | .halt => { r with phase := .done }
  | .hostReturn => { r with phase := .paused, hostReturned := true }

/-- One round of the loop, and the error if it fails. -/
def round (r : Registers) : Option RuntimeError × Registers :=
  match r.linked.program.instruction? r.state.location.sectionIndex r.state.location.pc with
  | none => (some (Exec.defectAt r.state .outOfCode), r)
  | some instruction =>
    if r.phase = .stepping ∧ instruction.startsStatement ∧ 0 < r.sincePause then (none, r.pause)
    else
      let counted := { r with cycles := r.cycles + 1 }
      match r.limits.exceeded? counted.cycles r.state.stack.depth with
      | some error => (some error, counted)
      | none =>
        let next := { counted with sincePause := r.sincePause + 1 }
        match execute r.linked instruction.op r.state with
        | .error error s => (some error, { next with state := s })
        | .ok signal s => (none, { next with state := s }.obey signal)

/-- Rounds as long as the machine is active; nothing if it still is after `fuel` of them. -/
def loop : Nat → Registers → Option (Option RuntimeError × Registers)
  | 0, r => if r.phase.isActive then none else some (none, r)
  | fuel + 1, r =>
    if r.phase.isActive then
      match r.round with
      | (some error, r) => some (some error, r)
      | (none, r) => r.loop fuel
    else some (none, r)

/-! ### operations -/

def register (r : Registers) (name : String) (native : Native) : Registers :=
  { r with linked := { r.linked with natives := (name, native) :: r.linked.natives } }

/-- a failed run is over, its stack empty and its scopes left -/
def abandon (r : Registers) : Registers :=
  { r with
    phase := .done
    state := { r.state with stack := Stack.empty, env := r.linked.global } }

/-- what the end of the loop comes to -/
def finishRun : Option RuntimeError × Registers → Outcome Phase
  | (none, r) => (.ok r.phase, r)
  | (some error, r) => (.error error, r.abandon)

/-- Goes on in a phase until the loop ends. -/
def resume (r : Registers) (phase : Phase) (fuel : Nat) : Option (Outcome Phase) :=
  if r.phase = .done then some (.ok .done, r)
  else ({ r with phase := phase, cycles := 0 }.loop fuel).map finishRun

/-- the value of a call of the host whose loop has ended, and the state after that -/
def result (r : Registers) : Option RuntimeError → EStateM.Result RuntimeError State HostValue
  | some error => .error error r.state
  | none =>
    if r.hostReturned then
      match Exec.pop.run r.linked r.state with
      | .ok v s => .ok (r.linked.program.toHost s.heap v) s
      | .error error s => .error error s
    else .error (Exec.defectAt r.state .hostCallEnded) r.state

/-- the end of a call of the host -/
def finishCall (before : State) : Option RuntimeError × Registers → Outcome HostValue
  | (error?, r) =>
    let closed := { r with
      hostCalls := r.hostCalls - 1
      hostReturned := false
      phase := .done }
    match r.result error? with
    | .ok v s => (.ok v, { closed with state := s })
    | .error error s => (.error error, { closed with state := Machine.restore before s })

def call (r : Registers) (name : String) (args : List HostValue) (fuel : Nat) :
    Option (Outcome HostValue) :=
  if r.phase ≠ .done then some (.error (.notDone name), r)
  else
    match r.linked.program.functionIndex? name with
    | none => some (.error (.unknownFunction name), r)
    | some index =>
      let (values, heap) := r.linked.program.fromHostAll r.linked.global args r.state.heap
      let before : State := { r.state with heap := heap }
      match (Exec.enterFunction index values none true).run r.linked before with
      | .error error s => some (.error error, { r with state := s })
      | .ok _ s =>
        let opened := { r with
          state := s
          phase := .running
          cycles := 0
          hostCalls := r.hostCalls + 1
          hostReturned := false }
        (opened.loop fuel).map (finishCall before)

/-- the value of a global variable, `undefined` if there is none -/
def global (r : Registers) (name : String) : HostValue :=
  match r.state.heap.getOwn? r.linked.global name with
  | some v => r.linked.program.toHost r.state.heap v
  | none => .undefined

/-- the instruction that is next, unless the program is done -/
def pending? (r : Registers) : Option Instruction :=
  if r.phase = .done then none
  else r.linked.program.instruction? r.state.location.sectionIndex r.state.location.pc

/-- the result of an operation, nothing if it gave up -/
def apply (r : Registers) : HostOp → Option (Outcome Answered)
  | .register name native => some (.ok .registered, r.register name native)
  | .run fuel => (r.resume .running fuel).map fun (a, r') => (a.map .phase, r')
  | .step fuel => (r.resume .stepping fuel).map fun (a, r') => (a.map .phase, r')
  | .call name args fuel => (r.call name args fuel).map fun (a, r') => (a.map .value, r')
  | .global name => some (.ok (.value (r.global name)), r)

/-- the registers after a session, if no operation gave up -/
def after (r : Registers) : List HostOp → Option Registers
  | [] => some r
  | op :: ops => (r.apply op).bind fun outcome => outcome.2.after ops

end Registers

/-! ## the loop follows the run -/

namespace Drive

/-- the phase in which a run is driven -/
def phase : Drive → Phase
  | step => .stepping
  | run | call => .running

/-- the calls of the host that are open in a run -/
def hostCalls : Drive → Nat
  | call => 1
  | run | step => 0

theorem phase_isActive (drive : Drive) : drive.phase.isActive = true := by cases drive <;> rfl

theorem phase_eq_stepping (drive : Drive) : drive.phase = .stepping ↔ drive = .step := by
  cases drive <;> decide

theorem hostCalls_eq_zero (drive : Drive) : drive.hostCalls = 0 ↔ drive ≠ .call := by
  cases drive <;> decide

end Drive

/-- the registers are in the midst of a run -/
structure Tracks (linked : Linked) (limits : Limits) (drive : Drive) (r : Registers) (run : Run) :
    Prop where
  linked : r.linked = linked
  limits : r.limits = limits
  state : r.state = run.state
  phase : r.phase = drive.phase
  cycles : r.cycles = run.cycles
  moved : drive = .step → run.moved = decide (0 < r.sincePause)
  hostCalls : r.hostCalls = drive.hostCalls
  hostReturned : r.hostReturned = false

/-- what the registers tell about a stop -/
def Stop.Told : Stop → Option RuntimeError → Registers → Prop
  | .paused s, error?, r =>
    error? = none ∧ r.state = s ∧ r.phase = .paused ∧ r.sincePause = 0 ∧ r.hostReturned = false
  | .halted s, error?, r => error? = none ∧ r.state = s ∧ r.phase = .done ∧ r.hostReturned = false
  | .returned s, error?, r =>
    error? = none ∧ r.state = s ∧ r.phase = .paused ∧ r.hostReturned = true
  | .failed error s, error?, r => error? = some error ∧ r.state = s ∧ r.hostReturned = false

/-- the registers when the loop has ended -/
structure Ended (linked : Linked) (limits : Limits) (drive : Drive) (stop : Stop)
    (out : Option RuntimeError × Registers) : Prop where
  linked : out.2.linked = linked
  limits : out.2.limits = limits
  hostCalls : out.2.hostCalls = drive.hostCalls
  told : stop.Told out.1 out.2

/-- how a round goes on if the run makes this progress -/
def Progress.Mirrored (linked : Linked) (limits : Limits) (drive : Drive) :
    Progress → Option RuntimeError × Registers → Prop
  | .going run, out => out.1 = none ∧ Tracks linked limits drive out.2 run
  | .stopped stop, out =>
    (out.1 = none → out.2.phase.isActive = false) ∧ Ended linked limits drive stop out

namespace Tracks

variable {linked : Linked} {limits : Limits} {drive : Drive} {r : Registers} {run : Run}

/-- an instruction of the run -/
theorem obey (h : Tracks linked limits drive r run) (signal : Signal) (s : State) :
    (Progress.after drive (run.cycles + 1) (.ok signal s)).Mirrored linked limits drive
      (none, { r with cycles := r.cycles + 1, sincePause := r.sincePause + 1, state := s }.obey signal) := by
  obtain ⟨hlinked, hlimits, -, hphase, hcycles, -, hcalls, hreturned⟩ := h
  have hmoved : true = decide (0 < r.sincePause + 1) := (decide_eq_true (Nat.succ_pos _)).symm
  have hgoing : Tracks linked limits drive
      { r with cycles := r.cycles + 1, sincePause := r.sincePause + 1, state := s }
      ⟨s, run.cycles + 1, true⟩ :=
    ⟨hlinked, hlimits, rfl, hphase, congrArg (· + 1) hcycles, fun _ => hmoved, hcalls, hreturned⟩
  cases signal with
  | proceed => exact ⟨rfl, hgoing⟩
  | halt => exact ⟨fun _ => rfl, hlinked, hlimits, hcalls, rfl, rfl, rfl, hreturned⟩
  | hostReturn => exact ⟨fun _ => rfl, hlinked, hlimits, hcalls, rfl, rfl, rfl, rfl⟩
  | pause =>
    dsimp only [Progress.after, Registers.obey]
    by_cases hcall : drive = .call
    · have hopen : r.hostCalls ≠ 0 := by
        rw [hcalls, hcall]
        exact Nat.one_ne_zero
      rw [if_pos hcall, if_neg hopen]
      exact ⟨rfl, hgoing⟩
    · have hclosed : r.hostCalls = 0 := hcalls.trans (drive.hostCalls_eq_zero.mpr hcall)
      rw [if_neg hcall, if_pos hclosed]
      exact ⟨fun _ => rfl, hlinked, hlimits, hcalls, rfl, rfl, rfl, rfl, hreturned⟩

/-- one round is one instruction of the run -/
theorem round (h : Tracks linked limits drive r run) :
    (tick linked limits drive run).Mirrored linked limits drive r.round := by
  have hobey := h.obey
  obtain ⟨state, cycles, moved⟩ := run
  obtain ⟨rfl, rfl, rfl, hphase, rfl, hmoved, hcalls, hreturned⟩ := h
  unfold tick Registers.round
  dsimp only
  cases r.linked.program.instruction? r.state.location.sectionIndex r.state.location.pc with
  | none => exact ⟨nofun, rfl, rfl, hcalls, rfl, rfl, hreturned⟩
  | some ins =>
    dsimp only
    have hpause : (r.phase = .stepping ∧ ins.startsStatement ∧ 0 < r.sincePause)
        ↔ (drive = .step ∧ ins.startsStatement ∧ moved) := by
      rw [hphase, drive.phase_eq_stepping]
      refine and_congr_right fun hstep => and_congr_right fun _ => ?_
      rw [show moved = _ from hmoved hstep, decide_eq_true_iff]
    by_cases hstop : drive = .step ∧ ins.startsStatement ∧ moved
    · rw [if_pos hstop, if_pos (hpause.mpr hstop)]
      exact ⟨fun _ => rfl, rfl, rfl, hcalls, rfl, rfl, rfl, rfl, hreturned⟩
    · rw [if_neg hstop, if_neg (mt hpause.mp hstop)]
      cases r.limits.exceeded? (r.cycles + 1) r.state.stack.depth with
      | some e => exact ⟨nofun, rfl, rfl, hcalls, rfl, rfl, hreturned⟩
      | none =>
        dsimp only
        cases execute r.linked ins.op r.state with
        | error e s => exact ⟨nofun, rfl, rfl, hcalls, rfl, rfl, hreturned⟩
        | ok signal s =>
          have hone := hobey signal s
          cases signal <;> exact hone

/-- The loop gives up when the run does, and ends as the run stops. -/
theorem loop (h : Tracks linked limits drive r run) (fuel : Nat) :
    Option.Rel (fun out stop => Ended linked limits drive stop out) (r.loop fuel)
      (runFor linked limits drive fuel run) := by
  induction fuel generalizing r run with
  | zero =>
    rw [Registers.loop, h.phase, if_pos drive.phase_isActive]
    exact .none
  | succ fuel ih =>
    have hround := h.round
    rw [Registers.loop, h.phase, if_pos drive.phase_isActive, runFor]
    generalize r.round = out at hround
    obtain ⟨error?, r'⟩ := out
    cases htick : tick linked limits drive run with
    | going run' =>
      rw [htick] at hround
      obtain ⟨rfl, hgoing⟩ := hround
      exact ih hgoing
    | stopped stop =>
      rw [htick] at hround
      obtain ⟨hactive, hended⟩ := hround
      cases error? with
      | some e => exact .some hended
      | none =>
        -- the loop ends before the next round, whatever fuel is left
        have hidle : r'.phase.isActive = false := hactive rfl
        have hloop : r'.loop fuel = some (none, r') := by
          cases fuel <;> rw [Registers.loop, hidle] <;> rfl
        show Option.Rel _ (r'.loop fuel) _
        rw [hloop]
        exact .some hended

end Tracks

/-! ## operations -/

namespace Registers

/-- registers between two operations, and the machine that they belong to -/
structure Idle (r : Registers) (m : Machine) : Prop where
  linked : r.linked = m.linked
  limits : r.limits = m.limits
  state : r.state = m.state
  phase : r.phase = .ofMode m.mode
  moved : m.mode = .paused → m.moved = decide (0 < r.sincePause)
  hostCalls : r.hostCalls = 0
  hostReturned : r.hostReturned = false

/-- the same result for the host, and registers and machine are idle again -/
def Agree {α β : Type} (f : α → β) (a : Outcome β) (b : Machine.Outcome α) : Prop :=
  a.1 = b.1.map f ∧ a.2.Idle b.2

end Registers

/-- what the host gets from the registers, by what it gets from the machine -/
def Answered.ofReply : Reply → Answered
  | .registered => registered
  | .mode mode => phase (.ofMode mode)
  | .value v => value v

namespace Registers

/-- what is made of related results -/
theorem rel_map {α β γ δ : Type} {R : α → β → Prop} {S : γ → δ → Prop} {f : α → γ} {g : β → δ}
    {a? : Option α} {b? : Option β} (h : Option.Rel R a? b?)
    (hmap : ∀ a b, b? = some b → R a b → S (f a) (g b)) : Option.Rel S (a?.map f) (b?.map g) := by
  cases h with
  | none => exact .none
  | some h => exact .some (hmap _ _ rfl h)

theorem Agree.map {α β γ δ : Type} {f : α → β} {f' : γ → δ} (g : α → γ) (g' : β → δ)
    (hcomm : ∀ a, g' (f a) = f' (g a)) {a? : Option (Outcome β)} {b? : Option (Machine.Outcome α)}
    (h : Option.Rel (Agree f) a? b?) :
    Option.Rel (Agree f') (a?.map fun (a, r) => (a.map g', r)) (b?.map fun (b, m) => (b.map g, m)) := by
  refine rel_map h fun a b _ hagree => ⟨?_, hagree.2⟩
  show a.1.map g' = (b.1.map g).map f'
  rw [hagree.1]
  cases b.1 with
  | error e => rfl
  | ok b => exact congrArg Except.ok (hcomm b)

theorem Idle.ofLoad {program : Program} {limits : Limits} {r : Registers}
    (h : load program limits = .ok r) :
    ∃ m, Machine.load program limits = .ok m ∧ r.Idle m := by
  unfold load at h
  unfold Machine.load
  cases hverify : program.verify with
  | error e =>
    rw [hverify] at h
    cases h
  | ok _ =>
    rw [hverify] at h
    cases hlabels : program.checkedLabels with
    | error e =>
      rw [hlabels] at h
      cases h
    | ok labels =>
      rw [hlabels] at h
      cases h
      exact ⟨_, rfl, rfl, rfl, rfl, rfl, fun _ => rfl, rfl, rfl⟩

namespace Idle

variable {r : Registers} {m : Machine}

theorem register (h : r.Idle m) (name : String) (native : Native) :
    (r.register name native).Idle (m.register name native) := by
  obtain ⟨hlinked, hlimits, hstate, hphase, hmoved, hcalls, hreturned⟩ := h
  refine ⟨?_, hlimits, hstate, hphase, hmoved, hcalls, hreturned⟩
  unfold Registers.register Machine.register
  rw [hlinked]

theorem global (h : r.Idle m) (name : String) : r.global name = m.global name := by
  obtain ⟨linked, limits, state, phase, cycles, sincePause, hostCalls, hostReturned⟩ := r
  obtain ⟨rfl, -, rfl, -⟩ := h
  rfl

/-- The end of a run.  The main code of a compiled program never returns, so the loop pauses only where
the machine does. -/
theorem finishRun {T : Location → Shape} {drive : Drive} (hdrive : drive ≠ .call) {stop : Stop}
    (hwell : StopsWell m.linked T drive.hosted stop) (hmode : m.mode = .paused)
    {out : Option RuntimeError × Registers} (h : Ended m.linked m.limits drive stop out) :
    Agree .ofMode (Registers.finishRun out) (m.finishRun stop) := by
  obtain ⟨error?, linked, limits, state, phase, cycles, sincePause, hostCalls, hostReturned⟩ := out
  obtain ⟨rfl, rfl, hcalls, htold⟩ := h
  obtain rfl : hostCalls = 0 := hcalls.trans (drive.hostCalls_eq_zero.mpr hdrive)
  cases stop with
  | paused s =>
    obtain ⟨rfl, rfl, rfl, rfl, rfl⟩ := htold
    have hphase : Phase.paused = .ofMode m.mode := (congrArg Phase.ofMode hmode).symm
    exact ⟨rfl, rfl, rfl, rfl, hphase, fun _ => rfl, rfl, rfl⟩
  | halted s =>
    obtain ⟨rfl, rfl, rfl, rfl⟩ := htold
    exact ⟨rfl, rfl, rfl, rfl, rfl, nofun, rfl, rfl⟩
  | returned s =>
    rw [show drive.hosted = false from decide_eq_false hdrive] at hwell
    cases hwell.1
  | failed e s =>
    obtain ⟨rfl, rfl, rfl⟩ := htold
    exact ⟨rfl, rfl, rfl, rfl, rfl, nofun, rfl, rfl⟩

/-- a run that the host drives -/
theorem resume (h : r.Idle m) {program : Program} {T : Location → Shape} (hok : m.Ok program T)
    (drive : Drive) (hdrive : drive ≠ .call) (fuel : Nat) :
    Option.Rel (Agree .ofMode) (r.resume drive.phase fuel) (m.resume drive fuel) := by
  cases hmode : m.mode with
  | done =>
    have hdone : r.phase = .done := by rw [h.phase, hmode]; rfl
    unfold Registers.resume Machine.resume
    rw [if_pos hdone, hmode]
    exact .some ⟨rfl, h⟩
  | paused =>
    have hpaused : r.phase ≠ .done := by rw [h.phase, hmode]; nofun
    have hcalls : r.hostCalls = drive.hostCalls :=
      h.hostCalls.trans (drive.hostCalls_eq_zero.mpr hdrive).symm
    have htracks : Tracks m.linked m.limits drive { r with phase := drive.phase, cycles := 0 }
        ⟨m.state, 0, m.moved⟩ :=
      ⟨h.linked, h.limits, h.state, rfl, rfl, fun _ => h.moved hmode, hcalls, h.hostReturned⟩
    have hsound : Sound m.linked T drive.hosted m.state := by
      rw [show drive.hosted = false from decide_eq_false hdrive]
      exact hok.paused hmode
    unfold Registers.resume
    rw [if_neg hpaused, Machine.resume_eq hmode]
    refine rel_map (htracks.loop fuel) fun out stop hstop hended => ?_
    exact finishRun hdrive (runFor_sound hok.shaped hok.tabled _ hsound hstop) hmode hended

/-- the end of a call of the host -/
theorem finishCall (hmode : m.mode = .done) {stop : Stop} {out : Option RuntimeError × Registers}
    (h : Ended m.linked m.limits .call stop out) (before : State) :
    Agree id (Registers.finishCall before out) (m.finishCall before stop) := by
  obtain ⟨error?, linked, limits, state, phase, cycles, sincePause, hostCalls, hostReturned⟩ := out
  obtain ⟨rfl, rfl, rfl, htold⟩ := h
  have hidle (s : State) : Registers.Idle ⟨m.linked, m.limits, s, .done, cycles, sincePause, 0, false⟩
      { m with state := s } := by
    refine ⟨rfl, rfl, rfl, (congrArg Phase.ofMode hmode).symm, fun hpaused => ?_, rfl, rfl⟩
    cases hmode.symm.trans hpaused
  cases stop with
  | paused s =>
    obtain ⟨rfl, rfl, -, -, rfl⟩ := htold
    exact ⟨rfl, hidle _⟩
  | halted s =>
    obtain ⟨rfl, rfl, -, rfl⟩ := htold
    exact ⟨rfl, hidle _⟩
  | failed e s =>
    obtain ⟨rfl, rfl, -⟩ := htold
    exact ⟨rfl, hidle _⟩
  | returned s =>
    obtain ⟨rfl, rfl, -, rfl⟩ := htold
    unfold Registers.finishCall Registers.result Machine.finishCall
    dsimp only
    rw [if_pos rfl]
    cases Exec.pop.run m.linked state with
    | ok v s => exact ⟨rfl, hidle _⟩
    | error e s => exact ⟨rfl, hidle _⟩

/-- a call of a function -/
theorem call (h : r.Idle m) (name : String) (args : List HostValue) (fuel : Nat) :
    Option.Rel (Agree id) (r.call name args fuel) (m.call name args fuel) := by
  unfold Registers.call Machine.call
  cases hmode : m.mode with
  | paused =>
    have hpaused : r.phase ≠ .done := by rw [h.phase, hmode]; nofun
    rw [if_pos hpaused]
    exact .some ⟨rfl, h⟩
  | done =>
    have hdone : r.phase = .done := by rw [h.phase, hmode]; rfl
    rw [if_neg (not_not_intro hdone)]
    have hidle := h
    obtain ⟨linked, limits, state, phase, cycles, sincePause, hostCalls, hostReturned⟩ := r
    obtain ⟨rfl, rfl, rfl, -, -, rfl, rfl⟩ := h
    dsimp only
    cases m.linked.program.functionIndex? name with
    | none => exact .some ⟨rfl, hidle⟩
    | some index =>
      show Option.Rel _
        (match (Exec.enterFunction index (m.importArgs args).1 none true).run m.linked
          (m.importArgs args).2 with
        | .error error s => _
        | .ok _ s => _) _
      dsimp only
      cases (Exec.enterFunction index (m.importArgs args).1 none true).run m.linked
          (m.importArgs args).2 with
      | error e s => exact .some ⟨rfl, rfl, rfl, rfl, hdone, nofun, rfl, rfl⟩
      | ok _ s =>
        have htracks : Tracks m.linked m.limits .call
            ⟨m.linked, m.limits, s, .running, 0, sincePause, 1, false⟩ ⟨s, 0, m.moved⟩ :=
          ⟨rfl, rfl, rfl, rfl, rfl, nofun, rfl, rfl⟩
        have hloop := htracks.loop fuel
        dsimp only
        rw [Nat.zero_add]
        exact rel_map hloop fun out stop _ hended => finishCall hmode hended _

/-- one operation of the host -/
theorem apply (h : r.Idle m) {program : Program} {T : Location → Shape} (hok : m.Ok program T)
    (op : HostOp) : Option.Rel (Agree .ofReply) (r.apply op) (m.apply op) := by
  cases op with
  | register name native => exact .some ⟨rfl, h.register name native⟩
  | run fuel =>
    exact Agree.map Reply.mode Answered.phase (fun _ => rfl) (h.resume hok .run nofun fuel)
  | step fuel =>
    exact Agree.map Reply.mode Answered.phase (fun _ => rfl) (h.resume hok .step nofun fuel)
  | call name args fuel =>
    exact Agree.map Reply.value Answered.value (fun _ => rfl) (h.call name args fuel)
  | global name =>
    refine .some ⟨?_, h⟩
    rw [h.global name]
    rfl

/-- a session -/
theorem after (h : r.Idle m) {program : Program} {T : Location → Shape} (hok : m.Ok program T)
    (ops : List HostOp) : Option.Rel Idle (r.after ops) (m.after ops) := by
  induction ops generalizing r m with
  | nil => exact .some h
  | cons op ops ih =>
    have hone := h.apply hok op
    unfold Registers.after Machine.after
    cases ho : m.apply op with
    | none =>
      rw [ho] at hone
      generalize r.apply op = out? at hone ⊢
      cases hone
      exact .none
    | some outcome =>
      rw [ho] at hone
      generalize r.apply op = out? at hone ⊢
      cases hone with
      | some hagree => exact ih hagree.2 (hok.apply ho).2

end Idle

end Registers

end ScriptMachine
