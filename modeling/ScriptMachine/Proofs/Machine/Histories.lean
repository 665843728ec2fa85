import ScriptMachine.Proofs.Machine.CallStack
import ScriptMachine.Proofs.Machine.NativeCalls
import ScriptMachine.Proofs.Machine.Stepping
import ScriptMachine.Proofs.Machine.AtRest
import ScriptMachine.Proofs.Machine.Trails

/-!
# The environments of frames in sessions

The history of a state tells its frames apart: which calls are not over, which scopes they have, and
which objects they were made on.

* `History`             how a state comes about, with its frames and its block scopes;
* `Arises`              a state that has a history;
* `Machine.Traced`      a machine whose state has one;
* `InSession.settled`   all states of sessions are sound and settled;
* `State.Environs`      what is known of the environments of a state;
* `session_environments`   all states of all sessions.
-/

namespace ScriptMachine

/-! ## histories -/

section
variable (program : Program) (table : LabelTable)

/-- a run of the program, with whatever functions of the host -/
structure Linked.Runs (linked : Linked) : Prop extends linked.Of program table where
  global : linked.global = ⟨0⟩

/-- The heap that is there when a run is over whose last state is `s`: nothing happens any more, or the
last instruction stops the run. -/
def State.Abandons (s : State) (heap : Heap) : Prop :=
  heap = s.heap ∨ ∃ (linked : Linked) (ins : Instruction), linked.Runs program table
    ∧ program.instruction? s.location.sectionIndex s.location.pc = some ins
    ∧ heap = (resultState (execute linked ins.op s)).heap

/-- How a state comes about, with its frames and the block scopes of its run.  The main code starts in
the global environment.  Instructions go on from one state to the next, and the host may pause the
program in between and register functions.  When a run is over the host may call a function, whose
arguments come onto the heap that is left. -/
inductive History : State → List Frame → List EnvId → Prop
  | start : History .start [.main] []
  | next {linked : Linked} {s s' : State} {frames : List Frame} {blocks : List EnvId} {ins : Instruction}
      {signal : Signal} (h : History s frames blocks) (hlinked : linked.Runs program table)
      (hins : program.instruction? s.location.sectionIndex s.location.pc = some ins)
      (hexec : execute linked ins.op s = .ok signal s') (hsignal : signal = .proceed ∨ signal = .pause) :
    History s' (framesAfter ins.op s s' frames) (blocksAfter ins.op s' blocks)
  | host {linked : Linked} {s before s' : State} {frames : List Frame} {blocks : List EnvId} {heap : Heap}
      {index : Nat} {args : List HostValue} (h : History s frames blocks)
      (hover : s.Abandons program table heap) (hlinked : linked.Runs program table)
      (hempty : before.stack.slots = [])
      (hheap : before.heap = (linked.program.fromHostAll linked.global args heap).2)
      (henter : (Exec.enterFunction index (linked.program.fromHostAll linked.global args heap).1 none
        true).run linked before = .ok () s') : History s' [.call s'.env none] []

/-- the state has a history -/
def Arises (s : State) : Prop := ∃ frames blocks, History program table s frames blocks

/-- the heap is left by a run that is over -/
def Left (heap : Heap) : Prop := ∃ s, Arises program table s ∧ s.Abandons program table heap

end

section
variable {program : Program} {table : LabelTable} {linked : Linked} {limits : Limits} {drive : Drive}
  {run last : Run}

/-! ## runs -/

theorem Arises.next {s s' : State} {ins : Instruction} {signal : Signal} (h : Arises program table s)
    (hlinked : linked.Runs program table)
    (hins : linked.program.instruction? s.location.sectionIndex s.location.pc = some ins)
    (hexec : execute linked ins.op s = .ok signal s') (hsignal : signal = .proceed ∨ signal = .pause) :
    Arises program table s' := by
  obtain ⟨frames, blocks, h⟩ := h
  rw [hlinked.program] at hins
  exact ⟨_, _, h.next hlinked hins hexec hsignal⟩

theorem Arises.ahead (h : Arises program table run.state) (hlinked : linked.Runs program table)
    {n : Nat} (hlast : run.ahead linked limits drive n = some last) :
    Arises program table last.state := by
  induction n generalizing run with
  | zero =>
    cases hlast
    exact h
  | succ n ih =>
    rw [Run.ahead] at hlast
    have hticks := ticks linked limits drive run
    generalize tick linked limits drive run = progress at hticks hlast
    cases hticks with
    | goes hins hexec hsignal =>
      exact ih (h.next hlinked hins hexec (hsignal.imp_right And.left)) hlast
    | _ => cases hlast

/-- the state where a run stops -/
def Stop.state : Stop → State
  | .paused s | .halted s | .returned s | .failed _ s => s

/-- where a run pauses it can go on; else it is over -/
theorem Arises.stops (h : Arises program table run.state) (hlinked : linked.Runs program table)
    {stop : Stop} (htick : tick linked limits drive run = .stopped stop) :
    Left program table stop.state.heap ∧ ∀ s, stop = .paused s → Arises program table s := by
  have hleft {ins : Instruction} (hins : run.IsAt linked ins) {heap : Heap}
      (hheap : heap = (resultState (execute linked ins.op run.state)).heap) :
      Left program table heap := by
    unfold Run.IsAt at hins
    rw [hlinked.program] at hins
    exact ⟨run.state, h, .inr ⟨linked, ins, hlinked, hins, hheap⟩⟩
  have hticks := ticks linked limits drive run
  rw [htick] at hticks
  cases hticks with
  | lost | limited => exact ⟨⟨run.state, h, .inl rfl⟩, nofun⟩
  | waits =>
    refine ⟨⟨run.state, h, .inl rfl⟩, fun s hs => ?_⟩
    cases hs
    exact h
  | fails hins hexec | halts hins hexec | returns hins hexec =>
    exact ⟨hleft hins (by rw [hexec]; rfl), nofun⟩
  | pauses hins hexec =>
    refine ⟨hleft hins (by rw [hexec]; rfl), fun s hs => ?_⟩
    cases hs
    exact h.next hlinked hins hexec (.inr rfl)

/-! ## machines -/

variable (program table) in
/-- A machine that pauses is in a state that has a history, and one that is done has the heap of a run
that is over. -/
structure Machine.Traced (m : Machine) : Prop where
  linked : m.linked.Runs program table
  paused : m.mode = .paused → Arises program table m.state
  done : m.mode = .done → Left program table m.state.heap

namespace Machine

variable {m : Machine}

/-- a call leaves the heap on which its run stops -/
theorem finishCall_state (m : Machine) (before : State) (stop : Stop) :
    ∃ s, (m.finishCall before stop).2 = { m with state := s } ∧ s.heap = stop.state.heap := by
  cases stop with
  | failed e s | halted s | paused s => exact ⟨_, rfl, rfl⟩
  | returned s =>
    obtain ⟨loc, env, ⟨slots, depth, hdepth⟩, heap, events⟩ := s
    cases slots with
    | nil => exact ⟨_, rfl, rfl⟩
    | cons slot slots => cases slot <;> exact ⟨_, rfl, rfl⟩

namespace Traced

/-- before the first instruction -/
theorem loaded (limits : Limits) :
    Traced program table ⟨⟨program, table, ⟨0⟩, []⟩, limits, .start, .paused, false⟩ :=
  ⟨⟨⟨rfl, rfl⟩, rfl⟩, fun _ => ⟨_, _, .start⟩, nofun⟩

theorem resume (h : m.Traced program table) (drive : Drive) {T : Location → Shape} (hok : m.Ok program T)
    (hdrive : drive ≠ .call) {fuel : Nat} {outcome : Outcome Mode}
    (ho : m.resume drive fuel = some outcome) : outcome.2.Traced program table := by
  cases hmode : m.mode with
  | done =>
    unfold Machine.resume at ho
    rw [hmode] at ho
    cases ho
    exact h
  | paused =>
    rw [resume_eq hmode] at ho
    obtain ⟨stop, hstop, rfl⟩ := Option.map_eq_some_iff.mp ho
    have hsound : Sound m.linked T drive.hosted m.state := by
      rw [show drive.hosted = false from decide_eq_false hdrive]
      exact hok.paused hmode
    have hwell := runFor_sound hok.shaped hok.tabled ⟨m.state, 0, m.moved⟩ hsound hstop
    obtain ⟨n, last, hlast, htick⟩ := exists_ahead hstop
    have harises : Arises program table last.state := Arises.ahead (h.paused hmode) h.linked hlast
    obtain ⟨hleft, hpaused⟩ := harises.stops h.linked htick
    cases stop with
    | failed e s => exact ⟨h.linked, nofun, fun _ => hleft⟩
    | halted s => exact ⟨h.linked, nofun, fun _ => hleft⟩
    | paused s =>
      refine ⟨h.linked, fun _ => hpaused s rfl, fun hdone => ?_⟩
      cases hmode.symm.trans hdone
    | returned s =>
      obtain ⟨hhosted, -⟩ := hwell
      exact absurd (of_decide_eq_true hhosted) hdrive

/-- a function that the host calls starts a history on the heap that is left -/
theorem arises_call (h : m.Traced program table) {T : Location → Shape} (hok : m.Ok program T)
    (hmode : m.mode = .done) {index : Nat} {args : List HostValue} {s : State}
    (hs : (Exec.enterFunction index (m.importArgs args).1 none true).run m.linked (m.importArgs args).2
      = .ok () s) : Arises program table s := by
  obtain ⟨s₀, ⟨frames, blocks, hhistory⟩, hover⟩ := h.done hmode
  have hempty : (m.importArgs args).2.stack.slots = [] := (hok.done hmode).2
  exact ⟨_, _, hhistory.host hover h.linked hempty rfl hs⟩

theorem call (h : m.Traced program table) {T : Location → Shape} (hok : m.Ok program T) {name : String}
    {args : List HostValue} {fuel : Nat} {outcome : Outcome HostValue}
    (ho : m.call name args fuel = some outcome) : outcome.2.Traced program table := by
  cases hmode : m.mode with
  | paused =>
    unfold Machine.call at ho
    rw [hmode] at ho
    cases ho
    exact h
  | done =>
    cases hindex : m.linked.program.functionIndex? name with
    | none =>
      unfold Machine.call at ho
      rw [hmode] at ho
      dsimp only at ho
      rw [hindex] at ho
      cases ho
      exact h
    | some index =>
      obtain ⟨s, hs, -⟩ := hok.sound_call hmode hindex args
      rw [call_eq hmode hindex hs] at ho
      obtain ⟨stop, hstop, rfl⟩ := Option.map_eq_some_iff.mp ho
      obtain ⟨n, last, hlast, htick⟩ := exists_ahead hstop
      have harises : Arises program table last.state :=
        Arises.ahead (h.arises_call hok hmode hs) h.linked hlast
      obtain ⟨s', heq, hheap⟩ := m.finishCall_state (m.importArgs args).2 stop
      rw [heq]
      refine ⟨h.linked, fun hpaused => ?_, fun _ => hheap ▸ (harises.stops h.linked htick).1⟩
      cases hmode.symm.trans hpaused

/-- one operation -/
theorem apply (h : m.Traced program table) {T : Location → Shape} (hok : m.Ok program T) {op : HostOp}
    {outcome : Outcome Reply} (ho : m.apply op = some outcome) : outcome.2.Traced program table := by
  cases op with
  | register name native =>
    cases ho
    exact ⟨⟨⟨h.linked.program, h.linked.labels⟩, h.linked.global⟩, h.paused, h.done⟩
  | global name =>
    cases ho
    exact h
  | run fuel =>
    obtain ⟨o, hrun, rfl⟩ := Option.map_eq_some_iff.mp ho
    exact h.resume .run hok nofun hrun
  | step fuel =>
    obtain ⟨o, hrun, rfl⟩ := Option.map_eq_some_iff.mp ho
    exact h.resume .step hok nofun hrun
  | call name args fuel =>
    obtain ⟨o, hcall, rfl⟩ := Option.map_eq_some_iff.mp ho
    exact h.call hok hcall

/-- a whole session -/
theorem after (h : m.Traced program table) {T : Location → Shape} (hok : m.Ok program T)
    {ops : List HostOp} {m' : Machine} (hm : m.after ops = some m') : m'.Traced program table := by
  induction ops generalizing m with
  | nil =>
    cases hm
    exact h
  | cons op ops ih =>
    obtain ⟨outcome, ho, hrest⟩ := Option.bind_eq_some_iff.mp hm
    exact ih (h.apply hok ho) (hok.apply ho).2 hrest

/-- every run that an operation starts -/
theorem enters (h : m.Traced program table) {T : Location → Shape} (hok : m.Ok program T) {run : Run}
    (hrun : m.Enters drive run) : Arises program table run.state := by
  cases hrun with
  | run hmode | step hmode => exact h.paused hmode
  | call hmode _ hs => exact h.arises_call hok hmode hs

end Traced

end Machine

end

/-! ## programs with functions of the host -/

section
variable {program : Program} {table : LabelTable} {linked linked' : Linked} {T : Location → Shape}
  {hosted : Bool} {s : State}

namespace Linked.Runs

theorem shaped (h : linked.Runs program table) (hshape : WellShaped program table T) :
    WellShaped linked.program linked.labels T := by
  rw [h.program, h.labels]
  exact hshape

theorem tabled (h : linked.Runs program table) (htab : Tabled program) : Tabled linked.program :=
  h.program ▸ htab

/-- the functions of the host do not matter for a state -/
theorem sound (h : linked.Runs program table) (h' : linked'.Runs program table)
    (hs : Sound linked T hosted s) : Sound linked' T hosted s := by
  obtain ⟨_, _, _, _⟩ := linked
  obtain ⟨_, _, _, _⟩ := linked'
  obtain ⟨⟨rfl, rfl⟩, rfl⟩ := h
  obtain ⟨⟨rfl, rfl⟩, rfl⟩ := h'
  exact ⟨hs.exists_, hs.here.location, ⟨hs.here.heap.known, hs.here.heap.global⟩, hs.here.frame⟩

theorem settled {blocks : List EnvId} {frames : List Frame} (h : linked.Runs program table)
    (h' : linked'.Runs program table) (hs : Settled linked T blocks frames s) :
    Settled linked' T blocks frames s := by
  obtain ⟨_, _, _, _⟩ := linked
  obtain ⟨_, _, _, _⟩ := linked'
  obtain ⟨⟨rfl, rfl⟩, rfl⟩ := h
  obtain ⟨⟨rfl, rfl⟩, rfl⟩ := h'
  obtain ⟨f, fs, rfl, hs⟩ := hs
  exact ⟨f, fs, rfl, hs.location, hs.nested, hs.lodged, hs.enclosed, hs.scopes, hs.sane, hs.stacked, hs.held⟩

theorem heap {heap : Heap} (h : linked.Runs program table) (h' : linked'.Runs program table)
    (hheap : HeapOk linked heap ∧ Sane linked heap) : HeapOk linked' heap ∧ Sane linked' heap := by
  obtain ⟨_, _, _, _⟩ := linked
  obtain ⟨_, _, _, _⟩ := linked'
  obtain ⟨⟨rfl, rfl⟩, rfl⟩ := h
  obtain ⟨⟨rfl, rfl⟩, rfl⟩ := h'
  exact ⟨⟨hheap.1.known, hheap.1.global⟩, hheap.2⟩

end Linked.Runs

/-! ## what histories lead to -/

/-- nothing is bound before the first instruction -/
theorem sane_start (hglobal : linked.global = ⟨0⟩) : Sane linked State.start.heap := by
  refine ⟨?_, fun env name v hv => ?_, fun id v hv => ?_⟩
  · show Heap.Rooted linked.global _
    rw [hglobal]
    exact ⟨Nat.zero_lt_one, rfl, rfl⟩
  · have hv : (Heap.empty.newEnv .scope none).2.getOwn? env name = some v := hv
    rw [Heap.getOwn?_newEnv] at hv
    cases hv
  · cases hv with
    | mk hv => cases hv

/-- the state before the first instruction -/
theorem settled_start (hshape : WellShaped linked.program linked.labels T)
    (hglobal : linked.global = ⟨0⟩) : Settled linked T [] [.main] .start := by
  refine ⟨.main, [], rfl, rfl, ?_, .main, trivial, nofun, sane_start hglobal, nofun, List.forall_mem_nil _⟩
  show Nested [] _ linked.global (T ⟨0, 0⟩).depth _
  rw [hshape.start, hglobal]
  rfl

/-- a function that the host calls starts in a frame of its own, with none below -/
theorem settled_host (hshape : WellShaped linked.program linked.labels T) (index : Nat)
    (entry : FunctionEntry) {args : List Value} (hsane : Sane linked s.heap)
    (hargs : ∀ v ∈ args, v.Real linked.global s.heap)
    (hempty : s.stack.slots = []) :
    let s' := Exec.calleeState linked index entry args none true s
    Settled linked T [] [.call s'.env none] s' := by
  intro s'
  obtain ⟨hstep, hstands⟩ := stands_callee linked index entry true hsane hargs
    (fun v (hv : v ∈ none) => nomatch hv)
  have hdepth : (T ⟨entry.body, 0⟩).depth = 0 := by rw [hshape.start]
  have hslots : s'.stack.slots = [.callSite ⟨s.location, s.env, index, true⟩] := by
    rw [← hempty]
    rfl
  refine ⟨_, _, rfl, rfl, ?_, hslots ▸ .host rfl hstands, hslots ▸ trivial, nofun, hstep.all hsane,
    fun v hv => ?_, List.forall_mem_nil _⟩
  · show Nested _ _ _ (T ⟨entry.body, 0⟩).depth _
    rw [hdepth]
    rfl
  · rw [hslots] at hv
    cases List.mem_singleton.mp hv

/-- the same with arguments of the host -/
theorem settled_enter (hshape : WellShaped linked.program linked.labels T) (htab : Tabled linked.program)
    {heap : Heap} (hheap : HeapOk linked heap ∧ Sane linked heap) {before s' : State} {index : Nat}
    {args : List HostValue} (hempty : before.stack.slots = [])
    (hbefore : before.heap = (linked.program.fromHostAll linked.global args heap).2)
    (henter : (Exec.enterFunction index (linked.program.fromHostAll linked.global args heap).1 none
      true).run linked before = .ok () s') :
    Sound linked T true s' ∧ Settled linked T [] [.call s'.env none] s' := by
  obtain ⟨hok, hsane⟩ := hheap
  obtain ⟨hstep, hknown⟩ := fromHostAll_step linked.global htab.names args heap
  obtain ⟨hstep', hreal⟩ :=
    (ValueKind.real _ linked.global).step_fromHostAll htab.names args heap hsane.root
  rw [← hbefore] at hstep hstep' hreal
  cases hentry : linked.program.functions[index]? with
  | none => cases (Exec.enterFunction_none hentry _ none true before).symm.trans henter
  | some entry =>
    cases (Exec.enterFunction_eq hentry _ none true before).symm.trans henter
    refine ⟨Exec.sound_callee hshape htab hentry hknown (hok.step hstep) fun heap base _ => ?_,
      settled_host hshape index entry (hstep'.all hsane) hreal hempty⟩
    rw [hempty]
    exact .host rfl (Nat.succ_ne_zero _) rfl

/-- an instruction leaves a heap that is all right, whatever comes of it -/
theorem heap_execute (hshape : WellShaped linked.program linked.labels T) (htab : Tabled linked.program)
    {blocks : List EnvId} {frames : List Frame} (hs : Sound linked T hosted s)
    (h : Settled linked T blocks frames s) {ins : Instruction}
    (hins : linked.program.instruction? s.location.sectionIndex s.location.pc = some ins) :
    HeapOk linked (resultState (execute linked ins.op s)).heap
      ∧ Sane linked (resultState (execute linked ins.op s)).heap := by
  have hsound := Exec.safe_execute hshape htab hs hins
  have hsettled := settled_execute hshape htab hs h hins
  generalize execute linked ins.op s = r at hsound hsettled
  cases r with
  | error e s' => exact ⟨hsound.2, hsettled⟩
  | ok signal s' =>
    cases signal with
    | proceed | pause =>
      obtain ⟨f, fs, -, hlives⟩ := hsettled
      exact ⟨hsound.here.heap, hlives.sane⟩
    | halt | hostReturn => exact ⟨hsound.2.1, hsettled⟩

/-- the heap that a run leaves is all right, if its last state is -/
theorem State.Abandons.heap (hshape : WellShaped program table T) (htab : Tabled program)
    {frames : List Frame} {blocks : List EnvId} {heap : Heap}
    (hs : ∀ linked : Linked, linked.Runs program table →
      Sound linked T hosted s ∧ Settled linked T blocks frames s)
    (h : s.Abandons program table heap) (hlinked : linked.Runs program table) :
    HeapOk linked heap ∧ Sane linked heap := by
  rcases h with rfl | ⟨linked', ins, hlinked', hins, rfl⟩
  · obtain ⟨hsound, f, fs, -, hlives⟩ := hs linked hlinked
    exact ⟨hsound.here.heap, hlives.sane⟩
  · obtain ⟨hsound, hsettled⟩ := hs linked' hlinked'
    rw [← hlinked'.program] at hins
    exact hlinked'.heap hlinked
      (heap_execute (hlinked'.shaped hshape) (hlinked'.tabled htab) hsound hsettled hins)

/-- **Histories lead to sound and settled states.** -/
theorem History.settled (hshape : WellShaped program table T) (htab : Tabled program)
    {frames : List Frame} {blocks : List EnvId} (h : History program table s frames blocks) :
    ∃ hosted, ∀ linked : Linked, linked.Runs program table →
      Sound linked T hosted s ∧ Settled linked T blocks frames s := by
  have hinit : Linked.Runs program table ⟨program, table, ⟨0⟩, []⟩ := ⟨⟨rfl, rfl⟩, rfl⟩
  induction h with
  | start =>
    refine ⟨false, fun linked hlinked => ⟨?_, settled_start (hlinked.shaped hshape) hlinked.global⟩⟩
    exact hinit.sound hlinked ((Machine.Ok.loaded hshape htab {}).paused rfl)
  | next h hlinked hins hexec hsignal ih =>
    obtain ⟨hosted, ih⟩ := ih
    obtain ⟨hsound, hsettled⟩ := ih _ hlinked
    rw [← hlinked.program] at hins
    have hsound' := Exec.safe_execute (hlinked.shaped hshape) (hlinked.tabled htab) hsound hins
    have hsettled' := settled_execute (hlinked.shaped hshape) (hlinked.tabled htab) hsound hsettled hins
    rw [hexec] at hsound' hsettled'
    refine ⟨hosted, fun linked' hlinked' => ?_⟩
    rcases hsignal with rfl | rfl <;>
      exact ⟨hlinked.sound hlinked' hsound', hlinked.settled hlinked' hsettled'⟩
  | host h hover hlinked hempty hbefore henter ih =>
    -- of the run before only the heap is left, so its frames and scopes are forgotten
    obtain ⟨hosted, ih⟩ := ih
    obtain ⟨hsound, hsettled⟩ := settled_enter (hlinked.shaped hshape) (hlinked.tabled htab)
      (hover.heap hshape htab ih hlinked) hempty hbefore henter
    exact ⟨true, fun linked' hlinked' =>
      ⟨hlinked.sound hlinked' hsound, hlinked.settled hlinked' hsettled⟩⟩

/-- the heap of a run that is over is all right -/
theorem Left.sane (hshape : WellShaped program table T) (htab : Tabled program) {heap : Heap}
    (h : Left program table heap) (hlinked : linked.Runs program table) : Sane linked heap := by
  obtain ⟨s, ⟨frames, blocks, hhistory⟩, hover⟩ := h
  obtain ⟨hosted, hs⟩ := hhistory.settled hshape htab
  exact (hover.heap hshape htab hs hlinked).2

/-- every state of a session is sound and settled -/
theorem InSession.settled (h : InSession linked s) :
    ∃ T hosted f fs blocks, WellShaped linked.program linked.labels T ∧ Sound linked T hosted s
      ∧ Lives linked T blocks f fs s.location (T s.location).depth [] s := by
  obtain @⟨_, _, limits, _, _, _, _, _, _, _, hcompiled, hload, hops, hfirst, hlast, rfl, rfl⟩ := h
  obtain ⟨tokens, body, -, hprogram⟩ := compileSource_ok hcompiled
  obtain ⟨code, b, hcode, rfl⟩ := compileProgram_ok hprogram
  obtain ⟨table, T, hshape, -⟩ := wellShaped_of_compiled hcode rfl rfl _
  obtain ⟨table', htable, rfl⟩ := Machine.load_ok hload
  obtain rfl : table = table' := Except.ok.inj (hshape.labels.symm.trans htable)
  have htab (source : Source) := tabled_of_compiled hcode source
  have hloaded := Machine.Ok.loaded hshape (htab _) limits
  have htraced := (Machine.Traced.loaded limits).after hloaded hops
  have harises := (htraced.enters (hloaded.after hops) hfirst).ahead htraced.linked hlast
  obtain ⟨frames, blocks, hhistory⟩ := harises
  obtain ⟨hosted, hsettled⟩ := hhistory.settled hshape (htab _)
  obtain ⟨hsound, f, fs, -, hlives⟩ := hsettled _ htraced.linked
  exact ⟨T, hosted, f, fs, blocks, htraced.linked.shaped hshape, hsound, hlives⟩

end

/-! ## the environments of a state -/

/-- What is known of the environments of a state that has these frames and block scopes. -/
structure State.Environs (s : State) (frames : List Frame) (blocks : List EnvId) : Prop where
  /-- What a frame runs in, and what its loops and regions go back to, are block scopes inside of the
  scope of its call, which is inside of the object that it was made on, or of the global environment. -/
  chains : List.Forall₂ (fun envs f => Frame.Stands ⟨0⟩ s.heap f ∧ ∀ env ∈ envs, ∃ inner,
    s.heap.chain env = inner ++ f.around ⟨0⟩ ∧ ∀ b ∈ inner, b ∈ blocks)
    (heldIn s.env s.stack.slots) frames
  scopes : ∀ b ∈ blocks, s.heap.kind b = .scope
  /-- a frame shares no scopes with those below it -/
  apart : (heldIn s.env s.stack.slots).Pairwise fun envs envs' =>
    ∀ e ∈ envs, ∀ e' ∈ envs', s.heap.Apart ⟨0⟩ e e'
  /-- so no name means a binding in a scope of a caller -/
  hidden : ∀ name owner, s.heap.owner? s.env name = some owner →
    ∀ envs ∈ (heldIn s.env s.stack.slots).tail, ∀ e ∈ envs, owner ∈ s.heap.chain e →
      owner = ⟨0⟩ ∨ s.heap.kind owner = .object
  /-- `this` is the object that the running function was called on -/
  this : ∀ linked : Linked, Exec.lookupScript? linked s "this"
    = some (((frames.head?.bind Frame.receiver?).map Value.object).getD .undefined)

theorem Lives.environs {linked : Linked} {T : Location → Shape} {s : State} {f : Frame} {fs : List Frame}
    {blocks : List EnvId} {loc : Location} {d : Nat} {hands : List Value} (hglobal : linked.global = ⟨0⟩)
    (h : Lives linked T blocks f fs loc d hands s) : s.Environs (f :: fs) blocks := by
  have hroot := h.sane.root
  have hstands := h.lodged.stands h.nested
  have hheld := h.lodged.held h.nested
  have hapart := h.lodged.apart h.nested hroot
  have hthis := h.nested.thisObject? hstands hroot h.scopes
  rw [hglobal] at hroot hstands hheld hapart
  have hchains : ∀ (envs : List EnvId) (f : Frame), (Frame.Stands ⟨0⟩ s.heap f
      ∧ ∀ e ∈ envs, ∃ d, Nested blocks s.heap (f.base ⟨0⟩) d e) →
      Frame.Stands ⟨0⟩ s.heap f ∧ ∀ env ∈ envs, ∃ inner,
        s.heap.chain env = inner ++ f.around ⟨0⟩ ∧ ∀ b ∈ inner, b ∈ blocks := by
    intro envs f hf
    refine ⟨hf.1, fun env henv => ?_⟩
    obtain ⟨d, hn⟩ := hf.2 env henv
    exact hn.seen hf.1 hroot
  refine ⟨hheld.imp hchains, fun b hb => (h.scopes b hb).2, hapart,
    fun name owner howner envs henvs e he hmem => ?_, fun linked' => ?_⟩
  · obtain ⟨own, below, heq, hown⟩ := heldIn_eq_cons s.env s.stack.slots
    rw [heq] at hapart henvs
    exact (List.pairwise_cons.mp hapart).1 envs henvs s.env hown e he owner
      (List.mem_of_find?_eq_some howner) hmem
  · unfold Exec.lookupScript?
    rw [if_pos rfl, hthis]
    show _ = some ((f.receiver?.map Value.object).getD .undefined)
    cases f.receiver? <;> rfl

/-- a program that is done is in its main code, outside of all scopes -/
theorem Machine.Traced.environs {program : Program} {table : LabelTable} {T : Location → Shape}
    {m : Machine} (h : m.Traced program table) (hok : m.Ok program T) (hhome : m.Home)
    (hmode : m.mode = .done) :
    m.state.Environs [.main] [] := by
  obtain ⟨-, hempty⟩ := hok.done hmode
  have hsane := (h.done hmode).sane (h.linked.labels ▸ h.linked.program ▸ hok.shaped)
    (h.linked.program ▸ hok.tabled) h.linked
  have hstacked : ∀ v, .value v ∈ m.state.stack.slots → v.Real m.linked.global m.state.heap := by
    rw [hempty]
    exact nofun
  have hlives : Lives m.linked T [] .main [] m.state.location 0 [] m.state :=
    ⟨rfl, hhome hmode, hempty ▸ .main, hempty ▸ trivial, nofun, hsane, hstacked, List.forall_mem_nil _⟩
  exact hlives.environs h.linked.global

/-- **Environments and `this` are those of the frame.**  Take any program that compiles, a machine for it
and any session of a host: whatever the host registers, runs, steps through and calls, every state in
which the program pauses or a run goes on has a history.  In every state that has one, what a frame runs
in, and what its loops, handlers and calls go back to, stands in block scopes inside of the scope of its
own call, that one in the object that the function was called on, if there is one, and then in the global
environment; the main code has block scopes inside of the global environment.  Frames share no scopes, so
no binding of a caller is seen by a function that it calls; and `this` is the object that the running
function was called on, or else `undefined`.  When the program is done it is in its main code. -/
theorem session_environments (text : String) (program : Program) (h : compileSource text = .ok program)
    (limits : Limits) (m₀ : Machine) (hload : Machine.load program limits = .ok m₀) :
    (∀ ops m, m₀.after ops = some m →
      (m.mode = .paused → Arises program m₀.linked.labels m.state)
      ∧ (m.mode = .done → m.state.Environs [.main] [])
      ∧ ∀ drive first n run, m.Enters drive first → first.ahead m.linked m.limits drive n = some run →
        Arises program m₀.linked.labels run.state)
    ∧ ∀ s frames blocks, History program m₀.linked.labels s frames blocks → s.Environs frames blocks := by
  obtain ⟨tokens, body, -, hprogram⟩ := compileSource_ok h
  obtain ⟨code, b, hcode, rfl⟩ := compileProgram_ok hprogram
  obtain ⟨table, T, hshape, -⟩ := wellShaped_of_compiled hcode rfl rfl _
  have htab := tabled_of_compiled hcode ⟨tokens.toArray, text⟩
  obtain ⟨table', htable, rfl⟩ := Machine.load_ok hload
  obtain rfl : table = table' := Except.ok.inj (hshape.labels.symm.trans htable)
  refine ⟨fun ops m hm => ?_, fun s frames blocks hs => ?_⟩
  · have hloaded := Machine.Ok.loaded hshape htab limits
    have htraced := (Machine.Traced.loaded limits).after hloaded hm
    have hok := hloaded.after hm
    refine ⟨htraced.paused, htraced.environs hok (hloaded.home_after nofun hm),
      fun drive first n run hfirst hrun => ?_⟩
    exact Arises.ahead (htraced.enters hok hfirst) htraced.linked hrun
  · obtain ⟨hosted, hsettled⟩ := hs.settled hshape htab
    obtain ⟨-, f, fs, rfl, hlives⟩ := hsettled ⟨_, table, ⟨0⟩, []⟩ ⟨⟨rfl, rfl⟩, rfl⟩
    exact hlives.environs rfl

/-- a method that is called on an object, with a loop -/
def loopInMethod : String :=
  "class C \x7b m() \x7b while (true) \x7b break; \x7d return this; \x7d \x7d new C().m();"

/-- the environments around the state after so many instructions, and what `this` means there -/
def seenAfter (text : String) (n : Nat) : Option (List EnvId × Option Value) :=
  match compileSource text with
  | .error _ => none
  | .ok program =>
    match Machine.load program {} with
    | .error _ => none
    | .ok m => (Run.ahead m.linked m.limits .run n ⟨m.state, 0, m.moved⟩).map fun run =>
      (run.state.heap.chain run.state.env, Exec.lookupScript? m.linked run.state "this")

/-- in the body of the loop the method runs in a block scope inside of its own scope, which is inside of
the object -/
theorem session_environments_method :
    ∃ (program : Program) (m₀ : Machine) (run : Run), compileSource loopInMethod = .ok program
      ∧ Machine.load program {} = .ok m₀
      ∧ Run.ahead m₀.linked m₀.limits .run 16 ⟨m₀.state, 0, m₀.moved⟩ = some run
      ∧ run.state.heap.chain run.state.env = [⟨4⟩, ⟨3⟩, ⟨1⟩, ⟨0⟩]
      ∧ ∃ frames blocks, History program m₀.linked.labels run.state frames blocks
        ∧ run.state.Environs frames blocks ∧ frames.head?.bind Frame.receiver? = some ⟨1⟩ := by
  have hseen : seenAfter loopInMethod 16 = some ([⟨4⟩, ⟨3⟩, ⟨1⟩, ⟨0⟩], some (.object ⟨1⟩)) := by cbv
  unfold seenAfter at hseen
  cases hok : compileSource loopInMethod with
  | error e =>
    rw [hok] at hseen
    cases hseen
  | ok program =>
    rw [hok] at hseen
    dsimp only at hseen
    cases hload : Machine.load program {} with
    | error e =>
      rw [hload] at hseen
      cases hseen
    | ok m₀ =>
      rw [hload] at hseen
      obtain ⟨run, hrun, heq⟩ := Option.map_eq_some_iff.mp hseen
      obtain ⟨hchain, hthis⟩ := Prod.mk.inj heq
      obtain ⟨harises, henvirons⟩ := session_environments _ program hok {} m₀ hload
      have hmode : m₀.mode = .paused := by
        obtain ⟨_, -, rfl⟩ := Machine.load_ok hload
        rfl
      obtain ⟨frames, blocks, hhistory⟩ := (harises [] m₀ rfl).2.2 .run _ 16 run (.run hmode) hrun
      have hseen := henvirons _ _ _ hhistory
      refine ⟨program, m₀, run, rfl, hload, hrun, hchain, frames, blocks, hhistory, hseen, ?_⟩
      have hobject := Option.some.inj ((hseen.this m₀.linked).symm.trans hthis)
      cases hreceiver : frames.head?.bind Frame.receiver? with
      | none =>
        rw [hreceiver] at hobject
        cases hobject
      | some object =>
        rw [hreceiver] at hobject
        cases hobject
        rfl

end ScriptMachine
