import ScriptMachine.Proofs.Machine.HostCalls
import ScriptMachine.Proofs.Machine.Moves

/-!
# What lasts through a session

A property of the states of runs that one instruction keeps is kept by whole runs, and by sessions,
whatever the host does.  The states of runs are told apart by who started the function that runs: the
main code, or the host.

* `Invariant`           a property that instructions keep, with what is known of idle machines and
                        of failures;
* `Lasting`             the same if there always is an instruction;
* `Invariant.runFor`, `Invariant.ahead`   runs keep it;
* `Machine.Held`        a machine of which it is true;
* `Invariant.apply`, `Invariant.after`    operations and sessions keep it.
-/

namespace ScriptMachine

/-- the failure is for a limit or for a call that the host cannot make -/
def RuntimeError.isOutside : RuntimeError → Bool
  | .tooManyCycles _ | .stackOverflow _ | .notDone _ | .unknownFunction _ => true
  | .defect (.noFunction _) _ | .defect .hostCallEnded _ => true
  | _ => false

theorem RuntimeError.isOutside_of_isLimit {e : RuntimeError} (h : e.isLimit = true) :
    e.isOutside = true := by
  cases e with
  | tooManyCycles _ | stackOverflow _ => rfl
  | _ => cases h

/-- a program that is ready to run, with whatever functions of the host -/
structure Linked.Of (program : Program) (table : LabelTable) (linked : Linked) : Prop where
  program : linked.program = program
  labels : linked.labels = table

/-- the state before the first instruction of a program -/
def State.start : State := ⟨⟨0, 0⟩, ⟨0⟩, Stack.empty, (Heap.empty.newGlobal).2, []⟩

section
variable (J : Bool → State → Prop) (D : List Slot → Prop) (E : RuntimeError → Prop)

/-- An instruction goes on in a state of `J`, leaves entries of `D` when the program is done, or fails
as `E` says.  Only functions that the host called return to the host. -/
def Kept (hosted : Bool) : EStateM.Result RuntimeError State Signal → Prop
  | .ok .proceed s | .ok .pause s => J hosted s
  | .ok .halt s => hosted = false → D s.stack.slots
  | .ok .hostReturn _ => hosted = true
  | .error e _ => E e

/-- the same for whole runs -/
def StopsIn (hosted : Bool) : Stop → Prop
  | .paused s => hosted = false ∧ J false s
  | .halted s => hosted = false → D s.stack.slots
  | .returned _ => hosted = true
  | .failed e _ => E e

/-- A property of states that every instruction of a program keeps. -/
structure Invariant (program : Program) (table : LabelTable) : Prop where
  start : J false .start
  lost : ∀ {hosted s}, J hosted s →
    program.instruction? s.location.sectionIndex s.location.pc = none → E (Exec.defectAt s .outOfCode)
  step : ∀ {linked : Linked} {hosted s ins}, linked.Of program table → J hosted s →
    program.instruction? s.location.sectionIndex s.location.pc = some ins →
    Kept J D E hosted (execute linked ins.op s)
  enter : ∀ {linked : Linked} {s s' index args}, linked.Of program table → D s.stack.slots →
    (Exec.enterFunction index args none true).run linked s = .ok () s' → J true s'
  empty : D []
  outside : ∀ {e}, e.isOutside = true → E e

/-- A property that every instruction keeps, and where it is true there is an instruction. -/
structure Lasting (program : Program) (table : LabelTable) : Prop extends
    Invariant J D E program table where
  here : ∀ {hosted s}, J hosted s →
    (program.instruction? s.location.sectionIndex s.location.pc).isSome

/-- a machine of which an invariant is true -/
structure Machine.Held (program : Program) (table : LabelTable) (m : Machine) : Prop where
  linked : m.linked.Of program table
  paused : m.mode = .paused → J false m.state
  done : m.mode = .done → D m.state.stack.slots

end

/-- where there always is an instruction no run is lost -/
theorem Lasting.of_here {J : Bool → State → Prop} {D : List Slot → Prop} {E : RuntimeError → Prop}
    {program : Program} {table : LabelTable} (start : J false .start)
    (here : ∀ {hosted s}, J hosted s →
      (program.instruction? s.location.sectionIndex s.location.pc).isSome)
    (step : ∀ {linked : Linked} {hosted s ins}, linked.Of program table → J hosted s →
      program.instruction? s.location.sectionIndex s.location.pc = some ins →
      Kept J D E hosted (execute linked ins.op s))
    (enter : ∀ {linked : Linked} {s s' index args}, linked.Of program table → D s.stack.slots →
      (Exec.enterFunction index args none true).run linked s = .ok () s' → J true s')
    (empty : D []) (outside : ∀ {e}, e.isOutside = true → E e) : Lasting J D E program table := by
  refine ⟨⟨start, fun hs hnone => ?_, step, enter, empty, outside⟩, here⟩
  have hsome := here hs
  rw [hnone] at hsome
  cases hsome

namespace Invariant

variable {J : Bool → State → Prop} {D : List Slot → Prop} {E : RuntimeError → Prop}
  {program : Program} {table : LabelTable} {linked : Linked} {limits : Limits} {drive : Drive}

/-! ## runs -/

theorem tick (h : Invariant J D E program table) (limits : Limits) (hlinked : linked.Of program table)
    {run : Run} (hrun : J drive.hosted run.state) :
    match tick linked limits drive run with
    | .going run' => J drive.hosted run'.state
    | .stopped stop => StopsIn J D E drive.hosted stop := by
  have hstep {ins : Instruction} (hins : run.IsAt linked ins) :
      Kept J D E drive.hosted (execute linked ins.op run.state) :=
    h.step hlinked hrun (by rw [← hlinked.program]; exact hins)
  have hticks := ticks linked limits drive run
  generalize ScriptMachine.tick linked limits drive run = progress at hticks
  cases hticks with
  | lost hnone => exact h.lost hrun (by rw [← hlinked.program]; exact hnone)
  | limited hlimit => exact h.outside (RuntimeError.isOutside_of_isLimit (Limits.exceeded_isLimit hlimit))
  | waits hdrive =>
    cases hdrive
    exact ⟨rfl, hrun⟩
  | fails hins hexec | halts hins hexec | returns hins hexec =>
    have hend := hstep hins
    rw [hexec] at hend
    exact hend
  | goes hins hexec hsignal =>
    have hend := hstep hins
    rw [hexec] at hend
    rcases hsignal with rfl | ⟨rfl, -⟩ <;> exact hend
  | pauses hins hexec hdrive =>
    have hend := hstep hins
    rw [hexec] at hend
    have hhosted : drive.hosted = false := decide_eq_false hdrive
    rw [hhosted] at hend
    exact ⟨hhosted, hend⟩

theorem runFor (h : Invariant J D E program table) (hlinked : linked.Of program table) {fuel : Nat}
    {run : Run} {stop : Stop} (hrun : J drive.hosted run.state)
    (hstop : runFor linked limits drive fuel run = some stop) : StopsIn J D E drive.hosted stop := by
  induction fuel generalizing run with
  | zero => cases hstop
  | succ fuel ih =>
    have hone := h.tick limits hlinked hrun
    rw [ScriptMachine.runFor] at hstop
    cases htick : ScriptMachine.tick linked limits drive run with
    | going run' =>
      rw [htick] at hstop hone
      exact ih hone hstop
    | stopped stop' =>
      rw [htick] at hstop hone
      cases hstop
      exact hone

theorem ahead (h : Invariant J D E program table) (hlinked : linked.Of program table) {n : Nat}
    {run last : Run} (hrun : J drive.hosted run.state)
    (hlast : run.ahead linked limits drive n = some last) : J drive.hosted last.state := by
  induction n generalizing run with
  | zero =>
    cases hlast
    exact hrun
  | succ n ih =>
    have hone := h.tick limits hlinked hrun
    rw [Run.ahead] at hlast
    cases htick : ScriptMachine.tick linked limits drive run with
    | going run' =>
      rw [htick] at hlast hone
      exact ih hone hlast
    | stopped stop =>
      rw [htick] at hlast
      cases hlast

/-! ## machines -/

variable {m : Machine}

theorem loaded (h : Invariant J D E program table) (htable : program.labelTable = .ok table)
    (hload : Machine.load program limits = .ok m) : m.Held J D program table := by
  obtain ⟨table', htable', rfl⟩ := Machine.load_ok hload
  obtain rfl : table = table' := Except.ok.inj (htable.symm.trans htable')
  exact ⟨⟨rfl, rfl⟩, fun _ => h.start, nofun⟩

/-- every run that an operation starts -/
theorem enters (h : Invariant J D E program table) (hm : m.Held J D program table) {run : Run}
    (hrun : m.Enters drive run) : J drive.hosted run.state := by
  cases hrun with
  | run hmode | step hmode => exact hm.paused hmode
  | @call _ args index s hmode _ hs =>
    have hdone : D (m.importArgs args).2.stack.slots := hm.done hmode
    exact h.enter hm.linked hdone hs

/-- An operation fails as is known, and leaves a machine of the same kind. -/
def Ends {α : Type} (J : Bool → State → Prop) (D : List Slot → Prop) (E : RuntimeError → Prop)
    (program : Program) (table : LabelTable) (outcome : Machine.Outcome α) : Prop :=
  (∀ e, outcome.1 = .error e → E e) ∧ outcome.2.Held J D program table

theorem Ends.error {α : Type} {e : RuntimeError} (he : E e) (hm : m.Held J D program table) :
    Ends J D E program table ((.error e, m) : Machine.Outcome α) := by
  refine ⟨fun e' he' => ?_, hm⟩
  cases he'
  exact he

theorem resume (h : Invariant J D E program table) (hm : m.Held J D program table) (drive : Drive)
    {fuel : Nat} {outcome : Machine.Outcome Mode} (hdrive : drive ≠ .call)
    (ho : m.resume drive fuel = some outcome) : Ends J D E program table outcome := by
  have hhosted : drive.hosted = false := decide_eq_false hdrive
  unfold Machine.resume at ho
  cases hmode : m.mode with
  | done =>
    rw [hmode] at ho
    cases ho
    exact ⟨nofun, hm⟩
  | paused =>
    rw [hmode] at ho
    dsimp only at ho
    have hstart := hm.paused hmode
    rw [← hhosted] at hstart
    cases hrun : ScriptMachine.runFor m.linked m.limits drive fuel ⟨m.state, 0, m.moved⟩ with
    | none =>
      rw [hrun] at ho
      cases ho
    | some stop =>
      have hstop := h.runFor hm.linked hstart hrun
      rw [hhosted] at hstop
      rw [hrun] at ho
      cases stop with
      | failed e s =>
        cases ho
        exact .error hstop ⟨hm.linked, nofun, fun _ => h.empty⟩
      | halted s =>
        cases ho
        exact ⟨nofun, hm.linked, nofun, fun _ => hstop rfl⟩
      | paused s =>
        cases ho
        exact ⟨nofun, hm.linked, fun _ => hstop.2, nofun⟩
      | returned s => cases hstop

theorem finishCall (h : Invariant J D E program table) (hm : m.Held J D program table)
    (hmode : m.mode = .done) {before : State} {index : Nat} {stop : Stop}
    (hbefore : before.stack = m.state.stack)
    (habove : StopsAbove ⟨before.location, before.env, index, true⟩ before.stack.slots stop)
    (hstop : StopsIn J D E true stop) : Ends J D E program table (m.finishCall before stop) := by
  obtain ⟨hmode', -, -, hstack⟩ := m.finishCall_back habove
  have hheld : (m.finishCall before stop).2.Held J D program table := by
    refine ⟨?_, fun hpaused => ?_, fun _ => ?_⟩
    · cases stop with
      | paused s => exact habove.elim
      | failed e s | halted s => exact hm.linked
      | returned s =>
        obtain ⟨loc, env, st, heap, events⟩ := s
        obtain ⟨v, rfl, rfl, rfl⟩ := habove
        exact hm.linked
    · rw [hmode', hmode] at hpaused
      cases hpaused
    · rw [hstack, hbefore]
      exact hm.done hmode
  refine ⟨fun e he => ?_, hheld⟩
  cases stop with
  | paused s => exact habove.elim
  | failed e s =>
    cases he
    exact hstop
  | halted s =>
    cases he
    exact h.outside rfl
  | returned s =>
    obtain ⟨loc, env, st, heap, events⟩ := s
    obtain ⟨v, rfl, rfl, rfl⟩ := habove
    cases he

theorem call (h : Invariant J D E program table) (hm : m.Held J D program table) {name : String}
    {args : List HostValue} {fuel : Nat} {outcome : Machine.Outcome HostValue}
    (ho : m.call name args fuel = some outcome) : Ends J D E program table outcome := by
  unfold Machine.call at ho
  cases hmode : m.mode with
  | paused =>
    rw [hmode] at ho
    cases ho
    exact .error (h.outside rfl) hm
  | done =>
    rw [hmode] at ho
    dsimp only at ho
    cases hindex : m.linked.program.functionIndex? name with
    | none =>
      rw [hindex] at ho
      cases ho
      exact .error (h.outside rfl) hm
    | some index =>
      rw [hindex] at ho
      dsimp only at ho
      have hdone : D (m.importArgs args).2.stack.slots := hm.done hmode
      rcases enterFunction_on m.linked index (m.importArgs args).1 (m.importArgs args).2.heap
        m.state.events with ⟨u, -, hu⟩ | herror
      · have hs := hu (m.importArgs args).2 true rfl rfl
        rw [hs] at ho
        obtain ⟨stop, hstop, rfl⟩ := Option.map_eq_some_iff.mp ho
        have hends : StopsIn J D E Drive.call.hosted stop :=
          h.runFor hm.linked (h.enter hm.linked hdone hs) hstop
        exact h.finishCall hm hmode rfl (runFor_above rfl rfl hstop) hends
      · rw [herror] at ho
        cases ho
        exact .error (h.outside rfl) ⟨hm.linked, nofun, fun _ => hm.done hmode⟩

/-- one operation -/
theorem apply (h : Invariant J D E program table) (hm : m.Held J D program table) {op : HostOp}
    {outcome : Machine.Outcome Reply} (ho : m.apply op = some outcome) :
    Ends J D E program table outcome := by
  have hmap {α : Type} {o : Machine.Outcome α} {f : α → Reply} (hend : Ends J D E program table o) :
      Ends J D E program table (o.1.map f, o.2) := by
    obtain ⟨r, m'⟩ := o
    cases r with
    | ok a => exact ⟨nofun, hend.2⟩
    | error e => exact .error (hend.1 e rfl) hend.2
  cases op with
  | register name native =>
    cases ho
    exact ⟨nofun, ⟨hm.linked.program, hm.linked.labels⟩, hm.paused, hm.done⟩
  | run fuel =>
    obtain ⟨o, hrun, rfl⟩ := Option.map_eq_some_iff.mp ho
    exact hmap (h.resume hm .run nofun hrun)
  | step fuel =>
    obtain ⟨o, hrun, rfl⟩ := Option.map_eq_some_iff.mp ho
    exact hmap (h.resume hm .step nofun hrun)
  | call name args fuel =>
    obtain ⟨o, hcall, rfl⟩ := Option.map_eq_some_iff.mp ho
    exact hmap (h.call hm hcall)
  | global name =>
    cases ho
    exact ⟨nofun, hm⟩

/-- a whole session -/
theorem after (h : Invariant J D E program table) (hm : m.Held J D program table) {ops : List HostOp}
    {m' : Machine} (hafter : m.after ops = some m') : m'.Held J D program table := by
  induction ops generalizing m with
  | nil =>
    cases hafter
    exact hm
  | cons op ops ih =>
    obtain ⟨outcome, ho, hrest⟩ := Option.bind_eq_some_iff.mp hafter
    exact ih (h.apply hm ho).2 hrest

end Invariant

end ScriptMachine
