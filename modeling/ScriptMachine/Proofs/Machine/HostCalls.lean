import ScriptMachine.Proofs.Machine.Locality
import ScriptMachine.Proofs.Machine.Statements

/-!
# Functions that the host calls

* `StopsAbove`                    how a call of the host stops, above what was on the stack;
* `tick_above`, `runFor_above`    a call of the host keeps what is below its call site;
* `enterFunction_on`              where a function starts;
* `call_atomic`                   a call leaves the machine where it was, however it ends.
-/

namespace ScriptMachine

section
variable {linked : Linked} {limits : Limits} {site : CallSite} {below : List Slot}

/-! ## what is below a call -/

theorem Unwound.foldr_through (callers : List Location) (w : Unwound) :
    callers.foldr through w = match w with
      | caught region rest => caught region rest
      | reachedHost site callers' rest => reachedHost site (callers ++ callers') rest
      | uncaught callers' => uncaught (callers ++ callers') := by
  induction callers with
  | nil => cases w <;> rfl
  | cons caller callers ih =>
    rw [List.foldr_cons, ih]
    cases w <;> rfl

/-- a value that nothing catches above the call site ends the call of the host -/
theorem throws_host (linked : Linked) (hsite : site.fromHost = true) (below : List Slot) (v : Value)
    (u : Upper) (hpass : u.Passed) :
    ∃ frames, (Course.throws v u hpass).on linked site below
      = .error (.uncaught (u.heap.text v) (linked.program.toHost u.heap v) frames)
        ⟨site.caller, site.env, .of below, u.heap, u.events⟩ := by
  obtain ⟨callers, h⟩ := hpass
  have hunwind : (u.on site below).stack.unwindThrow
      = .reachedHost site (callers ++ []) (.of below) := by
    show (Stack.of (u.slots ++ .callSite site :: below)).unwindThrow = _
    rw [h, Stack.unwindThrow_site, if_pos hsite, Unwound.foldr_through]
  have hthrow : ∃ frames, Exec.throwValue v linked (u.on site below)
      = .error (.uncaught (u.heap.text v) (linked.program.toHost u.heap v) frames)
        ⟨site.caller, site.env, .of below, u.heap, u.events⟩ := by
    rw [Exec.throwValue_eq, hunwind]
    exact ⟨_, rfl⟩
  obtain ⟨frames, hthrow⟩ := hthrow
  exact ⟨frames, Exec.bind_error hthrow _⟩

/-- how a call of the host stops: the entries below its call site are still there -/
def StopsAbove (site : CallSite) (below : List Slot) : Stop → Prop
  | .returned s => ∃ v, s.location = site.caller ∧ s.env = site.env ∧ s.stack = .of (.value v :: below)
  | .failed _ s | .halted s => below <:+ s.stack.slots
  | .paused _ => False

theorem suffix_on (u : Upper) : below <:+ (u.on site below).stack.slots :=
  (List.suffix_cons _ _).trans (List.suffix_append _ _)

/-- One instruction of a call of the host, of whatever program. -/
theorem tick_above (linked : Linked) (limits : Limits) (hsite : site.fromHost = true) {u : Upper} {run : Run}
    (hrun : run.state = u.on site below) :
    match tick linked limits .call run with
    | .going run' => ∃ u' : Upper, run'.state = u'.on site below
    | .stopped stop => StopsAbove site below stop := by
  have hsuffix : below <:+ run.state.stack.slots := by
    rw [hrun]
    exact suffix_on u
  unfold tick
  dsimp only
  cases linked.program.instruction? run.state.location.sectionIndex run.state.location.pc with
  | none => exact hsuffix
  | some ins =>
    dsimp only
    rw [if_neg (fun h => nomatch h.1)]
    cases limits.exceeded? (run.cycles + 1) run.state.stack.depth with
    | some e => exact hsuffix
    | none =>
      obtain ⟨c, hc⟩ := exists_course linked ins.op u site below
      dsimp only
      rw [hrun, hc]
      cases c with
      | stays signal u' hsignal =>
        cases signal with
        | proceed => exact ⟨u', rfl⟩
        | pause => exact ⟨u', rfl⟩
        | halt => exact suffix_on u'
        | hostReturn => exact absurd rfl hsignal
      | fails cause u' => exact suffix_on u'
      | sinks cause u' => exact List.suffix_rfl
      | throws v u' hpass =>
        obtain ⟨frames, hthrow⟩ := throws_host linked hsite below v u' hpass
        rw [hthrow]
        exact List.suffix_rfl
      | returns v u' =>
        dsimp only [Course.on]
        rw [if_pos hsite]
        exact ⟨v, rfl, rfl, rfl⟩

theorem runFor_above (hsite : site.fromHost = true) {fuel : Nat} {u : Upper} {run : Run}
    (hrun : run.state = u.on site below) {stop : Stop}
    (hstop : runFor linked limits .call fuel run = some stop) : StopsAbove site below stop := by
  induction fuel generalizing u run with
  | zero => cases hstop
  | succ fuel ih =>
    have hone := tick_above linked limits hsite hrun
    rw [runFor] at hstop
    cases htick : tick linked limits .call run with
    | going run' =>
      rw [htick] at hstop hone
      obtain ⟨u', hrun'⟩ := hone
      exact ih hrun' hstop
    | stopped stop' =>
      rw [htick] at hstop hone
      cases hstop
      exact hone

theorem ahead_above (hsite : site.fromHost = true) {n : Nat} {u : Upper} {run last : Run}
    (hrun : run.state = u.on site below) (hlast : run.ahead linked limits .call n = some last) :
    ∃ u' : Upper, last.state = u'.on site below := by
  induction n generalizing u run with
  | zero =>
    cases hlast
    exact ⟨u, hrun⟩
  | succ n ih =>
    have hone := tick_above linked limits hsite hrun
    rw [Run.ahead] at hlast
    cases htick : tick linked limits .call run with
    | going run' =>
      rw [htick] at hlast hone
      obtain ⟨u', hrun'⟩ := hone
      exact ih hrun' hlast
    | stopped stop =>
      rw [htick] at hlast
      cases hlast

end

/-! ## calls leave the stack as it was -/

theorem Stack.truncate_of_suffix {s t : Stack} (h : t.slots <:+ s.slots) : s.truncate t.depth = t := by
  refine ext_slots ?_
  obtain ⟨upper, hupper⟩ := h
  rw [slots_truncate, ← s.depth_eq, ← t.depth_eq, ← hupper, List.length_append, Nat.add_sub_cancel,
    List.drop_left]

/-- A function starts on its call site, with what does not depend on the caller, or it is not in the
table. -/
theorem enterFunction_on (linked : Linked) (index : Nat) (args : List Value) (heap : Heap)
    (events : List Event) :
    (∃ u : Upper, u.slots = [] ∧ ∀ (s : State) fromHost, s.heap = heap → s.events = events →
      (Exec.enterFunction index args none fromHost).run linked s
        = .ok () (u.on ⟨s.location, s.env, index, fromHost⟩ s.stack.slots))
    ∨ ∀ (s : State) fromHost, (Exec.enterFunction index args none fromHost).run linked s
        = .error (Exec.defectAt s (.noFunction index)) s := by
  cases hentry : linked.program.functions[index]? with
  | some entry =>
    let scope := heap.newScope linked.global
    refine .inl ⟨⟨⟨entry.body, 0⟩, scope.1, [], Exec.bindParameters scope.1 entry.params args scope.2,
      events, nofun⟩, rfl, ?_⟩
    rintro ⟨location, env, stack, _, _⟩ fromHost rfl rfl
    refine (Exec.enterFunction_eq hentry args none fromHost _).trans ?_
    rw [stack.eq_of]
    rfl
  | none =>
    exact .inr fun s fromHost => Exec.enterFunction_none hentry args none fromHost s

/-- Back at the call: the same place, environment and stack. -/
def State.Back (before after : State) : Prop :=
  after.location = before.location ∧ after.env = before.env ∧ after.stack = before.stack

theorem Machine.restore_back {before s : State} (h : before.stack.slots <:+ s.stack.slots) :
    before.Back (restore before s) := ⟨rfl, rfl, Stack.truncate_of_suffix h⟩

/-- the end of a call -/
theorem Machine.finishCall_back (m : Machine) {before : State} {stop : Stop} {index : Nat}
    (h : StopsAbove ⟨before.location, before.env, index, true⟩ before.stack.slots stop) :
    (m.finishCall before stop).2.mode = m.mode ∧ before.Back (m.finishCall before stop).2.state := by
  cases stop with
  | paused s => exact h.elim
  | halted s => exact ⟨rfl, restore_back h⟩
  | failed e s => exact ⟨rfl, restore_back h⟩
  | returned s =>
    obtain ⟨loc, env, st, heap, events⟩ := s
    obtain ⟨v, rfl, rfl, rfl⟩ := h
    exact ⟨rfl, rfl, rfl, Stack.ext_slots rfl⟩

/-- **Calls of the host are atomic for the stack.**  Take a machine that is done, whatever its program
and its state, and call any function with any arguments.  However the call ends, the machine is done
and where it was before, with the environment and the stack from before.  And as long as the call
goes on, the stack from before is there, untouched, below a call site of the host. -/
theorem call_atomic (m : Machine) (hmode : m.mode = .done) (name : String) (args : List HostValue) :
    (∀ fuel outcome, m.call name args fuel = some outcome →
      outcome.2.mode = .done ∧ m.state.Back outcome.2.state)
    ∧ ∀ first n run, m.Enters .call first → first.ahead m.linked m.limits .call n = some run →
      ∃ site : CallSite, site.fromHost = true
        ∧ .callSite site :: m.state.stack.slots <:+ run.state.stack.slots := by
  refine ⟨fun fuel outcome h => ?_, fun first n run hfirst hrun => ?_⟩
  · unfold Machine.call at h
    rw [hmode] at h
    dsimp only at h
    cases hindex : m.linked.program.functionIndex? name with
    | none =>
      rw [hindex] at h
      cases h
      exact ⟨hmode, rfl, rfl, rfl⟩
    | some index =>
      rw [hindex] at h
      dsimp only at h
      rcases enterFunction_on m.linked index (m.importArgs args).1 (m.importArgs args).2.heap
        m.state.events with ⟨u, -, hu⟩ | herror
      · rw [hu _ true rfl rfl] at h
        obtain ⟨stop, hstop, rfl⟩ := Option.map_eq_some_iff.mp h
        obtain ⟨hmode', hback⟩ := m.finishCall_back (runFor_above rfl rfl hstop)
        exact ⟨hmode'.trans hmode, hback⟩
      · rw [herror] at h
        cases h
        exact ⟨rfl, rfl, rfl, rfl⟩
  · cases hfirst with
    | @call _ args index _ _ _ hs =>
      rcases enterFunction_on m.linked index (m.importArgs args).1 (m.importArgs args).2.heap
        m.state.events with ⟨u, -, hu⟩ | herror
      · rw [hu _ true rfl rfl] at hs
        cases hs
        obtain ⟨u', hu'⟩ := ahead_above rfl rfl hrun
        refine ⟨⟨m.state.location, m.state.env, index, true⟩, rfl, ?_⟩
        rw [hu']
        exact List.suffix_append _ _
      · rw [herror] at hs
        cases hs

/-- a function that ends a loop which it never started; the main code leaves a value on the stack -/
def sinkingCallee : Program :=
  let code (ops : List Op) : Array Instruction := (ops.map fun op => ⟨op, none, false⟩).toArray
  { constants := #[.null]
    sections := #[⟨"main", code [.const 0, .halt]⟩, ⟨"f", code [.loopEnd, .const 0, .ret]⟩]
    functions := #[⟨"f", 1, []⟩]
    classes := []
    source := ⟨#[], ""⟩
    functionNames := ["f"] }

/-- the function takes its own call site from the stack, and only that -/
theorem call_atomic_sinking :
    sinkingCallee.verify = .ok ()
      ∧ ∃ m : Machine, m.linked.program = sinkingCallee ∧ m.mode = .done
        ∧ m.state.stack.slots = [.value .null]
        ∧ ∃ outcome, m.call "f" [] 1 = some outcome
          ∧ outcome.1 = .error (.defect (.loopEndFound "call site") ⟨1, 0⟩)
          ∧ m.state.Back outcome.2.state := by
  refine ⟨by cbv, ⟨⟨sinkingCallee, {}, ⟨0⟩, []⟩, {},
    ⟨⟨0, 2⟩, ⟨0⟩, .of [.value .null], Heap.empty.newGlobal.2, []⟩, .done, true⟩, rfl, rfl, rfl, ?_⟩
  exact ⟨_, rfl, rfl, ((call_atomic _ rfl "f" []).1 1 _ rfl).2⟩

end ScriptMachine
