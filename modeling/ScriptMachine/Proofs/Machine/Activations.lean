import ScriptMachine.Proofs.Machine.HostCalls

/-!
# Calls of the host and calls of scripts

A function does the same whoever calls it.  What it does above its call site is the same instruction
by instruction, and the flag of the host counts only at the very end.

* `Answer`                a value that is returned or thrown;
* `Activation`            a call that a script makes, up to its answer;
* `stop_of_activation`    the host gets the answer that a script gets;
* `activation_of_stop`    and no other;
* `call_agrees`           calling from the host is calling from a script.
-/

namespace ScriptMachine

/-! ## calls of scripts -/

/-- how a call comes back to its caller -/
inductive Answer where
  | returned (v : Value)
  | thrown (v : Value)

/-- A value is thrown to a caller in the state `base`: it goes on at the nearest handler there, or
nothing catches it. -/
def ThrownTo (linked : Linked) (base : State) (v : Value) (heap : Heap) (events : List Event)
    (r : EStateM.Result RuntimeError State Signal) : Prop :=
  match base.stack.unwindThrow with
  | .caught region rest =>
    r = .ok .proceed ⟨region.handler, region.env, rest.push (.value v), heap, events⟩
  | _ => ∃ frames s, r = .error (.uncaught (heap.text v) (linked.program.toHost heap v) frames) s
    ∧ s.heap = heap ∧ s.events = events

/-- A call that a script makes in the state `base`.  It goes on, also over a `debugger` statement, as
long as the stack from its start is there, with its call site on top.  In the end it returns a value
to the caller, or throws one. -/
inductive Activation (linked : Linked) (base : State) (start : List Slot) :
    State → Answer → Heap → List Event → Prop
  | step (hins : linked.program.instruction? s.location.sectionIndex s.location.pc = some ins)
      (hexec : execute linked ins.op s = .ok signal s') (hsignal : signal = .proceed ∨ signal = .pause)
      (hopen : start <:+ s'.stack.slots) (h : Activation linked base start s' answer heap events) :
    Activation linked base start s answer heap events
  | returned (hins : linked.program.instruction? s.location.sectionIndex s.location.pc = some ins)
      (hexec : execute linked ins.op s = .ok .proceed
        { base with stack := base.stack.push (.value v), heap := heap, events := events }) :
    Activation linked base start s (.returned v) heap events
  | thrown (hins : linked.program.instruction? s.location.sectionIndex s.location.pc = some ins)
      (hexec : ThrownTo linked base v heap events (execute linked ins.op s)) :
    Activation linked base start s (.thrown v) heap events

section
variable {linked : Linked} {site : CallSite} {base : State}

/-- what is left below a handler -/
theorem Stack.length_caught (slots : List Slot) {region : TryRegion} {rest : Stack}
    (h : (of slots).unwindThrow = .caught region rest) : rest.slots.length < slots.length := by
  induction slots with
  | nil => cases h
  | cons slot slots ih =>
    have hlater (h : (of slots).unwindThrow = .caught region rest) :
        rest.slots.length < (slot :: slots).length := Nat.lt_succ_of_lt (ih h)
    cases slot with
    | tryRegion region' =>
      cases h
      exact Nat.lt_succ_self _
    | callSite site =>
      rw [unwindThrow_site] at h
      split at h
      · cases h
      · cases hrest : (of slots).unwindThrow with
        | caught region' rest' =>
          rw [hrest] at h
          cases h
          exact hlater hrest
        | reachedHost _ _ _ | uncaught _ =>
          rw [hrest] at h
          cases h
    | value _ | loopMarker _ | nativeResult => exact hlater h

namespace ThrownTo

variable {v : Value} {heap : Heap} {events : List Event}
  {r : EStateM.Result RuntimeError State Signal}

/-- what catches a value is below -/
theorem short (h : ThrownTo linked base v heap events r) {signal : Signal} {s : State}
    (hr : r = .ok signal s) : s.stack.slots.length ≤ base.stack.slots.length := by
  unfold ThrownTo at h
  split at h
  · next region rest hcaught =>
    rw [base.stack.eq_of] at hcaught
    cases h.symm.trans hr
    exact Stack.length_caught _ hcaught
  · obtain ⟨frames, s', h, -⟩ := h
    cases h.symm.trans hr

/-- a failure is that of the value -/
theorem failure (h : ThrownTo linked base v heap events r) {e : RuntimeError} {s : State}
    (hr : r = .error e s) :
    ∃ frames, e = .uncaught (heap.text v) (linked.program.toHost heap v) frames := by
  unfold ThrownTo at h
  split at h
  · cases h.symm.trans hr
  · obtain ⟨frames, s', h, -⟩ := h
    cases h.symm.trans hr
    exact ⟨frames, rfl⟩

/-- as far as the host can see, only one value is thrown -/
theorem agree (h : ThrownTo linked base v heap events r) {v' : Value} {heap' : Heap}
    {events' : List Event} (h' : ThrownTo linked base v' heap' events' r) :
    heap = heap' ∧ events = events'
      ∧ linked.program.toHost heap v = linked.program.toHost heap' v' := by
  unfold ThrownTo at h h'
  cases hunwind : base.stack.unwindThrow with
  | caught region rest =>
    rw [hunwind] at h h'
    cases h.symm.trans h'
    exact ⟨rfl, rfl, rfl⟩
  | reachedHost _ _ _ | uncaught _ =>
    rw [hunwind] at h h'
    obtain ⟨frames, s, h, rfl, rfl⟩ := h
    obtain ⟨frames', s', h', rfl, rfl⟩ := h'
    have heq := h.symm.trans h'
    injection heq with he hs
    injection he with _ hvalue
    subst hs
    exact ⟨rfl, rfl, hvalue⟩

end ThrownTo

/-- a value that nothing catches above the call site of a script is thrown to the caller -/
theorem throws_script (base : State) (linked : Linked) (hsite : site.fromHost = false) (v : Value) (u : Upper)
    (hpass : u.Passed) :
    ThrownTo linked base v u.heap u.events
      ((Course.throws v u hpass).on linked site base.stack.slots) := by
  obtain ⟨callers, h⟩ := hpass
  have hunwind : (u.on site base.stack.slots).stack.unwindThrow
      = callers.foldr Unwound.through (base.stack.unwindThrow.through site.caller) := by
    show (Stack.of (u.slots ++ .callSite site :: base.stack.slots)).unwindThrow = _
    rw [h, Stack.unwindThrow_site, if_neg (by rw [hsite]; exact Bool.false_ne_true),
      ← base.stack.eq_of]
  have hthrow : (Course.throws v u ⟨callers, h⟩).on linked site base.stack.slots
      = match Exec.throwValue v linked (u.on site base.stack.slots) with
        | .ok _ s => .ok .proceed s
        | .error e s => .error e s := by
    cases hr : Exec.throwValue v linked (u.on site base.stack.slots) with
    | ok _ s => exact Exec.bind_ok hr _
    | error e s => exact Exec.bind_error hr _
  rw [hthrow, Exec.throwValue_eq, hunwind, Unwound.foldr_through]
  unfold ThrownTo
  cases base.stack.unwindThrow with
  | caught region rest => rfl
  | reachedHost site' callers' rest => exact ⟨_, _, rfl, rfl, rfl⟩
  | uncaught callers' => exact ⟨_, _, rfl, rfl, rfl⟩

namespace Course

variable {c : Course}

/-- the call site is not gone as long as it is there -/
theorem not_suffix_value {v : Value} {below : List Slot}
    (h : .callSite site :: below <:+ .value v :: below) : False :=
  nomatch h.eq_of_length rfl

/-- the call site is still there -/
theorem of_open (hsite : site.fromHost = false) {signal : Signal} {s : State}
    (hc : c.on linked site base.stack.slots = .ok signal s)
    (hopen : .callSite site :: base.stack.slots <:+ s.stack.slots) :
    ∃ u h, c = .stays signal u h ∧ s = u.on site base.stack.slots := by
  cases c with
  | stays signal' u h =>
    cases hc
    exact ⟨u, h, rfl, rfl⟩
  | fails | sinks => cases hc
  | throws v u hpass =>
    have hshort := (throws_script base linked hsite v u hpass).short hc
    exact absurd (Nat.le_trans hopen.length_le hshort) (Nat.not_succ_le_self _)
  | returns v u =>
    cases hc
    exact (not_suffix_value hopen).elim

/-- the value is returned -/
theorem of_returned (hsite : site.fromHost = false) {s : State} {v : Value}
    (hc : c.on linked site base.stack.slots = .ok .proceed s)
    (hs : s.stack.slots = .value v :: base.stack.slots) :
    ∃ u, c = .returns v u ∧ u.heap = s.heap ∧ u.events = s.events := by
  cases c with
  | stays signal u h =>
    injection hc with _ hs'
    subst hs'
    have hopen : .callSite site :: base.stack.slots <:+ (u.on site base.stack.slots).stack.slots :=
      List.suffix_append _ _
    rw [hs] at hopen
    exact (not_suffix_value hopen).elim
  | fails | sinks => cases hc
  | throws w u hpass =>
    have hshort := (throws_script base linked hsite w u hpass).short hc
    rw [hs] at hshort
    exact absurd hshort (Nat.not_succ_le_self _)
  | returns w u =>
    injection hc with _ hs'
    subst hs'
    cases hs
    exact ⟨u, rfl, rfl, rfl⟩

/-- the value is thrown to the caller, or one that looks the same to the host -/
theorem of_thrown (hsite : site.fromHost = false) {v : Value} {heap : Heap} {events : List Event}
    (hc : ThrownTo linked base v heap events (c.on linked site base.stack.slots)) :
    ∃ w u h, c = .throws w u h ∧ u.heap = heap ∧ u.events = events
      ∧ linked.program.toHost u.heap w = linked.program.toHost heap v := by
  cases c with
  | stays signal u h =>
    have hopen : .callSite site :: base.stack.slots <:+ (u.on site base.stack.slots).stack.slots :=
      List.suffix_append _ _
    exact absurd (Nat.le_trans hopen.length_le (hc.short rfl)) (Nat.not_succ_le_self _)
  | fails cause u | sinks cause u =>
    obtain ⟨frames, h⟩ := hc.failure rfl
    cases h
  | throws w u hpass =>
    obtain ⟨hheap, hevents, hvalue⟩ := (throws_script base linked hsite w u hpass).agree hc
    exact ⟨w, u, hpass, rfl, hheap, hevents, hvalue⟩
  | returns w u => exact absurd (hc.short rfl) (Nat.not_succ_le_self _)

end Course

/-! ## the same answers -/

/-- entries that are not call sites are above the first one -/
theorem length_le_of_noSite {own rest upper tail : List Slot}
    (h : own ++ rest = upper ++ .callSite site :: tail)
    (hsites : ∀ slot ∈ own, Exec.callSite? slot = none) : own.length ≤ upper.length := by
  rcases List.append_eq_append_iff.mp h with ⟨more, rfl, -⟩ | ⟨more, rfl, hmore⟩
  · exact List.length_append ▸ Nat.le_add_right _ _
  · cases more with
    | nil => exact Nat.le_of_eq (congrArg _ (List.append_nil _))
    | cons slot more =>
      cases hmore
      cases hsites (.callSite site) (List.mem_append_right _ List.mem_cons_self)

/-- the function of a sound run picks its values from its own frame -/
theorem Sound.pick_lt {T : Location → Shape} {hosted : Bool} {below : List Slot} {u : Upper}
    (hshape : WellShaped linked.program linked.labels T)
    (hs : Sound linked T hosted (u.on site below)) {ins : Instruction}
    (hins : linked.program.instruction? u.location.sectionIndex u.location.pc = some ins) {n : Nat}
    (hop : ins.op = .pick n) : n < u.slots.length := by
  obtain ⟨-, -, -, base, own, rest, hstack, -, hholds, -⟩ := hs
  have htyped := hshape.typed _ _ ins hins
  rw [hop] at htyped
  have hholds : Holds _ _ _ base _ (T ⟨u.location.sectionIndex, u.location.pc⟩).entries own := hholds
  have hlength := length_le_of_noSite (congrArg Stack.slots hstack).symm hholds.noSite
  generalize T ⟨u.location.sectionIndex, u.location.pc⟩ = σ at htyped hholds
  generalize T ⟨u.location.sectionIndex, u.location.pc + 1⟩ = τ at htyped
  cases htyped with
  | pick =>
    obtain ⟨vs, below', rfl, rfl, -, hbelow⟩ := hholds.take_values
    cases hbelow with
    | value =>
      rw [List.length_append, List.length_map, List.length_cons] at hlength
      omega

/-- a stop with an answer of the script -/
def Stop.isAnswer : Stop → Bool
  | .returned _ => true
  | .failed e _ => e.isScriptError
  | _ => false

/-- the stop of a call of the host that has this answer -/
def Stop.Gives (linked : Linked) (site : CallSite) (below : List Slot) (heap : Heap)
    (events : List Event) : Stop → Answer → Prop
  | .returned s, .returned v => s = ⟨site.caller, site.env, .of (.value v :: below), heap, events⟩
  | .failed e s, .thrown v =>
    (∃ text frames, e = .uncaught text (linked.program.toHost heap v) frames)
      ∧ s = ⟨site.caller, site.env, .of below, heap, events⟩
  | _, _ => False

/-- no limit is in the way -/
theorem Limits.not_exceeded {max cycles depth : Nat} (h : depth ≤ max) :
    Limits.exceeded? ⟨none, max⟩ cycles depth = none := if_neg (Nat.not_lt.mpr h)

theorem Limits.not_scriptError {limits : Limits} {cycles depth : Nat} {e : RuntimeError}
    (h : limits.exceeded? cycles depth = some e) : e.isScriptError = false := by
  have hlimit := Limits.exceeded_isLimit h
  cases e with
  | tooManyCycles => rfl
  | stackOverflow => rfl
  | _ => cases hlimit

section
variable {T : Location → Shape} {host script : CallSite} {below : List Slot} {u : Upper}
  {heap : Heap} {events : List Event} {answer : Answer}

/-- the last instruction of a call needs no more than the depth of the stack -/
theorem exists_last {ins : Instruction} {stop : Stop} {cycles : Nat} (moved : Bool)
    (hins : linked.program.instruction? u.location.sectionIndex u.location.pc = some ins)
    (hstop : .after .call (cycles + 1) (execute linked ins.op (u.on host below)) = Progress.stopped stop)
    (hgives : stop.Gives linked host below heap events answer) :
    ∃ depth fuel, ∀ depth', depth ≤ depth' → ∃ stop,
      runFor linked ⟨none, depth'⟩ .call fuel ⟨u.on host below, cycles, moved⟩ = some stop
      ∧ stop.Gives linked host below heap events answer := by
  refine ⟨(u.on host below).stack.depth, 1, fun depth' hdepth => ⟨stop, ?_, hgives⟩⟩
  rw [runFor, tick_after Drive.call_ne_step hins (Limits.not_exceeded hdepth), hstop]

/-- The host gets the answer that a script gets. -/
theorem stop_of_activation (hshape : WellShaped linked.program linked.labels T)
    (htab : Tabled linked.program) (hhost : host.fromHost = true) (hscript : script.fromHost = false)
    {s : State} (h : Activation linked base (.callSite script :: base.stack.slots) s answer heap events)
    (hs : s = u.on script base.stack.slots) (hsound : Sound linked T true (u.on host below))
    (cycles : Nat) (moved : Bool) :
    ∃ depth fuel, ∀ depth', depth ≤ depth' → ∃ stop,
      runFor linked ⟨none, depth'⟩ .call fuel ⟨u.on host below, cycles, moved⟩ = some stop
      ∧ stop.Gives linked host below heap events answer := by
  induction h generalizing u cycles moved with
  | step hins hexec hsignal hopen h ih =>
    subst hs
    obtain ⟨c, hc⟩ := course_execute linked u fun n hop => hsound.pick_lt hshape hins hop
    rw [hc] at hexec
    obtain ⟨u', hne, rfl, rfl⟩ := Course.of_open hscript hexec hopen
    have hgoing {limits : Limits}
        (hlimit : limits.exceeded? (cycles + 1) (u.on host below).stack.depth = none) :
        tick linked limits .call ⟨u.on host below, cycles, moved⟩
          = .going ⟨u'.on host below, cycles + 1, true⟩ := by
      rw [tick_after Drive.call_ne_step hins hlimit, hc]
      rcases hsignal with rfl | rfl <;> rfl
    have hsound' : Sound linked T true (u'.on host below) := by
      have hone := @tick_sound linked .call T ⟨none, (u.on host below).stack.depth⟩ hshape htab
        ⟨u.on host below, cycles, moved⟩ hsound
      rw [hgoing (Limits.not_exceeded (Nat.le_refl _))] at hone
      exact hone
    obtain ⟨depth, fuel, hrun⟩ := ih rfl hsound' (cycles + 1) true
    refine ⟨max depth (u.on host below).stack.depth, fuel + 1, fun depth' hdepth => ?_⟩
    obtain ⟨hdepth, hhere⟩ := Nat.max_le.mp hdepth
    rw [runFor, hgoing (Limits.not_exceeded hhere)]
    exact hrun depth' hdepth
  | returned hins hexec =>
    subst hs
    obtain ⟨c, hc⟩ := course_execute linked u fun n hop => hsound.pick_lt hshape hins hop
    rw [hc] at hexec
    obtain ⟨u', rfl, rfl, rfl⟩ := Course.of_returned hscript hexec rfl
    have hstop := hc host below
    rw [Course.on, if_pos hhost] at hstop
    exact exists_last moved hins (congrArg _ hstop) rfl
  | thrown hins hexec =>
    subst hs
    obtain ⟨c, hc⟩ := course_execute linked u fun n hop => hsound.pick_lt hshape hins hop
    rw [hc] at hexec
    obtain ⟨w, u', hpass, rfl, rfl, rfl, hvalue⟩ := Course.of_thrown hscript hexec
    obtain ⟨frames, hthrow⟩ := throws_host linked hhost below w u' hpass
    have hstop := (hc host below).trans hthrow
    rw [hvalue] at hstop
    exact exists_last moved hins (congrArg _ hstop) ⟨⟨_, _, rfl⟩, rfl⟩

/-- The host gets no other answer. -/
theorem activation_of_stop (hshape : WellShaped linked.program linked.labels T)
    (htab : Tabled linked.program) (hhost : host.fromHost = true)
    (hsound : Sound linked T true (u.on host below)) {limits : Limits} {fuel cycles : Nat}
    {moved : Bool} {stop : Stop} (base : State) (hscript : script = ⟨base.location, base.env, index, false⟩)
    (hstop : runFor linked limits .call fuel ⟨u.on host below, cycles, moved⟩ = some stop)
    (hanswer : stop.isAnswer = true) :
    ∃ answer heap events,
      Activation linked base (.callSite script :: base.stack.slots) (u.on script base.stack.slots)
        answer heap events
      ∧ stop.Gives linked host below heap events answer := by
  induction fuel generalizing u cycles moved with
  | zero => cases hstop
  | succ fuel ih =>
    obtain ⟨ins, hins⟩ := Option.isSome_iff_exists.mp hsound.exists_
    have hone := @tick_sound linked .call T limits hshape htab ⟨u.on host below, cycles, moved⟩ hsound
    obtain ⟨c, hc⟩ := course_execute linked u fun n hop => hsound.pick_lt hshape hins hop
    rw [runFor] at hstop
    cases hlimit : limits.exceeded? (cycles + 1) (u.on host below).stack.depth with
    | some e =>
      rw [tick_exceeded Drive.call_ne_step hins hlimit] at hstop
      cases hstop
      rw [Stop.isAnswer, Limits.not_scriptError hlimit] at hanswer
      cases hanswer
    | none =>
      rw [tick_after Drive.call_ne_step hins hlimit, hc host below] at hstop hone
      cases c with
      | stays signal u' hne =>
        cases signal with
        | proceed =>
          obtain ⟨answer, heap, events, h, hgives⟩ := ih hone hstop
          exact ⟨answer, heap, events, .step hins (hc _ _) (.inl rfl) (List.suffix_append _ _) h,
            hgives⟩
        | pause =>
          obtain ⟨answer, heap, events, h, hgives⟩ := ih hone hstop
          exact ⟨answer, heap, events, .step hins (hc _ _) (.inr rfl) (List.suffix_append _ _) h,
            hgives⟩
        | halt =>
          cases hstop
          cases hanswer
        | hostReturn => exact absurd rfl hne
      | fails cause u' | sinks cause u' =>
        cases hstop
        cases hanswer
      | throws w u' hpass =>
        obtain ⟨frames, hthrow⟩ := throws_host linked hhost below w u' hpass
        rw [hthrow] at hstop
        cases hstop
        refine ⟨.thrown w, u'.heap, u'.events, .thrown hins ?_, ⟨_, _, rfl⟩, rfl⟩
        rw [hc]
        exact throws_script base linked (congrArg CallSite.fromHost hscript) w u' hpass
      | returns v u' =>
        rw [Course.on, if_pos hhost] at hstop
        cases hstop
        refine ⟨.returned v, u'.heap, u'.events, .returned hins ?_, rfl⟩
        rw [hc, Course.on, hscript, base.stack.eq_of]
        rfl

end

end

/-! ## calling from the host is calling from a script -/

/-- what the host is told of an answer -/
def Answer.Told (linked : Linked) (heap : Heap) : Answer → Except RuntimeError HostValue → Prop
  | .returned v, r => r = .ok (linked.program.toHost heap v)
  | .thrown v, r =>
    ∃ text frames, r = .error (.uncaught text (linked.program.toHost heap v) frames)

namespace Machine

section
variable {m : Machine} {before : State} {index : Nat} {stop : Stop}

/-- the outcome of a call that has an answer -/
theorem finishCall_gives {heap : Heap} {events : List Event} {answer : Answer}
    (h : stop.Gives m.linked ⟨before.location, before.env, index, true⟩ before.stack.slots heap events
      answer) :
    ∃ r, answer.Told m.linked heap r ∧ m.finishCall before stop
      = (r, { m with state := { before with heap := heap, events := events } }) := by
  match stop, answer, h with
  | .returned s, .returned v, h =>
    cases h
    refine ⟨_, rfl, ?_⟩
    rw [before.stack.eq_of]
    rfl
  | .failed e s, .thrown v, h =>
    obtain ⟨⟨text, frames, rfl⟩, rfl⟩ := h
    refine ⟨_, ⟨text, frames, rfl⟩, ?_⟩
    have hstack : (Stack.of before.stack.slots).truncate before.stack.depth = before.stack :=
      Stack.truncate_of_suffix List.suffix_rfl
    show (_, { m with state := ⟨_, _, (Stack.of before.stack.slots).truncate _, _, _⟩ }) = _
    rw [hstack]

/-- a result and an uncaught value are answers of the script -/
theorem isAnswer_of_finishCall {r : Except RuntimeError HostValue} {m' : Machine}
    (h : m.finishCall before stop = (r, m')) (hr : ∀ e, r = .error e → e.isScriptError = true) :
    stop.isAnswer = true := by
  cases stop with
  | returned s => rfl
  | failed e s =>
    cases h
    exact hr e rfl
  | halted s | paused s =>
    cases h
    cases hr _ rfl

/-- a call runs the function from its start, and then finishes -/
theorem call_eq (hmode : m.mode = .done) {name : String}
    (hindex : m.linked.program.functionIndex? name = some index) {args : List HostValue} {s : State}
    (hs : (Exec.enterFunction index (m.importArgs args).1 none true).run m.linked (m.importArgs args).2
      = .ok () s) (fuel : Nat) :
    m.call name args fuel = (runFor m.linked m.limits .call fuel ⟨s, 0, m.moved⟩).map
      (m.finishCall (m.importArgs args).2) := by
  unfold call
  rw [hmode]
  dsimp only
  rw [hindex]
  dsimp only
  rw [hs]

end

/-- what a call comes to if there are no limits, and the state after it -/
def Answers (m : Machine) (name : String) (args : List HostValue)
    (r : Except RuntimeError HostValue) (s : State) : Prop :=
  ∃ depth fuel, ({ m with limits := ⟨none, depth⟩ } : Machine).call name args fuel
    = some (r, { m with limits := ⟨none, depth⟩, state := s })

namespace Ok

variable {program : Program} {T : Location → Shape} {m : Machine} {name : String} {index : Nat}
  {args : List HostValue} {base : State} {u : Upper}

/-- what the host is told is the answer to a script -/
theorem activation_of_answers (h : m.Ok program T) (base : State) (hmode : m.mode = .done)
    (hindex : m.linked.program.functionIndex? name = some index)
    (hu : (Exec.enterFunction index (m.importArgs args).1 none true).run m.linked (m.importArgs args).2
      = .ok () (u.on ⟨m.state.location, m.state.env, index, true⟩ m.state.stack.slots))
    {r : Except RuntimeError HostValue} {s : State} (hcall : m.Answers name args r s)
    (hr : ∀ e, r = .error e → e.isScriptError = true) :
    ∃ answer heap events,
      Activation m.linked base (.callSite ⟨base.location, base.env, index, false⟩ :: base.stack.slots)
        (u.on ⟨base.location, base.env, index, false⟩ base.stack.slots) answer heap events
      ∧ answer.Told m.linked heap r ∧ s = { m.state with heap := heap, events := events } := by
  obtain ⟨depth, fuel, hcall⟩ := hcall
  obtain ⟨_, hs, hsound⟩ := h.sound_call hmode hindex args
  cases hu.symm.trans hs
  let unlimited : Machine := { m with limits := ⟨none, depth⟩ }
  have heq := @call_eq unlimited index hmode name hindex args _ hu fuel
  obtain ⟨stop, hstop, hfinish⟩ := Option.map_eq_some_iff.mp (heq.symm.trans hcall)
  obtain ⟨answer, heap, events, hact, hgives⟩ := activation_of_stop h.shaped h.tabled rfl hsound
    base rfl hstop (isAnswer_of_finishCall hfinish hr)
  obtain ⟨r', htold, hfinish'⟩ := @finishCall_gives unlimited _ _ _ _ _ _ hgives
  cases hfinish.symm.trans hfinish'
  exact ⟨answer, heap, events, hact, htold, rfl⟩

/-- the host is told the answer to a script -/
theorem answers_of_activation (h : m.Ok program T) (hmode : m.mode = .done)
    (hindex : m.linked.program.functionIndex? name = some index)
    (hu : (Exec.enterFunction index (m.importArgs args).1 none true).run m.linked (m.importArgs args).2
      = .ok () (u.on ⟨m.state.location, m.state.env, index, true⟩ m.state.stack.slots))
    {answer : Answer} {heap : Heap} {events : List Event}
    (hact : Activation m.linked base
      (.callSite ⟨base.location, base.env, index, false⟩ :: base.stack.slots)
      (u.on ⟨base.location, base.env, index, false⟩ base.stack.slots) answer heap events) :
    ∃ r, answer.Told m.linked heap r
      ∧ m.Answers name args r { m.state with heap := heap, events := events } := by
  obtain ⟨_, hs, hsound⟩ := h.sound_call hmode hindex args
  cases hu.symm.trans hs
  obtain ⟨depth, fuel, hrun⟩ := stop_of_activation h.shaped h.tabled rfl rfl hact rfl hsound 0 m.moved
  obtain ⟨stop, hstop, hgives⟩ := hrun depth (Nat.le_refl _)
  let unlimited : Machine := { m with limits := ⟨none, depth⟩ }
  obtain ⟨r, htold, hfinish⟩ := @finishCall_gives unlimited _ _ _ _ _ _ hgives
  refine ⟨r, htold, depth, fuel, ?_⟩
  have hcall := @call_eq unlimited index hmode name hindex args _ hu fuel
  refine hcall.trans ?_
  rw [show runFor unlimited.linked unlimited.limits .call fuel _ = some stop from hstop]
  exact congrArg some hfinish

end Ok

end Machine

/-- **Calling a function from the host is calling it from a script.**  Take a machine of a compiled
program after any session, the program done, and a function of the program.  Let a script call the
function with the host's arguments, from wherever it is, on the same heap.  Without limits the host
gets a result if and only if the script's call returns the value that it comes from, and an uncaught
value if and only if the script's call throws it to its caller.  The heap after the call and what the
call has shown are the same, and the machine is otherwise as before. -/
theorem call_agrees (body : List Stmt) (source : Source) (program : Program)
    (hprogram : compileProgram body source = .ok program) (limits : Limits) (m₀ : Machine)
    (hload : Machine.load program limits = .ok m₀) (ops : List HostOp) (m : Machine)
    (hm : m₀.after ops = some m) (hmode : m.mode = .done) (name : String) (index : Nat)
    (hindex : program.functionIndex? name = some index) (args : List HostValue) (base : State)
    (hheap : base.heap = (m.importArgs args).2.heap) (hevents : base.events = m.state.events) :
    ∃ start, (Exec.enterFunction index (m.importArgs args).1 none false).run m.linked base
        = .ok () start
      ∧ (∀ r s, m.Answers name args (.ok r) s ↔ ∃ v heap events,
          Activation m.linked base start.stack.slots start (.returned v) heap events
          ∧ r = program.toHost heap v ∧ s = { m.state with heap := heap, events := events })
      ∧ ∀ r s, (∃ text frames, m.Answers name args (.error (.uncaught text r frames)) s)
        ↔ ∃ v heap events,
          Activation m.linked base start.stack.slots start (.thrown v) heap events
          ∧ r = program.toHost heap v ∧ s = { m.state with heap := heap, events := events } := by
  obtain ⟨code, b, hcode, rfl⟩ := compileProgram_ok hprogram
  obtain ⟨table, T, hshape, -⟩ := wellShaped_of_compiled hcode rfl rfl source
  obtain ⟨table', htable, rfl⟩ := Machine.load_ok hload
  obtain rfl : table = table' := Except.ok.inj (hshape.labels.symm.trans htable)
  have hok := (Machine.Ok.loaded hshape (tabled_of_compiled hcode source) limits).after hm
  rw [← hok.runs] at hindex ⊢
  rcases enterFunction_on m.linked index (m.importArgs args).1 (m.importArgs args).2.heap
    m.state.events with ⟨u, hslots, hu⟩ | herror
  · have hhost := hu (m.importArgs args).2 true rfl rfl
    refine ⟨_, hu base false hheap hevents, ?_⟩
    rw [show (u.on ⟨base.location, base.env, index, false⟩ base.stack.slots).stack.slots
      = .callSite ⟨base.location, base.env, index, false⟩ :: base.stack.slots from
        congrArg (· ++ _) hslots]
    refine ⟨fun r s => ⟨fun h => ?_, ?_⟩, fun r s => ⟨?_, ?_⟩⟩
    · obtain ⟨answer, heap, events, hact, htold, rfl⟩ :=
        hok.activation_of_answers base hmode hindex hhost h nofun
      cases answer with
      | returned v => exact ⟨v, heap, events, hact, Except.ok.inj htold, rfl⟩
      | thrown v =>
        obtain ⟨text, frames, htold⟩ := htold
        cases htold
    · rintro ⟨v, heap, events, hact, rfl, rfl⟩
      obtain ⟨r, rfl, hanswers⟩ := hok.answers_of_activation hmode hindex hhost hact
      exact hanswers
    · rintro ⟨text, frames, h⟩
      obtain ⟨answer, heap, events, hact, htold, rfl⟩ :=
        hok.activation_of_answers base hmode hindex hhost h (by rintro _ ⟨⟩; rfl)
      cases answer with
      | returned v => cases htold
      | thrown v =>
        obtain ⟨text', frames', htold⟩ := htold
        cases htold
        exact ⟨v, heap, events, hact, rfl, rfl⟩
    · rintro ⟨v, heap, events, hact, rfl, rfl⟩
      obtain ⟨r, ⟨text, frames, rfl⟩, hanswers⟩ := hok.answers_of_activation hmode hindex hhost hact
      exact ⟨text, frames, hanswers⟩
  · obtain ⟨s, hs, -⟩ := hok.sound_call hmode hindex args
    rw [herror] at hs
    cases hs

/-- `function f(x) { return x; }` -/
def givingBack : List Stmt :=
  let at_ : TokenRange := ⟨0, 0⟩
  let value : Expr := .node (.variable "x") at_
  let returning : Stmt := .node (.returnValue (some value)) at_
  [.node (.function (.mk (some "f") ["x"] [returning] at_)) at_]

/-- after a run: the mode of the machine, and the place of the function `f` -/
def modeAfterRun (body : List Stmt) (fuel : Nat) : Option (Mode × Option Nat) :=
  match compileProgram body ⟨#[], ""⟩ with
  | .error _ => none
  | .ok program =>
    match Machine.load program {} with
    | .error _ => none
    | .ok m₀ => (m₀.after [.run fuel]).map fun m => (m.mode, program.functionIndex? "f")

/-- a call that the main code might make behind its end -/
theorem call_agrees_givingBack :
    ∃ (program : Program) (m : Machine) (start : State),
      compileProgram givingBack ⟨#[], ""⟩ = .ok program ∧ m.mode = .done
      ∧ (Exec.enterFunction 0 (m.importArgs [.bool true]).1 none false).run m.linked
        (m.importArgs [.bool true]).2 = .ok () start
      ∧ ∀ r s, m.Answers "f" [.bool true] (.ok r) s ↔ ∃ v heap events,
        Activation m.linked (m.importArgs [.bool true]).2 start.stack.slots start (.returned v) heap
          events
        ∧ r = program.toHost heap v ∧ s = { m.state with heap := heap, events := events } := by
  have hmodes : modeAfterRun givingBack 9 = some (.done, some 0) := by cbv
  unfold modeAfterRun at hmodes
  cases hprogram : compileProgram givingBack ⟨#[], ""⟩ with
  | error e =>
    rw [hprogram] at hmodes
    cases hmodes
  | ok program =>
    rw [hprogram] at hmodes
    dsimp only at hmodes
    cases hload : Machine.load program {} with
    | error e =>
      rw [hload] at hmodes
      cases hmodes
    | ok m₀ =>
      rw [hload] at hmodes
      obtain ⟨m, hm, hresult⟩ := Option.map_eq_some_iff.mp hmodes
      obtain ⟨hmode, hindex⟩ := Prod.mk.inj hresult
      obtain ⟨start, hstart, hreturned, -⟩ := call_agrees givingBack ⟨#[], ""⟩ program hprogram {} m₀
        hload [.run 9] m hm hmode "f" 0 hindex [.bool true] (m.importArgs [.bool true]).2 rfl rfl
      exact ⟨program, m, start, rfl, hmode, hstart, hreturned⟩

end ScriptMachine
