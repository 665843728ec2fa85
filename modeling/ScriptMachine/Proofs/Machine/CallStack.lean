import ScriptMachine.Proofs.Machine.Rails

/-!
# The call stack that an error reports

When a value is thrown that nothing catches, the error names the sections on the way: the one that
runs, and the one of each caller that unwinding passes.  These are the sections of the functions that
are really active, if the places on the stack are in the right sections.

* `Framed`                   all places on the stack are in the sections of their functions;
* `Program.activeSections`   the sections of the active functions, read off the stack;
* `Framed.uncaught`          what a value passes that nothing catches;
* `Moved.framed`             instructions of programs that pass the check keep the places right;
* `Machine.Starts`           the run that an operation starts, and the function that the host calls;
* `session_callStack`        all runs of all sessions.
-/

namespace ScriptMachine

/-! ## frames -/

namespace Program

variable (program : Program)

/-- the section of a function -/
def body? (index : Nat) : Option Nat := program.functions[index]?.map FunctionEntry.body

/-- The sections of the active functions, the innermost first: the body of the function of each call
site, up to a call of the host, or else the main section at the end. -/
def activeSections : List Slot → List Nat
  | [] => [0]
  | .callSite site :: rest =>
    (program.body? site.function).toList ++ if site.fromHost then [] else activeSections rest
  | _ :: rest => activeSections rest

def sectionName (i : Nat) : String := (program.sections[i]?.map Section.name).getD ""

/-- where a run starts: in the function that the host called, or in the main section -/
def startSection? : Option Nat → Option Nat
  | none => some 0
  | some index => program.body? index

end Program

section
variable (program : Program) (base : Option Nat)

/-- The places on the stack are in the sections of their functions, if the code that runs is in section
`i`.  Each handler is in the section of the function that has set it up, each caller in that of the
function that called, down to the main section or, if `base` is a function, to its call by the host. -/
inductive Framed : Nat → List Slot → Prop
  | main (hbase : base = none) : Framed 0 []
  | host {i : Nat} {site : CallSite} {below : List Slot} (hsite : site.fromHost = true)
      (hbase : base = some site.function) (hi : program.body? site.function = some i) :
    Framed i (.callSite site :: below)
  | passed {i : Nat} {slot : Slot} {rest : List Slot} (hslot : Stack.isPassed slot = true)
      (h : Framed i rest) : Framed i (slot :: rest)
  | region {i : Nat} {region : TryRegion} {rest : List Slot}
      (hi : region.handler.sectionIndex = i) (h : Framed i rest) :
    Framed i (.tryRegion region :: rest)
  | call {i : Nat} {site : CallSite} {rest : List Slot} (hsite : site.fromHost = false)
      (hi : program.body? site.function = some i) (h : Framed site.caller.sectionIndex rest) :
    Framed i (.callSite site :: rest)

end

section
variable {program : Program} {base : Option Nat} {i : Nat} {slots : List Slot}

theorem Program.activeSections_passed {slot : Slot} (h : Stack.isPassed slot = true)
    (rest : List Slot) : program.activeSections (slot :: rest) = program.activeSections rest := by
  cases slot with
  | callSite _ => cases h
  | _ => rfl

theorem Program.activeSections_site {site : CallSite} (h : program.body? site.function = some i)
    (rest : List Slot) : program.activeSections (.callSite site :: rest)
      = i :: if site.fromHost then [] else program.activeSections rest := by
  rw [activeSections, h]
  rfl

namespace Framed

/-- the code that runs is in the innermost active section -/
theorem head (h : Framed program base i slots) :
    ∃ outer, program.activeSections slots = i :: outer := by
  induction h with
  | main _ => exact ⟨[], rfl⟩
  | host _ _ hi | call _ hi _ _ => exact ⟨_, Program.activeSections_site hi _⟩
  | passed hslot _ ih =>
    rw [Program.activeSections_passed hslot]
    exact ih
  | region _ _ ih => exact ih

/-- the outermost active section is where the run started -/
theorem getLast? (h : Framed program base i slots) :
    (program.activeSections slots).getLast? = program.startSection? base := by
  induction h with
  | main hbase =>
    rw [hbase]
    rfl
  | host hsite hbase hi =>
    rw [Program.activeSections_site hi, if_pos hsite, hbase]
    exact hi.symm
  | passed hslot _ ih =>
    rw [Program.activeSections_passed hslot]
    exact ih
  | region _ _ ih => exact ih
  | call hsite hi h ih =>
    obtain ⟨outer, houter⟩ := h.head
    rw [Program.activeSections_site hi, hsite, if_neg Bool.false_ne_true, ← ih, houter,
      List.getLast?_cons_cons]

/-- what is below an entry of the frame that runs -/
theorem tail {slot : Slot} (h : Framed program base i (slot :: slots)) (hslot : slot.isOwn = true) :
    Framed program base i slots := by
  cases h with
  | passed _ h | region _ h => exact h
  | host | call => cases hslot

theorem drop {taken : List Slot} (h : Framed program base i (taken ++ slots))
    (htaken : ∀ slot ∈ taken, slot.isOwn = true) : Framed program base i slots :=
  Slot.drop_own (fun _ _ hslot h => tail h hslot) htaken h

/-- where a thrown value is caught, the handler is in the section of its frame -/
theorem caught (h : Framed program base i slots) {region : TryRegion} {rest : Stack}
    (hcaught : (Stack.of slots).unwindThrow = .caught region rest) :
    Framed program base region.handler.sectionIndex rest.slots := by
  induction h with
  | main _ => cases hcaught
  | host hsite _ _ =>
    rw [Stack.unwindThrow_site, if_pos hsite] at hcaught
    cases hcaught
  | @passed _ slot rest hslot _ ih =>
    exact ih ((Stack.unwindThrow_passed [slot] rest (List.forall_mem_singleton.mpr hslot)).symm.trans
      hcaught)
  | region hi h _ =>
    cases hcaught
    rw [hi]
    exact h
  | call hsite _ _ ih =>
    rw [Stack.unwindThrow_site, hsite, if_neg Bool.false_ne_true] at hcaught
    exact ih (Unwound.of_through hcaught)

/-- a value that nothing catches passes the active sections, from the one that runs to the outermost -/
theorem uncaught (h : Framed program base i slots) {callers : List Location}
    (hcallers : (Stack.of slots).unwindThrow.callers? = some callers) :
    i :: callers.map Location.sectionIndex = program.activeSections slots := by
  induction h generalizing callers with
  | main _ =>
    cases hcallers
    rfl
  | host hsite _ hi =>
    rw [Stack.unwindThrow_site, if_pos hsite] at hcallers
    cases hcallers
    rw [Program.activeSections_site hi, if_pos hsite]
    rfl
  | @passed _ slot rest hslot _ ih =>
    rw [Program.activeSections_passed hslot]
    refine ih ?_
    rw [← hcallers, ← Stack.unwindThrow_passed [slot] rest (List.forall_mem_singleton.mpr hslot)]
    rfl
  | region _ _ _ => cases hcallers
  | @call _ site rest hsite hi _ ih =>
    rw [Stack.unwindThrow_site, hsite, if_neg Bool.false_ne_true] at hcallers
    rw [Program.activeSections_site hi, hsite, if_neg Bool.false_ne_true]
    cases hrest : (Stack.of rest).unwindThrow with
    | caught _ _ =>
      rw [hrest] at hcallers
      cases hcallers
    | reachedHost _ callers' _ | uncaught callers' =>
      rw [hrest] at hcallers
      cases hcallers
      have hcallers' : (Stack.of rest).unwindThrow.callers? = some callers' := by
        rw [hrest]
        rfl
      rw [← ih hcallers']
      rfl

/-- where a return goes -/
theorem nearest (h : Framed program base i slots) {site : CallSite} {rest : Stack}
    (hunwind : (Stack.of slots).unwind Exec.callSite? = some (site, rest)) :
    site.fromHost = false ∧ Framed program base site.caller.sectionIndex rest.slots
      ∨ site.fromHost = true ∧ base = some site.function := by
  induction h with
  | main _ => cases hunwind
  | host hsite hbase _ =>
    cases hunwind
    exact .inr ⟨hsite, hbase⟩
  | call hsite _ h _ =>
    cases hunwind
    exact .inl ⟨hsite, h⟩
  | @passed _ slot rest hslot _ ih =>
    cases slot with
    | callSite _ | tryRegion _ => cases hslot
    | _ => exact ih hunwind
  | region _ _ ih => exact ih hunwind

/-- below the calls of the script is the function that the host called -/
theorem base_eq {upper below : List Slot} {site : CallSite}
    (h : Framed program base i (upper ++ .callSite site :: below)) (hsite : site.fromHost = true)
    (hinner : ∀ inner, .callSite inner ∈ upper → inner.fromHost = false) :
    base = some site.function := by
  induction upper generalizing i with
  | nil =>
    cases h with
    | host _ hbase _ => exact hbase
    | passed hslot _ => cases hslot
    | call hscript _ _ =>
      rw [hsite] at hscript
      cases hscript
  | cons slot upper ih =>
    have hrest := fun inner hmem => hinner inner (List.mem_cons_of_mem _ hmem)
    cases h with
    | host hhost _ _ =>
      rw [hinner _ List.mem_cons_self] at hhost
      cases hhost
    | passed _ h | region _ h | call _ _ h => exact ih h hrest

end Framed

/-! ## instructions -/

/-- what an instruction puts onto the stack within its frame -/
theorem Lays.framed {linked : Linked} {op : Op} {put : List Slot} (hlays : Lays linked op put)
    (hregion : ∀ l handler, op = .enterTry l → linked.labels.resolve? l = some handler →
      handler.sectionIndex = i) (h : Framed program base i slots) :
    Framed program base i (put ++ slots) := by
  cases hlays with
  | nothing => exact h
  | value _ => exact .passed rfl h
  | result _ _ => exact .passed rfl (.passed rfl h)
  | loop _ _ => exact .passed rfl h
  | region hop hl _ => exact .region (hregion _ _ hop hl) h

/-- One instruction of a program that passes the check.  Only a function that the host called returns
to the host. -/
theorem Moved.framed {table : LabelTable} {linked : Linked} {pc : Nat} {ins : Instruction}
    {s₀ s : State} {signal : Signal} (acc : Accepted program table) (hlinked : linked.Of program table)
    (hins : program.instruction? i pc = some ins) (h : Moved linked ins.op s₀ signal s)
    (hloc : s₀.location = ⟨i, pc + 1⟩) (hs : Framed program base i s₀.stack.slots) :
    signal = .hostReturn ∧ base.isSome ∨ signal ≠ .hostReturn
      ∧ Framed program base s.location.sectionIndex s.stack.slots := by
  have hlands {l : Label} {target : Location} (hop : ins.op.jumpTarget? = some l)
      (hl : linked.labels.resolve? l = some target) : target.sectionIndex = i := by
    obtain ⟨pc', hl', -⟩ := acc.lands hins hop
    rw [hlinked.labels, hl'] at hl
    cases hl
    rfl
  cases h with
  | within hsignal honto htaken hbefore hlays hafter =>
    rw [hbefore] at hs
    have hsection : s.location.sectionIndex = i := by
      rw [hloc] at honto
      generalize s.location = target at honto
      cases honto with
      | next _ => rfl
      | jump hop hl => exact hlands hop hl
    refine .inr ⟨fun heq => ?_, ?_⟩
    · rw [heq] at hsignal
      rcases hsignal with h | h <;> cases h
    · rw [hsection, hafter]
      refine hlays.framed (fun l handler hop hl => hlands (l := l) ?_ hl) (hs.drop htaken)
      rw [hop]
      rfl
  | called hop hentry htaken hbefore hloc' hafter =>
    rw [hbefore] at hs
    refine .inr ⟨nofun, ?_⟩
    rw [hloc', hafter]
    refine .call rfl ?_ ?_
    · rw [Program.body?, ← hlinked.program, hentry]
      rfl
    · rw [hloc]
      exact hs.drop htaken
  | caught hunwind hloc' _ hafter =>
    rw [s₀.stack.eq_of] at hunwind
    refine .inr ⟨nofun, ?_⟩
    rw [hloc', hafter]
    exact .passed rfl (hs.caught hunwind)
  | returned hop hbefore hunwind hsignal hloc' _ hafter =>
    rw [hbefore] at hs
    rcases (hs.tail rfl).nearest hunwind with ⟨hscript, hrest⟩ | ⟨hhost, hbase⟩
    · rw [hscript] at hsignal
      refine .inr ⟨by rw [hsignal]; exact nofun, ?_⟩
      rw [hloc', hafter]
      exact .passed rfl hrest
    · rw [hhost] at hsignal
      rw [hbase]
      exact .inl ⟨hsignal, rfl⟩
  | halted _ =>
    rw [hloc]
    exact .inr ⟨nofun, hs⟩

/-- the code that runs and all places on the stack are in the sections of their functions -/
def State.Framed (program : Program) (base : Option Nat) (s : State) : Prop :=
  ScriptMachine.Framed program base s.location.sectionIndex s.stack.slots

/-- The error names the active sections. -/
theorem frames_of_tick {linked : Linked} {limits : Limits} {drive : Drive} {run : Run}
    (hlinked : linked.program = program) (hs : run.state.Framed program base) {text : String}
    {value : HostValue} {frames : List String} {s : State}
    (htick : tick linked limits drive run = .stopped (.failed (.uncaught text value frames) s)) :
    frames = (program.activeSections run.state.stack.slots).map program.sectionName := by
  have hticks := ticks linked limits drive run
  rw [htick] at hticks
  cases hticks with
  | limited hlimit =>
    have hlimit := Limits.exceeded_isLimit hlimit
    cases hlimit
  | fails hins hexec =>
    cases fails_of_execute hexec with
    | uncaught hcallers =>
      rw [run.state.next.stack.eq_of] at hcallers
      rw [← hs.uncaught hcallers, List.map_cons, List.map_cons, List.map_map]
      rw [← hlinked]
      rfl

section
variable {linked : Linked} {limits : Limits} {drive : Drive}

/-- a run that stops has a last instruction -/
theorem exists_ahead {fuel : Nat} {run : Run} {stop : Stop}
    (h : runFor linked limits drive fuel run = some stop) :
    ∃ n last, run.ahead linked limits drive n = some last
      ∧ tick linked limits drive last = .stopped stop := by
  induction fuel generalizing run with
  | zero => cases h
  | succ fuel ih =>
    rw [runFor] at h
    cases htick : tick linked limits drive run with
    | going run' =>
      rw [htick] at h
      obtain ⟨n, last, hlast, hstop⟩ := ih h
      refine ⟨n + 1, last, ?_, hstop⟩
      rw [Run.ahead, htick]
      exact hlast
    | stopped stop' =>
      rw [htick] at h
      cases h
      exact ⟨0, run, rfl, htick⟩

theorem runFor_of_ahead {n : Nat} {run last : Run} {stop : Stop}
    (hlast : run.ahead linked limits drive n = some last)
    (hstop : tick linked limits drive last = .stopped stop) :
    runFor linked limits drive (n + 1) run = some stop := by
  induction n generalizing run with
  | zero =>
    cases hlast
    rw [runFor, hstop]
  | succ n ih =>
    rw [Run.ahead] at hlast
    rw [runFor]
    cases htick : tick linked limits drive run with
    | going run' =>
      rw [htick] at hlast
      exact ih hlast
    | stopped stop' =>
      rw [htick] at hlast
      cases hlast

end

/-! ## sessions -/

/-- Every instruction keeps the places right, whoever started the function that runs. -/
theorem invariant_framed {table : LabelTable} (acc : Accepted program table) :
    Invariant (fun hosted s => ∃ base : Option Nat, base.isSome = hosted ∧ s.Framed program base)
      (fun _ => True) (fun _ => True) program table := by
  refine ⟨⟨none, rfl, .main rfl⟩, fun _ _ => trivial, ?_, ?_, trivial, fun _ => trivial⟩
  · rintro linked hosted s ins hlinked ⟨base, hbase, hs⟩ hins
    cases hexec : execute linked ins.op s with
    | error e s' => trivial
    | ok signal s' =>
      rcases (moved_of_execute hexec).framed acc hlinked hins rfl hs with ⟨rfl, hsome⟩ | ⟨hsignal, hs'⟩
      · exact hbase.symm.trans hsome
      · cases signal with
        | proceed | pause => exact ⟨base, hbase, hs'⟩
        | halt => exact fun _ => trivial
        | hostReturn => exact absurd rfl hsignal
  · intro linked s s' index args hlinked _ hs
    obtain ⟨entry, hentry, hloc, hslots⟩ := Exec.enterFunction_ok hs
    refine ⟨some index, rfl, ?_⟩
    rw [State.Framed, hloc, hslots]
    refine .host rfl rfl ?_
    rw [Program.body?, ← hlinked.program, hentry]
    rfl

end

namespace Machine

/-- The run that an operation of the host starts, and the function that it calls. -/
inductive Starts (m : Machine) : HostOp → Drive → Run → Option Nat → Prop
  | run {fuel : Nat} (h : m.mode = .paused) : Starts m (.run fuel) .run ⟨m.state, 0, m.moved⟩ none
  | step {fuel : Nat} (h : m.mode = .paused) : Starts m (.step fuel) .step ⟨m.state, 0, m.moved⟩ none
  | call {name : String} {args : List HostValue} {fuel index : Nat} {s : State} (h : m.mode = .done)
      (hindex : m.linked.program.functionIndex? name = some index)
      (hs : (Exec.enterFunction index (m.importArgs args).1 none true).run m.linked
        (m.importArgs args).2 = .ok () s) :
    Starts m (.call name args fuel) .call ⟨s, 0, m.moved⟩ (some index)

variable {m : Machine}

theorem Starts.enters {op : HostOp} {drive : Drive} {run : Run} {base : Option Nat}
    (h : m.Starts op drive run base) : m.Enters drive run := by
  cases h with
  | run hmode => exact .run hmode
  | step hmode => exact .step hmode
  | call hmode hindex hs => exact .call hmode hindex hs

/-- every state of a run, with the function that the host called -/
theorem Starts.framed {program : Program} {table : LabelTable} (acc : Accepted program table)
    (hm : m.Held (fun hosted s => ∃ base : Option Nat, base.isSome = hosted ∧ s.Framed program base)
      (fun _ => True) program table) {op : HostOp} {drive : Drive} {first last : Run}
    {base : Option Nat} (h : m.Starts op drive first base) {n : Nat}
    (hlast : first.ahead m.linked m.limits drive n = some last) : last.state.Framed program base := by
  have hinvariant := invariant_framed acc
  obtain ⟨base', hbase', hframed⟩ :=
    hinvariant.ahead hm.linked (hinvariant.enters hm h.enters) hlast
  cases h with
  | run _ | step _ =>
    cases base' with
    | none => exact hframed
    | some _ => cases hbase'
  | @call _ args _ index _ _ _ hs =>
    rcases enterFunction_on m.linked index (m.importArgs args).1 (m.importArgs args).2.heap
      m.state.events with ⟨u, -, hu⟩ | herror
    · rw [hu _ true rfl rfl] at hs
      cases hs
      obtain ⟨u', hu'⟩ := ahead_above rfl rfl hlast
      rw [hu'] at hframed ⊢
      rw [Framed.base_eq hframed rfl u'.inner] at hframed
      exact hframed
    · rw [herror] at hs
      cases hs

/-- an operation that lets the program go on fails if its run does -/
theorem resume_error {drive : Drive} {fuel : Nat} {e : RuntimeError} {m' : Machine}
    (h : m.resume drive fuel = some (.error e, m')) :
    m.mode = .paused
      ∧ ∃ s, runFor m.linked m.limits drive fuel ⟨m.state, 0, m.moved⟩ = some (.failed e s) := by
  unfold resume at h
  cases hmode : m.mode with
  | done =>
    rw [hmode] at h
    cases h
  | paused =>
    rw [hmode] at h
    refine ⟨rfl, ?_⟩
    cases hrun : runFor m.linked m.limits drive fuel ⟨m.state, 0, m.moved⟩ with
    | none =>
      rw [hrun] at h
      cases h
    | some stop =>
      rw [hrun] at h
      cases stop with
      | failed e' s =>
        cases h
        exact ⟨s, rfl⟩
      | paused _ | halted _ | returned _ => cases h

theorem apply_run_failed {fuel : Nat} {e : RuntimeError} {s : State} (hmode : m.mode = .paused)
    (hrun : runFor m.linked m.limits .run fuel ⟨m.state, 0, m.moved⟩ = some (.failed e s)) :
    m.apply (.run fuel) = some (.error e, m.abandon s) := by
  have hresume : m.run fuel = some (.error e, m.abandon s) := by
    unfold Machine.run resume
    rw [hmode]
    dsimp only
    rw [hrun]
  unfold apply
  dsimp only
  rw [hresume]
  rfl

/-- only a run that fails gives the host an uncaught value of the script -/
theorem finishCall_uncaught {before : State} {stop : Stop} {text : String} {value : HostValue}
    {frames : List String} {m' : Machine}
    (h : m.finishCall before stop = (.error (.uncaught text value frames), m')) :
    ∃ s, stop = .failed (.uncaught text value frames) s := by
  cases stop with
  | failed e s =>
    cases h
    exact ⟨s, rfl⟩
  | halted _ | paused _ => cases h
  | returned s =>
    unfold finishCall at h
    dsimp only at h
    cases hpop : Exec.pop.run m.linked s with
    | ok v s' =>
      rw [hpop] at h
      cases h
    | error e s' =>
      rw [hpop] at h
      cases h
      obtain ⟨_, _, hdefect⟩ := Exec.pop_error hpop
      cases hdefect

/-- the run behind an uncaught value -/
theorem starts_of_uncaught {op : HostOp} {text : String} {value : HostValue} {frames : List String}
    {m' : Machine} (h : m.apply op = some (.error (.uncaught text value frames), m')) :
    ∃ drive first base fuel s, m.Starts op drive first base
      ∧ runFor m.linked m.limits drive fuel first = some (.failed (.uncaught text value frames) s) := by
  have hmap {α : Type} {o : Outcome α} {f : α → Reply}
      (ho : (o.1.map f, o.2) = (.error (.uncaught text value frames), m')) :
      o = (.error (.uncaught text value frames), m') := by
    obtain ⟨_ | _, _⟩ := o <;> cases ho
    rfl
  cases op with
  | register name native | global name => cases h
  | run fuel =>
    obtain ⟨o, hrun, ho⟩ := Option.map_eq_some_iff.mp h
    rw [hmap ho] at hrun
    obtain ⟨hmode, s, hs⟩ := resume_error hrun
    exact ⟨_, _, _, fuel, s, .run hmode, hs⟩
  | step fuel =>
    obtain ⟨o, hrun, ho⟩ := Option.map_eq_some_iff.mp h
    rw [hmap ho] at hrun
    obtain ⟨hmode, s, hs⟩ := resume_error hrun
    exact ⟨_, _, _, fuel, s, .step hmode, hs⟩
  | call name args fuel =>
    obtain ⟨o, hcall, ho⟩ := Option.map_eq_some_iff.mp h
    rw [hmap ho] at hcall
    unfold Machine.call at hcall
    cases hmode : m.mode with
    | paused =>
      rw [hmode] at hcall
      cases hcall
    | done =>
      rw [hmode] at hcall
      cases hindex : m.linked.program.functionIndex? name with
      | none =>
        rw [hindex] at hcall
        cases hcall
      | some index =>
        rw [hindex] at hcall
        dsimp only at hcall
        cases hs : (Exec.enterFunction index (m.importArgs args).1 none true).run m.linked
            (m.importArgs args).2 with
        | error e s =>
          rw [hs] at hcall
          cases hcall
          cases hentry : m.linked.program.functions[index]? with
          | none => cases (Exec.enterFunction_none hentry _ none true _).symm.trans hs
          | some entry => cases (Exec.enterFunction_eq hentry _ none true _).symm.trans hs
        | ok _ s =>
          rw [hs] at hcall
          obtain ⟨stop, hstop, hend⟩ := Option.map_eq_some_iff.mp hcall
          obtain ⟨s', rfl⟩ := finishCall_uncaught hend
          exact ⟨_, _, _, fuel, s', .call hmode hindex hs, hstop⟩

end Machine

/-- **The call stack that an error reports is the real one.**  Take a program that passes the check, be
it compiled or not.  Whatever a host does, in whatever order: when the program pauses, and before every
instruction of every run, the code that runs, each handler and each caller on the stack are in the
sections of their functions.  So when an operation fails with an uncaught value, the error lists the
sections that are active where its run fails, the innermost first, and the last one is the main section
or that of the function that the host has called. -/
theorem session_callStack (program : Program) (hverify : program.verify = .ok ()) (limits : Limits) :
    ∃ m₀, Machine.load program limits = .ok m₀ ∧ ∀ ops m, m₀.after ops = some m →
      (m.mode = .paused → m.state.Framed program none)
      ∧ (∀ op drive first base n run, m.Starts op drive first base →
        first.ahead m.linked m.limits drive n = some run → run.state.Framed program base)
      ∧ ∀ op m' text value frames, m.apply op = some (.error (.uncaught text value frames), m') →
        ∃ drive first base n last s, m.Starts op drive first base
          ∧ first.ahead m.linked m.limits drive n = some last
          ∧ tick m.linked m.limits drive last = .stopped (.failed (.uncaught text value frames) s)
          ∧ frames = (program.activeSections last.state.stack.slots).map program.sectionName
          ∧ (program.activeSections last.state.stack.slots).getLast? = program.startSection? base := by
  obtain ⟨table, htable⟩ := labelTable_of_verify hverify
  obtain ⟨m₀, hload⟩ := load_of_verify hverify limits
  have acc := accepted_of_verify htable hverify
  have hinvariant := invariant_framed acc
  refine ⟨m₀, hload, fun ops m hm => ?_⟩
  have hheld := hinvariant.after (hinvariant.loaded htable hload) hm
  refine ⟨fun hmode => ?_, fun op drive first base n run hstarts hrun => hstarts.framed acc hheld hrun,
    fun op m' text value frames ho => ?_⟩
  · obtain ⟨base, hbase, hframed⟩ := hheld.paused hmode
    cases base with
    | none => exact hframed
    | some _ => cases hbase
  · obtain ⟨drive, first, base, fuel, s, hstarts, hrun⟩ := Machine.starts_of_uncaught ho
    obtain ⟨n, last, hlast, htick⟩ := exists_ahead hrun
    have hframed := hstarts.framed acc hheld hlast
    exact ⟨drive, first, base, n, last, s, hstarts, hlast, htick,
      frames_of_tick hheld.linked.program hframed htick, hframed.getLast?⟩

/-- a function that throws, called by one that the main code calls; nothing of it is compiled -/
def throwingDeep : Program :=
  let code (ops : List Op) : Array Instruction := (ops.map fun op => ⟨op, none, false⟩).toArray
  { constants := #[.function 0, .function 1, .null]
    sections := #[
      ⟨"main", code [.const 0, .call 0 false, .halt]⟩,
      ⟨"f", code [.const 1, .call 0 false, .ret]⟩,
      ⟨"g", code [.const 2, .throw]⟩]
    functions := #[⟨"f", 1, []⟩, ⟨"g", 2, []⟩]
    classes := []
    source := ⟨#[], ""⟩
    functionNames := ["f", "g"] }

/-- the stack where it throws -/
def deepStack : List Slot :=
  [.value .null, .callSite ⟨⟨1, 2⟩, ⟨1⟩, 1, false⟩, .callSite ⟨⟨0, 2⟩, ⟨0⟩, 0, false⟩]

theorem throwingDeep_throws (table : LabelTable) (env : EnvId) (heap : Heap) (events : List Event)
    (cycles : Nat) (moved : Bool) :
    ∃ s, tick ⟨throwingDeep, table, ⟨0⟩, []⟩ {} .run
        ⟨⟨⟨2, 1⟩, env, .of deepStack, heap, events⟩, cycles, moved⟩
      = .stopped (.failed (.uncaught "null" .null ["g", "f", "main"]) s) := ⟨_, rfl⟩

/-- the place and the stack after so many instructions of a program -/
def Program.placeAfter (program : Program) (n : Nat) : Option (Location × List Slot) :=
  match Machine.load program {} with
  | .error _ => none
  | .ok m => (Run.ahead m.linked m.limits .run n ⟨m.state, 0, m.moved⟩).map fun run =>
    (run.state.location, run.state.stack.slots)

/-- the error lists the functions from the one that throws to the main section -/
theorem session_callStack_throwing :
    throwingDeep.verify = .ok () ∧ ∃ (m m' : Machine) (n : Nat) (last : Run) (s : State),
      Machine.load throwingDeep {} = .ok m
      ∧ m.apply (.run 6) = some (.error (.uncaught "null" .null ["g", "f", "main"]), m')
      ∧ Run.ahead m.linked m.limits .run n ⟨m.state, 0, m.moved⟩ = some last
      ∧ tick m.linked m.limits .run last
        = .stopped (.failed (.uncaught "null" .null ["g", "f", "main"]) s)
      ∧ (throwingDeep.activeSections last.state.stack.slots).map throwingDeep.sectionName
        = ["g", "f", "main"]
      ∧ (throwingDeep.activeSections last.state.stack.slots).getLast? = some 0 := by
  have hverify : throwingDeep.verify = .ok () := by cbv
  have hplace : throwingDeep.placeAfter 5 = some (⟨2, 1⟩, deepStack) := by cbv
  obtain ⟨m, hload, hsession⟩ := session_callStack throwingDeep hverify {}
  obtain ⟨m', hfails⟩ : ∃ m', m.apply (.run 6)
      = some (.error (.uncaught "null" .null ["g", "f", "main"]), m') := by
    unfold Program.placeAfter at hplace
    rw [hload] at hplace
    obtain ⟨⟨⟨loc, env, stack, heap, events⟩, cycles, moved⟩, hahead, heq⟩ :=
      Option.map_eq_some_iff.mp hplace
    obtain ⟨rfl, hslots⟩ := Prod.mk.inj heq
    obtain rfl : stack = .of _ := stack.eq_of.trans (congrArg Stack.of hslots)
    obtain ⟨table, -, hm⟩ := Machine.load_ok hload
    obtain ⟨s, hthrow⟩ := throwingDeep_throws table env heap events cycles moved
    have hmode : m.mode = .paused := by rw [hm]
    have hlinked : m.linked = ⟨throwingDeep, table, ⟨0⟩, []⟩ ∧ m.limits = {} := by
      rw [hm]
      exact ⟨rfl, rfl⟩
    rw [← hlinked.1, ← hlinked.2] at hthrow
    exact ⟨_, Machine.apply_run_failed hmode (runFor_of_ahead hahead hthrow)⟩
  obtain ⟨drive, first, base, n, last, s, hstarts, hlast, htick, hframes, hbase⟩ :=
    (hsession [] m rfl).2.2 _ _ _ _ _ hfails
  cases hstarts
  exact ⟨hverify, m, m', n, last, s, hload, hfails, hlast, htick, hframes.symm, hbase⟩

end ScriptMachine
