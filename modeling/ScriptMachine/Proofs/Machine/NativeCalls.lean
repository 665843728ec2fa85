import ScriptMachine.Proofs.Machine.Moves
import ScriptMachine.Proofs.Machine.Statements

/-!
# Two ways to call by a name

A call by a name fetches what the name stands for and then calls it.  A function of the host can be
called by the fetch already, which leaves the result marked on the stack for the CALL.  It makes no
difference.

* `callee?`             what a called name stands for;
* `Linked.shows`        what a call shows to the outside by itself;
* `Alike`               results that a script cannot tell apart;
* `callNative_eq`       a function of the host does the same from everywhere;
* `throwValue_alike`    so does a thrown value;
* `callValue_shows`     a call of any value;
* `InSession`           what sessions of compiled programs come to;
* `fetch_call_alike`    the two ways.
-/

namespace ScriptMachine

open Exec

/-- what a called name stands for, if it stands for anything -/
def callee? (linked : Linked) (s : State) (name : String) : Option Value :=
  (lookupScript? linked s name).or (if linked.hasNative name then some (.native name) else none)

/-- does the host have a function of this name that throws when it gets these arguments? -/
def Linked.Throws (linked : Linked) (heap : Heap) (name : String) (args : List Value) : Prop :=
  ∃ native thrown, linked.native? name = some native
    ∧ native (args.map (linked.program.toHost heap)) = .error thrown

/-- What a call shows to the outside by itself, the latest first.  Functions of the host are given
their arguments in the order of the call. -/
def Linked.shows (linked : Linked) (heap : Heap) (callee : Value) (args : List Value) : List Event :=
  match callee with
  | .native name =>
    if (linked.native? name).isSome then [.called name (args.map (linked.program.toHost heap))]
    else if name = Linked.printName then [.printed (" ".intercalate (args.map heap.text))]
    else []
  | _ => []

/-- the state after an instruction, also if it fails -/
def resultState {α : Type} : EStateM.Result RuntimeError State α → State
  | .ok _ s => s
  | .error _ s => s

/-- The same result in the same state, or the same error on the same heap after the same events. -/
inductive Alike {α : Type} : (r r' : EStateM.Result RuntimeError State α) → Prop
  | ok {a : α} {s : State} : Alike (.ok a s) (.ok a s)
  | error {e : RuntimeError} {s s' : State} (hheap : s.heap = s'.heap)
      (hevents : s.events = s'.events) : Alike (.error e s) (.error e s')

section
variable {linked : Linked} {s s' : State} {name : String} {callee v : Value} {args : List Value}
  {below : List Slot}

theorem Alike.refl {α : Type} (r : EStateM.Result RuntimeError State α) : Alike r r := by
  cases r with
  | ok a s => exact .ok
  | error e s => exact .error rfl rfl

/-- the end of an instruction makes no difference -/
theorem Alike.proceed {x y : Exec Unit} (h : Alike (x linked s) (y linked s')) :
    Alike ((do x; pure Signal.proceed : Exec Signal) linked s)
      ((do y; pure Signal.proceed : Exec Signal) linked s') := by
  cases hx : x linked s with
  | ok a t =>
    cases hy : y linked s' with
    | ok a' t' =>
      rw [hx, hy] at h
      cases h
      rw [bind_ok hx, bind_ok hy]
      exact .ok
    | error e' t' =>
      rw [hx, hy] at h
      cases h
  | error e t =>
    cases hy : y linked s' with
    | ok a' t' =>
      rw [hx, hy] at h
      cases h
    | error e' t' =>
      rw [hx, hy] at h
      cases h with
      | error hheap hevents =>
        rw [bind_error hx, bind_error hy]
        exact .error hheap hevents

theorem error_of_proceed {x : Exec Unit} {e : RuntimeError}
    (h : (do x; pure Signal.proceed : Exec Signal) linked s = .error e s') : x linked s = .error e s' := by
  cases hx : x linked s with
  | ok a t =>
    rw [bind_ok hx] at h
    cases h
  | error e' t =>
    rw [bind_error hx] at h
    cases h
    rfl

theorem resultState_proceed (x : Exec Unit) :
    resultState ((do x; pure Signal.proceed : Exec Signal) linked s) = resultState (x linked s) := by
  cases hx : x linked s with
  | ok a t =>
    rw [bind_ok hx]
    rfl
  | error e t =>
    rw [bind_error hx]
    rfl

theorem Alike.ok_eq {α : Type} {a : α} {r : EStateM.Result RuntimeError State α}
    (h : Alike r (.ok a s)) : r = .ok a s := by
  cases h
  rfl

/-! ## throwing -/

theorem events_throwValue (v : Value) (s : State) :
    (resultState (throwValue v linked s)).events = s.events := by
  rw [throwValue_eq]
  cases s.stack.unwindThrow <;> rfl

theorem throwValue_error {e : RuntimeError} (h : throwValue v linked s = .error e s') :
    e.isScriptError = true := by
  rw [throwValue_eq] at h
  cases hunwind : s.stack.unwindThrow with
  | caught region rest =>
    rw [hunwind] at h
    cases h
  | reachedHost site callers rest =>
    rw [hunwind] at h
    cases h
    rfl
  | uncaught callers =>
    rw [hunwind] at h
    cases h
    rfl

/-- A value can be thrown from anywhere in a section. -/
theorem throwValue_alike (v : Value) {loc loc' : Location} (hloc : loc.sectionIndex = loc'.sectionIndex)
    (env : EnvId) (stack : Stack) (heap : Heap) (events : List Event) :
    Alike (throwValue v linked ⟨loc, env, stack, heap, events⟩)
      (throwValue v linked ⟨loc', env, stack, heap, events⟩) := by
  have hname : linked.sectionName loc = linked.sectionName loc' := by
    unfold Linked.sectionName
    rw [hloc]
  rw [throwValue_eq, throwValue_eq]
  dsimp only
  cases stack.unwindThrow with
  | caught region rest => exact .ok
  | reachedHost site callers rest =>
    dsimp only
    rw [List.map_cons, List.map_cons, hname]
    exact .refl _
  | uncaught callers =>
    dsimp only
    rw [List.map_cons, List.map_cons, hname]
    exact .error rfl rfl

/-! ## functions of the host -/

theorem shows_registered {native : Native} (h : linked.native? name = some native) (heap : Heap)
    (args : List Value) : linked.shows heap (.native name) args
      = [.called name (args.map (linked.program.toHost heap))] := by
  unfold Linked.shows
  dsimp only
  rw [h]
  exact if_pos rfl

theorem shows_other (h : linked.native? name = none) (heap : Heap) (args : List Value) :
    linked.shows heap (.native name) args
      = if name = Linked.printName then [.printed (" ".intercalate (args.map heap.text))] else [] := by
  unfold Linked.shows
  dsimp only
  rw [h]
  exact if_neg nofun

/-- A function of the host only sees its arguments.  It leaves a result or a value to throw, a heap,
and what it shows. -/
theorem callNative_eq (linked : Linked) (name : String) (args : List Value) (heap : Heap)
    (events : List Event) : ∃ outcome heap',
      (∀ loc env stack, callNative name args linked ⟨loc, env, stack, heap, events⟩
        = .ok outcome ⟨loc, env, stack, heap', linked.shows heap (.native name) args ++ events⟩)
      ∧ (linked.hasNative name = true →
        (∃ v, outcome = .ok v ∧ ¬ linked.Throws heap name args)
        ∨ ∃ v, outcome = .error v ∧ linked.Throws heap name args) := by
  unfold Linked.hasNative Linked.Throws
  cases hnative : linked.native? name with
  | some native =>
    rw [shows_registered hnative]
    cases hgives : native (args.map (linked.program.toHost heap)) with
    | ok result =>
      let given := linked.program.fromHost linked.global result heap
      refine ⟨.ok given.1, given.2, fun loc env stack => ?_, fun _ => .inl ⟨_, rfl, ?_⟩⟩
      · refine (callNative_some hnative args).trans ?_
        rw [hgives]
        rfl
      · rintro ⟨_, thrown, ⟨⟩, hthrown⟩
        rw [hgives] at hthrown
        cases hthrown
    | error thrown =>
      let given := linked.program.fromHost linked.global thrown heap
      refine ⟨.error given.1, given.2, fun loc env stack => ?_,
        fun _ => .inr ⟨_, rfl, native, thrown, rfl, hgives⟩⟩
      refine (callNative_some hnative args).trans ?_
      rw [hgives]
      rfl
  | none =>
    rw [shows_other hnative]
    by_cases hname : name = Linked.printName
    · refine ⟨.ok .undefined, heap, fun loc env stack => ?_, fun _ => .inl ⟨_, rfl, ?_⟩⟩
      · rw [if_pos hname]
        refine (callNative_none hnative args).trans ?_
        rw [if_pos hname]
        rfl
      · rintro ⟨_, _, ⟨⟩, -⟩
    · refine ⟨.error (notAFunction name), heap, fun loc env stack => ?_, fun hhas => ?_⟩
      · rw [if_neg hname]
        refine (callNative_none hnative args).trans ?_
        rw [if_neg hname]
        rfl
      · rw [Option.isSome_none, Bool.false_or, decide_eq_true_iff] at hhas
        exact absurd hhas hname

/-! ## calls -/

/-- a called value is on its arguments -/
def State.calling (s : State) (callee : Value) (args : List Value) (below : List Slot) : State :=
  { s with stack := .of (.value callee :: (args.map .value ++ below)) }

/-- what a thrown value shows, and how it fails -/
theorem throwValue_shows (v : Value) (s : State) :
    (resultState (throwValue v linked s)).events = s.events
      ∧ ∀ e s', throwValue v linked s = .error e s' → e.isScriptError = true
        ∨ ∃ index, callee = .function index ∧ linked.program.functions[index]? = none :=
  ⟨events_throwValue v s, fun _ _ h => .inl (throwValue_error h)⟩

/-- What a call shows, and how it fails. -/
theorem callValue_shows (linked : Linked) (callee : Value) (args : List Value) (below : List Slot)
    (s : State) :
    (resultState (callValue args.length false linked (s.calling callee args below))).events
        = linked.shows s.heap callee args ++ s.events
      ∧ ∀ e s', callValue args.length false linked (s.calling callee args below) = .error e s' →
        e.isScriptError = true
          ∨ ∃ index, callee = .function index ∧ linked.program.functions[index]? = none := by
  cases callee with
  | function index =>
    cases hentry : linked.program.functions[index]? with
    | some entry =>
      rw [show callValue args.length false linked (s.calling (.function index) args below) = _ from
        callValue_function hentry args none below s]
      exact ⟨rfl, nofun⟩
    | none =>
      have hcall : callValue args.length false linked (s.calling (.function index) args below)
          = .error _ _ :=
        (bind_ok (popValues_of args below s) _).trans (enterFunction_none hentry args none false _)
      rw [hcall]
      exact ⟨rfl, fun e s' _ => .inr ⟨index, rfl, hentry⟩⟩
  | native name =>
    obtain ⟨outcome, heap, hcall, -⟩ := callNative_eq linked name args s.heap s.events
    rw [State.calling, callValue_native (hcall s.location s.env (.of below))]
    cases outcome with
    | ok v => exact ⟨rfl, nofun⟩
    | error v => exact throwValue_shows v _
  | _ =>
    rw [State.calling, callValue_other]
    · exact throwValue_shows _ _
    · exact fun _ => nofun
    · exact fun _ => nofun

/-! ## the two ways -/

/-- fetching the callee and calling it -/
theorem execute_fetchVariable (hcallee : callee? linked s name = some callee)
    (hstack : s.stack.slots = args.map .value ++ below) :
    execute linked (.fetch name .variable) s = .ok .proceed (s.next.calling callee args below) := by
  have hpush : push callee linked s.next = .ok () (s.next.calling callee args below) := by
    rw [State.calling, ← hstack]
    exact congrArg (fun stack => EStateM.Result.ok () { s.next with stack := stack })
      (Stack.eq_of (s.stack.push (.value callee)))
  refine bind_ok (.trans ?_ hpush) _
  cases hlook : lookupScript? linked s name with
  | some v =>
    rw [callee?, hlook] at hcallee
    cases hcallee
    exact fetchVariable_some hlook
  | none =>
    rw [callee?, hlook, Option.none_or] at hcallee
    refine (fetchVariable_none (s := s.next) hlook).trans ?_
    split at hcallee
    · next hhas =>
      cases hcallee
      rw [if_pos hhas]
    · cases hcallee

/-- a name of the script is fetched in the same way for a call -/
theorem execute_fetchCallee_script (hlook : lookupScript? linked s name = some v) (argc : Nat) :
    execute linked (.fetch name (.callVariable argc)) s = execute linked (.fetch name .variable) s :=
  bind_same ((fetchCallee_some (s := s.next) hlook).trans
    (fetchVariable_some (s := s.next) hlook).symm) _

/-- a function of the host is called by the fetch -/
theorem execute_fetchCallee_native (hlook : lookupScript? linked s name = none)
    (hhas : linked.hasNative name = true) (hstack : s.stack.slots = args.map .value ++ below)
    {outcome : Except Value Value} {s' : State}
    (hcall : callNative name args linked { s.next with stack := .of below } = .ok outcome s') :
    execute linked (.fetch name (.callVariable args.length)) s
      = (do answer pushResult outcome; pure Signal.proceed : Exec Signal) linked s' := by
  have hstack' : { s.next with stack := .of (args.map .value ++ below) } = s.next := by
    rw [← hstack, ← Stack.eq_of]
    rfl
  have hargs : popValues args.length linked { s.next with stack := .of (args.map .value ++ below) }
      = .ok args { s.next with stack := .of below } := popValues_of args below s.next
  rw [hstack'] at hargs
  exact bind_same (fetchCallee_native (s := s.next) hlook hhas hargs hcall) _

/-- The two ways to call a function of the host.  If it throws, the CALL is not reached. -/
theorem fetch_call_native (hlook : lookupScript? linked s name = none)
    (hhas : linked.hasNative name = true) (hstack : s.stack.slots = args.map .value ++ below) :
    (¬ linked.Throws s.heap name args →
      ∃ s₂, execute linked (.fetch name (.callVariable args.length)) s = .ok .proceed s₂
        ∧ s₂.location = s.next.location
        ∧ Alike (execute linked (.call args.length false) s₂)
          (execute linked (.call args.length false) (s.next.calling (.native name) args below)))
    ∧ (linked.Throws s.heap name args →
      Alike (execute linked (.fetch name (.callVariable args.length)) s)
        (execute linked (.call args.length false) (s.next.calling (.native name) args below))) := by
  obtain ⟨outcome, heap, hcall, hthrows⟩ := callNative_eq linked name args s.heap s.events
  have hfused := execute_fetchCallee_native hlook hhas hstack
    (hcall s.next.location s.env (.of below))
  have hcall' : callNative name args linked { s.next.next with stack := .of below } = .ok outcome _ :=
    hcall s.next.next.location s.env (.of below)
  have hplain : execute linked (.call args.length false) (s.next.calling (.native name) args below)
      = (do answer push outcome; pure Signal.proceed : Exec Signal) linked
        ⟨s.next.next.location, s.env, .of below, heap, linked.shows s.heap (.native name) args ++ s.events⟩ :=
    bind_same (callValue_native hcall') _
  rw [hfused, hplain]
  rcases hthrows hhas with ⟨v, rfl, hnot⟩ | ⟨v, rfl, hthrow⟩
  · exact ⟨fun _ => ⟨_, rfl, rfl, .ok⟩, fun h => absurd h hnot⟩
  · have hsection : s.next.location.sectionIndex = s.next.next.location.sectionIndex := rfl
    exact ⟨fun h => absurd hthrow h, fun _ => (throwValue_alike v hsection _ _ _ _).proceed⟩

end

/-! ## functions that are not in the table -/

/-- a state that some session with a machine of a compiled program comes to -/
inductive InSession (linked : Linked) (s : State) : Prop where
  | intro {text : String} {program : Program} {limits : Limits} {m₀ m : Machine} {ops : List HostOp}
      {drive : Drive} {first last : Run} {n : Nat} (hcompiled : compileSource text = .ok program)
      (hload : Machine.load program limits = .ok m₀) (hops : m₀.after ops = some m)
      (hfirst : m.Enters drive first) (hlast : first.ahead m.linked m.limits drive n = some last)
      (hlinked : m.linked = linked) (hstate : last.state = s)

/-- Whatever a name stands for in a session, if it is a function of the program, that is in the table. -/
theorem InSession.callee_listed {linked : Linked} {s : State} (h : InSession linked s) {name : String}
    {index : Nat} (hcallee : callee? linked s name = some (.function index)) :
    linked.program.functions[index]? ≠ none := by
  obtain ⟨hcompiled, hload, hops, hfirst, hlast, rfl, rfl⟩ := h
  obtain ⟨tokens, body, -, hprogram⟩ := compileSource_ok hcompiled
  obtain ⟨code, b, hcode, rfl⟩ := compileProgram_ok hprogram
  obtain ⟨table, T, hshape, -⟩ := wellShaped_of_compiled hcode rfl rfl _
  obtain ⟨table', htable, rfl⟩ := Machine.load_ok hload
  obtain rfl : table = table' := Except.ok.inj (hshape.labels.symm.trans htable)
  have hok := (Machine.Ok.loaded hshape (tabled_of_compiled hcode _) _).after hops
  have hsound := ahead_sound hok.shaped hok.tabled (hok.enters hfirst) hlast
  rcases Option.or_eq_some_iff.mp hcallee with hlook | ⟨-, hnative⟩
  · have hknown := known_lookupScript hok.tabled hsound.here.heap hlook
    exact fun hnone => absurd hknown (Nat.not_lt.mpr (Array.getElem?_eq_none_iff.mp hnone))
  · split at hnative <;> cases hnative

/-- **A call by a name is fetching and calling.**  Take any state in which so many values are on top of
the stack, and any name that stands for something.  The FETCH of a call and the CALL behind it come to the
same as the plain FETCH and the CALL: the same state, or the same error on the same heap after the same
events.  If the name stands for a function of the host and that throws, the FETCH does it alone.  What the
call shows is at most that a function of the host was called, once and with the arguments in their order.
Whatever fails fails for the script, but for a function value that is not in the table of functions,
which no session with a compiled program comes to. -/
theorem fetch_call_alike (linked : Linked) (s : State) (name : String) (callee : Value)
    (args : List Value) (below : List Slot) (hcallee : callee? linked s name = some callee)
    (hstack : s.stack.slots = args.map .value ++ below) :
    ∃ s₁, execute linked (.fetch name .variable) s = .ok .proceed s₁
      ∧ s₁.location = s.next.location
      ∧ (¬ (lookupScript? linked s name = none ∧ linked.Throws s.heap name args) →
        ∃ s₂, execute linked (.fetch name (.callVariable args.length)) s = .ok .proceed s₂
          ∧ s₂.location = s.next.location
          ∧ Alike (execute linked (.call args.length false) s₂)
            (execute linked (.call args.length false) s₁))
      ∧ (lookupScript? linked s name = none ∧ linked.Throws s.heap name args →
        Alike (execute linked (.fetch name (.callVariable args.length)) s)
          (execute linked (.call args.length false) s₁))
      ∧ (resultState (execute linked (.call args.length false) s₁)).events
        = linked.shows s.heap callee args ++ s.events
      ∧ ∀ e s', execute linked (.call args.length false) s₁ = .error e s' → e.isScriptError = true
        ∨ ¬ InSession linked s
          ∧ ∃ index, callee = .function index ∧ linked.program.functions[index]? = none := by
  have hfetch := execute_fetchVariable hcallee hstack
  have hshows := callValue_shows linked callee args below s.next.next
  have hcall : execute linked (.call args.length false) (s.next.calling callee args below)
      = (do callValue args.length false; pure Signal.proceed : Exec Signal) linked
        (s.next.next.calling callee args below) := rfl
  have hends : (resultState (execute linked (.call args.length false)
      (s.next.calling callee args below))).events = linked.shows s.heap callee args ++ s.events := by
    rw [hcall, resultState_proceed]
    exact hshows.1
  have hfails : ∀ e s', execute linked (.call args.length false) (s.next.calling callee args below)
      = .error e s' → e.isScriptError = true ∨ ¬ InSession linked s
        ∧ ∃ index, callee = .function index ∧ linked.program.functions[index]? = none := by
    intro e s' h
    rw [hcall] at h
    refine (hshows.2 e s' (error_of_proceed h)).imp_right ?_
    rintro ⟨index, rfl, hnone⟩
    exact ⟨fun hsession => hsession.callee_listed hcallee hnone, index, rfl, hnone⟩
  cases hlook : lookupScript? linked s name with
  | some v =>
    -- the name belongs to the script, and the two fetches are the same
    have hsame := (execute_fetchCallee_script hlook args.length).trans hfetch
    exact ⟨_, hfetch, rfl, fun _ => ⟨_, hsame, rfl, .refl _⟩, nofun, hends, hfails⟩
  | none =>
    rw [callee?, hlook, Option.none_or] at hcallee
    split at hcallee
    · next hhas =>
      cases hcallee
      obtain ⟨hgoes, hthrows⟩ := fetch_call_native hlook hhas hstack
      exact ⟨_, hfetch, rfl, fun h => hgoes fun hthrow => h ⟨rfl, hthrow⟩, fun h => hthrows h.2, hends,
        hfails⟩
    · cases hcallee

/-- a machine with a function of the host that throws whatever it is given -/
def pickyLinked : Linked :=
  ⟨⟨#[], #[], #[], [], ⟨#[], ""⟩, []⟩, {}, ⟨0⟩, [("picky", fun _ => .error .null)]⟩

/-- an argument of a call in a function that was called in a region -/
def pickyState : State :=
  ⟨⟨1, 3⟩, ⟨0⟩, .of [.value .null, .callSite ⟨⟨0, 4⟩, ⟨0⟩, 0, false⟩, .tryRegion ⟨⟨0, 9⟩, ⟨0⟩⟩],
    (Heap.empty.newGlobal).2, []⟩

/-- both ways lead to the handler, after the one call -/
theorem fetch_call_alike_picky :
    callee? pickyLinked pickyState "picky" = some (.native "picky")
      ∧ pickyLinked.Throws pickyState.heap "picky" [.null]
      ∧ ∃ s₁ s', execute pickyLinked (.fetch "picky" .variable) pickyState = .ok .proceed s₁
        ∧ execute pickyLinked (.call 1 false) s₁ = .ok .proceed s'
        ∧ execute pickyLinked (.fetch "picky" (.callVariable 1)) pickyState = .ok .proceed s'
        ∧ s'.location = ⟨0, 9⟩ ∧ s'.stack.slots = [.value .null]
        ∧ s'.events = [.called "picky" [.null]] := by
  have hlook : lookupScript? pickyLinked pickyState "picky" = none := by cbv
  have hcallee : callee? pickyLinked pickyState "picky" = some (.native "picky") := by cbv
  have hthrows : pickyLinked.Throws pickyState.heap "picky" [.null] := ⟨_, .null, rfl, rfl⟩
  have hstack : pickyState.stack.slots = [Value.null].map .value
    ++ [.callSite ⟨⟨0, 4⟩, ⟨0⟩, 0, false⟩, .tryRegion ⟨⟨0, 9⟩, ⟨0⟩⟩] := rfl
  obtain ⟨s₁, hfetch, -, -, halike, -, -⟩ :=
    fetch_call_alike pickyLinked pickyState "picky" (.native "picky") [.null] _ hcallee hstack
  cases (execute_fetchVariable hcallee hstack).symm.trans hfetch
  exact ⟨hcallee, hthrows, _, _, hfetch, rfl, (halike ⟨hlook, hthrows⟩).ok_eq, rfl, rfl, rfl⟩

end ScriptMachine
