import ScriptMachine.Proofs.Machine.Safe

/-!
# What is below a call does not matter

While a function runs, its call site stands somewhere on the stack.  What an instruction does above
the call site does not depend on the call site or on what is below it.  Only a return and a thrown
value get past it.

* `Upper`               what a run has above a call site;
* `Quiet`               a step that stays above the call site, or fails;
* `Local`               a step that may also throw a value past the call site;
* `local_perform`       instructions are local;
* `Course`              how an instruction goes on above a call site;
* `course_execute`      every instruction has its course, whatever is below.

`PICK` is the exception: it may look at an entry below the call site, but it does not change it.
-/

namespace ScriptMachine

/-! ## above a call site -/

/-- What a run has above a call site.  The host made no call there. -/
structure Upper where
  location : Location
  env : EnvId
  slots : List Slot
  heap : Heap
  events : List Event
  inner : ∀ site, .callSite site ∈ slots → site.fromHost = false

namespace Upper

/-- the state, if the call site stands on `below` -/
def on (u : Upper) (site : CallSite) (below : List Slot) : State :=
  ⟨u.location, u.env, .of (u.slots ++ .callSite site :: below), u.heap, u.events⟩

/-- the state with nothing below -/
def bare (u : Upper) : State := ⟨u.location, u.env, .of u.slots, u.heap, u.events⟩

/-- a thrown value gets to what is below, through the frames of some callers -/
def Passed (u : Upper) : Prop :=
  ∃ callers : List Location, ∀ tail,
    (Stack.of (u.slots ++ tail)).unwindThrow = callers.foldr Unwound.through (Stack.of tail).unwindThrow

/-- one more entry -/
def push (u : Upper) (slot : Slot) (h : Exec.callSite? slot = none) : Upper :=
  { u with
    slots := slot :: u.slots
    inner := by
      intro site hsite
      rcases List.mem_cons.mp hsite with rfl | hsite
      · cases h
      · exact u.inner site hsite }

/-- only the lowest entries -/
def keep (u : Upper) (slots : List Slot) (h : slots <:+ u.slots) : Upper :=
  { u with slots := slots, inner := fun site hsite => u.inner site (h.subset hsite) }

end Upper

/-- what a step comes to above a call site -/
inductive Above (α : Type) where
  | ok (a : α) (u : Upper)
  | failed (cause : Defect) (u : Upper)
  /-- it fails because it took the call site itself -/
  | sunk (cause : Defect) (u : Upper)

def Above.on {α : Type} (site : CallSite) (below : List Slot) :
    Above α → EStateM.Result RuntimeError State α
  | .ok a u => .ok a (u.on site below)
  | .failed cause u => .error (Exec.defectAt u.bare cause) (u.on site below)
  | .sunk cause u =>
    .error (Exec.defectAt u.bare cause) { u.on site below with stack := .of below }

/-- a step that stays above the call site, or fails -/
def Quiet {α : Type} (linked : Linked) (x : Exec α) : Prop :=
  ∀ u : Upper, ∃ r : Above α, ∀ site below, x linked (u.on site below) = r.on site below

/-- a step that stays above the call site, fails, or throws a value that nothing there catches -/
def Local (linked : Linked) (x : Exec Unit) : Prop :=
  ∀ u : Upper,
    (∃ r : Above Unit, ∀ site below, x linked (u.on site below) = r.on site below)
    ∨ ∃ (v : Value) (u' : Upper), u'.Passed ∧ ∀ site below,
      x linked (u.on site below) = Exec.throwValue v linked (u'.on site below)

section
variable {α β : Type} {linked : Linked}

/-- what comes behind a step that stays above the call site -/
theorem bind_above {x : Exec α} {u : Upper} (r : Above α) (f : α → Exec β) :
    (∀ site below, x linked (u.on site below) = r.on site below) → ∀ site below,
      (x >>= f) linked (u.on site below) = match r with
        | .ok a u' => f a linked (u'.on site below)
        | .failed cause u' => (Above.failed cause u' : Above β).on site below
        | .sunk cause u' => (Above.sunk cause u' : Above β).on site below := by
  intro hr site below
  cases r with
  | ok a u' => exact Exec.bind_ok (hr site below) f
  | failed cause u' => exact Exec.bind_error (hr site below) f
  | sunk cause u' => exact Exec.bind_error (hr site below) f

namespace Quiet

theorem pure (a : α) : Quiet linked (Pure.pure a) := fun u => ⟨.ok a u, fun _ _ => rfl⟩

theorem bind {x : Exec α} {f : α → Exec β} (hx : Quiet linked x) (hf : ∀ a, Quiet linked (f a)) :
    Quiet linked (x >>= f) := by
  intro u
  obtain ⟨r, hr⟩ := hx u
  have hbind := bind_above r f hr
  cases r with
  | ok a u' =>
    obtain ⟨r', hr'⟩ := hf a u'
    exact ⟨r', fun site below => (hbind site below).trans (hr' site below)⟩
  | failed cause u' => exact ⟨.failed cause u', hbind⟩
  | sunk cause u' => exact ⟨.sunk cause u', hbind⟩

theorem map (g : α → β) {x : Exec α} (hx : Quiet linked x) : Quiet linked (g <$> x) := by
  rw [← bind_pure_comp]
  exact bind hx fun a => pure (g a)

theorem read {f : Linked → Exec β} (h : Quiet linked (f linked)) :
    Quiet linked (MonadReader.read >>= f) := h

/-- a step that reads of the state only what is above the call site -/
theorem get {f : State → Exec β} (hf : ∀ u : Upper, Quiet linked (f u.bare))
    (hbare : ∀ u site below, f (Upper.on u site below) = f u.bare := by intros; rfl) :
    Quiet linked (MonadState.get >>= f) := by
  intro u
  obtain ⟨r, hr⟩ := hf u u
  refine ⟨r, fun site below => ?_⟩
  show f (u.on site below) linked (u.on site below) = _
  rw [hbare, hr]

end Quiet

namespace Local

theorem ofQuiet {x : Exec Unit} (hx : Quiet linked x) : Local linked x := fun u => .inl (hx u)

theorem bind {x : Exec α} {f : α → Exec Unit} (hx : Quiet linked x) (hf : ∀ a, Local linked (f a)) :
    Local linked (x >>= f) := by
  intro u
  obtain ⟨r, hr⟩ := hx u
  have hbind := bind_above r f hr
  cases r with
  | ok a u' =>
    rcases hf a u' with ⟨r', hr'⟩ | ⟨v, u'', hpass, hthrow⟩
    · exact .inl ⟨r', fun site below => (hbind site below).trans (hr' site below)⟩
    · exact .inr ⟨v, u'', hpass, fun site below => (hbind site below).trans (hthrow site below)⟩
  | failed cause u' => exact .inl ⟨.failed cause u', hbind⟩
  | sunk cause u' => exact .inl ⟨.sunk cause u', hbind⟩

theorem read {f : Linked → Exec Unit} (h : Local linked (f linked)) :
    Local linked (MonadReader.read >>= f) := h

theorem get {f : State → Exec Unit} (hf : ∀ u : Upper, Local linked (f u.bare))
    (hbare : ∀ u site below, f (Upper.on u site below) = f u.bare := by intros; rfl) :
    Local linked (MonadState.get >>= f) := by
  intro u
  have hget (site : CallSite) (below : List Slot) :
      (MonadState.get >>= f) linked (u.on site below) = f u.bare linked (u.on site below) := by
    rw [← hbare u site below]
    rfl
  rcases hf u u with ⟨r, hr⟩ | ⟨v, u', hpass, hthrow⟩
  · exact .inl ⟨r, fun site below => (hget site below).trans (hr site below)⟩
  · exact .inr ⟨v, u', hpass, fun site below => (hget site below).trans (hthrow site below)⟩

end Local

/-! ## unwinding -/

namespace Stack

/-- an entry is found above, or what is below decides -/
theorem unwind_upper (wanted : Slot → Option α) (slots : List Slot) :
    (∃ a rest, (∃ slot ∈ slots, wanted slot = some a) ∧ rest <:+ slots ∧ ∀ tail,
      (of (slots ++ tail)).unwind wanted = some (a, of (rest ++ tail)))
    ∨ ((∀ slot ∈ slots, wanted slot = none)
      ∧ ∀ tail, (of (slots ++ tail)).unwind wanted = (of tail).unwind wanted) := by
  induction slots with
  | nil => exact .inr ⟨nofun, fun _ => rfl⟩
  | cons slot slots ih =>
    cases hslot : wanted slot with
    | some a =>
      refine .inl ⟨a, slots, ⟨slot, List.mem_cons_self, hslot⟩, List.suffix_cons _ _, fun tail => ?_⟩
      rw [List.cons_append, unwind_cons, hslot]
    | none =>
      rcases ih with ⟨a, rest, ⟨slot', hmem, hwanted⟩, hrest, h⟩ | ⟨hnone, h⟩
      · refine .inl ⟨a, rest, ⟨slot', List.mem_cons_of_mem _ hmem, hwanted⟩,
          hrest.trans (List.suffix_cons _ _), fun tail => ?_⟩
        rw [List.cons_append, unwind_cons, hslot]
        exact h tail
      · refine .inr ⟨List.forall_mem_cons.mpr ⟨hslot, hnone⟩, fun tail => ?_⟩
        rw [List.cons_append, unwind_cons, hslot]
        exact h tail

/-- a handler is found above, or a thrown value gets to what is below, through some frames -/
theorem unwindThrow_upper (slots : List Slot)
    (inner : ∀ site, .callSite site ∈ slots → site.fromHost = false) :
    (∃ region rest, rest <:+ slots ∧ ∀ tail,
      (of (slots ++ tail)).unwindThrow = .caught region (of (rest ++ tail)))
    ∨ ∃ callers : List Location, ∀ tail,
      (of (slots ++ tail)).unwindThrow = callers.foldr Unwound.through (of tail).unwindThrow := by
  induction slots with
  | nil => exact .inr ⟨[], fun _ => rfl⟩
  | cons slot slots ih =>
    have ih := ih fun site hsite => inner site (List.mem_cons_of_mem _ hsite)
    cases slot with
    | tryRegion region => exact .inl ⟨region, slots, List.suffix_cons _ _, fun _ => rfl⟩
    | callSite site =>
      have hsite := inner site List.mem_cons_self
      have hstep (tail : List Slot) : (of (.callSite site :: slots ++ tail)).unwindThrow
          = (of (slots ++ tail)).unwindThrow.through site.caller := by
        rw [List.cons_append, unwindThrow_site, if_neg (by rw [hsite]; exact Bool.false_ne_true)]
      rcases ih with ⟨region, rest, hrest, h⟩ | ⟨callers, h⟩
      · refine .inl ⟨region, rest, hrest.trans (List.suffix_cons _ _), fun tail => ?_⟩
        rw [hstep, h]
        rfl
      · refine .inr ⟨site.caller :: callers, fun tail => ?_⟩
        rw [hstep, h]
        rfl
    | value _ | loopMarker _ | nativeResult =>
      rcases ih with ⟨region, rest, hrest, h⟩ | ⟨callers, h⟩
      · exact .inl ⟨region, rest, hrest.trans (List.suffix_cons _ _), h⟩
      · exact .inr ⟨callers, h⟩

end Stack

/-! ## the steps that instructions are made of -/

namespace Exec

theorem quiet_fail (cause : Defect) : Quiet linked (fail cause : Exec α) := fun u =>
  ⟨.failed cause u, fun _ _ => rfl⟩

theorem quiet_pushSlot {slot : Slot} (h : callSite? slot = none) : Quiet linked (pushSlot slot) :=
  fun u => ⟨.ok () (u.push slot h), fun _ _ => rfl⟩

theorem quiet_push (v : Value) : Quiet linked (push v) := quiet_pushSlot rfl

theorem quiet_pushResult (v : Value) : Quiet linked (pushResult v) :=
  Quiet.bind (quiet_push v) fun _ => quiet_pushSlot rfl

theorem popSlot_cons (u : Upper) {slot : Slot} {slots : List Slot} (h : u.slots = slot :: slots)
    (site : CallSite) (below : List Slot) :
    popSlot linked (u.on site below)
      = .ok slot ((u.keep slots (by rw [h]; exact List.suffix_cons _ _)).on site below) := by
  obtain ⟨location, env, slots', heap, events, inner⟩ := u
  cases h
  rfl

theorem popSlot_nil (u : Upper) (h : u.slots = []) (site : CallSite) (below : List Slot) :
    popSlot linked (u.on site below)
      = .ok (.callSite site) { u.on site below with stack := .of below } := by
  obtain ⟨location, env, slots', heap, events, inner⟩ := u
  cases h
  rfl

/-- Taking the top entry is quiet, if call sites are refused. -/
theorem quiet_popSlot {f : Slot → Exec α} (cause : Defect)
    (hsite : ∀ site, f (.callSite site) = fail cause) (hf : ∀ slot, Quiet linked (f slot)) :
    Quiet linked (popSlot >>= f) := by
  intro u
  cases hslots : u.slots with
  | nil =>
    refine ⟨.sunk cause u, fun site below => ?_⟩
    rw [bind_ok (popSlot_nil u hslots site below), hsite]
    rfl
  | cons slot slots =>
    obtain ⟨r, hr⟩ := hf slot (u.keep slots (by rw [hslots]; exact List.suffix_cons _ _))
    exact ⟨r, fun site below =>
      (bind_ok (popSlot_cons u hslots site below) f).trans (hr site below)⟩

theorem local_popSlot {f : Slot → Exec Unit} (cause : Defect)
    (hsite : ∀ site, f (.callSite site) = fail cause) (hf : ∀ slot, Local linked (f slot)) :
    Local linked (popSlot >>= f) := by
  intro u
  cases hslots : u.slots with
  | nil =>
    refine .inl ⟨.sunk cause u, fun site below => ?_⟩
    rw [bind_ok (popSlot_nil u hslots site below), hsite]
    rfl
  | cons slot slots =>
    have hbind (site : CallSite) (below : List Slot) :
        (popSlot >>= f) linked (u.on site below)
          = f slot linked
            ((u.keep slots (by rw [hslots]; exact List.suffix_cons _ _)).on site below) :=
      bind_ok (popSlot_cons u hslots site below) f
    rcases hf slot (u.keep slots (by rw [hslots]; exact List.suffix_cons _ _)) with
      ⟨r, hr⟩ | ⟨v, u', hpass, hthrow⟩
    · exact .inl ⟨r, fun site below => (hbind site below).trans (hr site below)⟩
    · exact .inr ⟨v, u', hpass, fun site below => (hbind site below).trans (hthrow site below)⟩

theorem quiet_pop : Quiet linked pop := by
  refine quiet_popSlot (.expectedValue "call site") (fun _ => rfl) fun slot => ?_
  cases slot with
  | value v => exact Quiet.pure v
  | _ => exact quiet_fail _

theorem quiet_popValues (n : Nat) : Quiet linked (popValues n) := by
  induction n with
  | zero => exact Quiet.pure []
  | succ n ih =>
    refine Quiet.bind quiet_pop fun v => ?_
    exact Quiet.bind ih fun vs => Quiet.pure (v :: vs)

theorem quiet_peek : Quiet linked peek := by
  rintro ⟨location, env, slots, heap, events, inner⟩
  have hfailed (kind : String)
      (h : ∀ site below, peek linked (Upper.on ⟨location, env, slots, heap, events, inner⟩ site below)
        = (Above.failed (.expectedValue kind) ⟨location, env, slots, heap, events, inner⟩).on site
          below) :
      ∃ r : Above Value, ∀ site below,
        peek linked (Upper.on ⟨location, env, slots, heap, events, inner⟩ site below)
          = r.on site below := ⟨_, h⟩
  cases slots with
  | nil => exact hfailed "call site" fun _ _ => rfl
  | cons slot slots =>
    cases slot with
    | value v => exact ⟨.ok v ⟨location, env, _, heap, events, inner⟩, fun _ _ => rfl⟩
    | callSite _ => exact hfailed "call site" fun _ _ => rfl
    | tryRegion _ => exact hfailed "try region" fun _ _ => rfl
    | loopMarker _ => exact hfailed "loop marker" fun _ _ => rfl
    | nativeResult => exact hfailed "native result" fun _ _ => rfl

theorem quiet_resolve (label : Label) : Quiet linked (resolve label) := by
  refine Quiet.read ?_
  cases linked.labels.resolve? label with
  | some location => exact Quiet.pure location
  | none => exact quiet_fail _

theorem quiet_jump (label : Label) : Quiet linked (jump label) :=
  Quiet.bind (quiet_resolve label) fun location u =>
    ⟨.ok () { u with location := location }, fun _ _ => rfl⟩

theorem quiet_setEnv (env : EnvId) : Quiet linked (setEnv env) := fun u =>
  ⟨.ok () { u with env := env }, fun _ _ => rfl⟩

theorem quiet_modifyHeap (f : Heap → Heap) : Quiet linked (modifyHeap f) := fun u =>
  ⟨.ok () { u with heap := f u.heap }, fun _ _ => rfl⟩

theorem quiet_onHeap (f : Heap → α × Heap) : Quiet linked (onHeap f) := fun u =>
  ⟨.ok (f u.heap).1 { u with heap := (f u.heap).2 }, fun _ _ => rfl⟩

theorem quiet_note (event : Event) : Quiet linked (note event) := fun u =>
  ⟨.ok () { u with events := event :: u.events }, fun _ _ => rfl⟩

/-- a thrown value goes on above the call site, or gets past it -/
theorem local_throwValue (v : Value) : Local linked (throwValue v) := by
  intro u
  rcases Stack.unwindThrow_upper u.slots u.inner with ⟨region, rest, hrest, h⟩ | hpass
  · let caught : Upper := { u.keep rest hrest with location := region.handler, env := region.env }
    refine .inl ⟨.ok () (caught.push (.value v) rfl), fun site below => ?_⟩
    rw [throwValue_eq, show (u.on site below).stack = .of (u.slots ++ .callSite site :: below) from rfl,
      h]
    rfl
  · exact .inr ⟨v, u, hpass, fun _ _ => rfl⟩

/-! ## calls -/

theorem quiet_callNative (name : String) (args : List Value) :
    Quiet linked (callNative name args) := by
  have hfrom (v : HostValue) : Quiet linked (fromHost v) := quiet_onHeap _
  refine Quiet.read ?_
  cases linked.native? name with
  | some native =>
    refine Quiet.get (fun u => ?_)
    refine Quiet.bind (quiet_note _) fun _ => ?_
    split
    · exact Quiet.bind (hfrom _) fun v => Quiet.pure (Except.ok v)
    · exact Quiet.bind (hfrom _) fun v => Quiet.pure (Except.error v)
  | none =>
    dsimp only
    split
    · refine Quiet.get (fun u => ?_)
      exact Quiet.bind (quiet_note _) fun _ => Quiet.pure (Except.ok Value.undefined)
    · exact Quiet.pure _

theorem quiet_enterFunction (index : Nat) (args : List Value) (receiver : Option Value) :
    Quiet linked (enterFunction index args receiver false) := by
  refine Quiet.read ?_
  cases linked.program.functions[index]? with
  | none => exact quiet_fail _
  | some entry =>
    refine Quiet.bind (quiet_onHeap _) fun scope => ?_
    refine Quiet.bind (quiet_modifyHeap _) fun _ u => ?_
    let entered : Upper :=
      { u with
        location := ⟨entry.body, 0⟩
        env := scope
        slots := .callSite ⟨u.location, u.env, index, false⟩ :: u.slots
        inner := by
          intro site hsite
          rcases List.mem_cons.mp hsite with heq | hsite
          · cases heq
            rfl
          · exact u.inner site hsite }
    exact ⟨.ok () entered, fun _ _ => rfl⟩

/-- a result goes onto the stack, a thrown value to a handler -/
theorem local_either {found : Value → Exec Unit} (hfound : ∀ v, Quiet linked (found v))
    (r : Except Value Value) :
    Local linked (match r with
      | .ok result => found result
      | .error thrown => throwValue thrown) := by
  cases r with
  | ok v => exact .ofQuiet (hfound v)
  | error v => exact local_throwValue v

theorem local_fetchMethod (target : Value) (name : String) (argc : Nat) :
    Local linked (fetchMethod target name argc) := by
  refine Local.get (fun u => ?_)
  split
  · exact .ofQuiet (quiet_push _)
  · exact local_throwValue _
  · exact Local.bind (quiet_popValues argc) fun _ => local_throwValue _
  · refine Local.bind (quiet_popValues argc) fun args => ?_
    exact Local.bind (quiet_onHeap _) fun r => local_either quiet_pushResult r

theorem local_callNative (name : String) (args : List Value) {found : Value → Exec Unit}
    (hfound : ∀ v, Quiet linked (found v)) :
    Local linked (do
      match ← callNative name args with
      | .ok result => found result
      | .error thrown => throwValue thrown) :=
  Local.bind (quiet_callNative name args) fun r => local_either hfound r

theorem local_callValue (argc : Nat) (bound : Bool) : Local linked (callValue argc bound) := by
  refine local_popSlot (.callFound "call site") (fun _ => rfl) fun slot => ?_
  cases slot with
  | nativeResult =>
    refine .ofQuiet ?_
    cases bound with
    | false => exact Quiet.pure ()
    | true =>
      exact Quiet.bind quiet_pop fun result => Quiet.bind quiet_pop fun _ => quiet_push result
  | value v =>
    cases v with
    | function index =>
      refine .ofQuiet (Quiet.bind (quiet_popValues argc) fun args => ?_)
      cases bound with
      | false => exact quiet_enterFunction index args none
      | true =>
        exact Quiet.bind (Quiet.map some quiet_pop) fun receiver =>
          quiet_enterFunction index args receiver
    | native name =>
      refine Local.bind (quiet_popValues argc) fun args => ?_
      cases bound with
      | false => exact local_callNative name args quiet_push
      | true => exact Local.bind quiet_pop fun _ => local_callNative name args quiet_push
    | _ => exact Local.get fun u => local_throwValue _
  | _ => exact .ofQuiet (quiet_fail _)

/-! ## names, loops and objects -/

theorem local_fetch (name : String) (access : Access) : Local linked (fetch name access) := by
  refine Local.read ?_
  match access with
  | .variable =>
    refine Local.get (fun u => ?_)
    split <;> exact .ofQuiet (quiet_push _)
  | .callVariable argc =>
    refine Local.get (fun u => ?_)
    split
    · exact .ofQuiet (quiet_push _)
    · split
      · exact Local.bind (quiet_popValues argc) fun args =>
          local_callNative name args quiet_pushResult
      · exact local_throwValue _
  | .property =>
    refine Local.bind quiet_pop fun target => ?_
    exact Local.get fun u => local_either quiet_push _
  | .callProperty argc =>
    exact Local.bind quiet_pop fun target => local_fetchMethod target name argc

theorem quiet_storeVariable (name : String) (v : Value) : Quiet linked (storeVariable name v) :=
  fun u => ⟨.ok () { u with
    heap := u.heap.define ((u.heap.owner? u.env name).getD linked.global) name v }, fun _ _ => rfl⟩

theorem local_storeProperty (name : String) : Local linked (storeProperty name) := by
  refine Local.bind quiet_pop fun v => Local.bind quiet_pop fun target => ?_
  cases target with
  | object env => exact .ofQuiet (Quiet.bind (quiet_modifyHeap _) fun _ => quiet_push v)
  | _ => exact local_throwValue _

/-- where a loop goes on -/
theorem quiet_onward (target : Option Label) :
    Quiet linked (match target with
      | some label => jump label
      | none => pure () : Exec Unit) := by
  cases target with
  | some label => exact quiet_jump label
  | none => exact Quiet.pure ()

/-- the innermost loop is found above the call site, or none -/
theorem quiet_loopExit (target : Option Label) : Quiet linked (loopExit target) := by
  intro u
  have hstack (site : CallSite) (below : List Slot) :
      (u.on site below).stack = .of (u.slots ++ .callSite site :: below) := rfl
  rcases Stack.unwind_upper loopMarker? u.slots with ⟨a, rest, -, hrest, h⟩ | ⟨-, h⟩
  · cases a with
    | some env =>
      obtain ⟨r, hr⟩ := quiet_onward target
        (({ u.keep rest hrest with env := env } : Upper).push (.loopMarker env) rfl)
      refine ⟨r, fun site below => ?_⟩
      rw [← hr, loopExit_result, hstack, h]
      rfl
    | none =>
      refine ⟨.failed .loopExitOutsideLoop (u.keep rest hrest), fun site below => ?_⟩
      rw [loopExit_result, hstack, h]
      rfl
  · refine ⟨.sunk .loopExitOutsideLoop u, fun site below => ?_⟩
    rw [loopExit_result, hstack, h]
    rfl

theorem local_createObject (className : String) : Local linked (createObject className) := by
  refine Local.read ?_
  cases linked.program.class? className with
  | none => exact local_throwValue _
  | some entry =>
    refine .ofQuiet (Quiet.bind (quiet_onHeap _) fun env => ?_)
    exact Quiet.bind (quiet_modifyHeap _) fun _ => quiet_push _

/-! ## instructions -/

theorem quiet_leaveScope : Quiet linked (perform .leaveScope) := by
  refine Quiet.get (fun u => ?_)
  split
  · exact quiet_setEnv _
  · exact quiet_fail _

theorem quiet_jumpIf (test : Value → Bool) (label : Label) :
    Quiet linked (do if test (← pop) then jump label) := by
  refine Quiet.bind quiet_pop fun v => ?_
  split
  · exact quiet_jump label
  · exact Quiet.pure ()

/-- an entry above the call site is copied -/
theorem pick_upper {n : Nat} (u : Upper) (hn : n < u.slots.length) :
    ∃ r : Above Unit, ∀ site below, perform (.pick n) linked (u.on site below) = r.on site below := by
  have hpick (site : CallSite) (below : List Slot) :
      (u.on site below).stack.pick? n = u.bare.stack.pick? n := by
    have hslot : (u.on site below).stack.slots[n]? = u.bare.stack.slots[n]? :=
      List.getElem?_append_left hn
    unfold Stack.pick?
    rw [hslot]
  cases hv : u.bare.stack.pick? n with
  | some v =>
    exact ⟨.ok () (u.push (.value v) rfl), fun site below => pick_some ((hpick site below).trans hv)⟩
  | none =>
    exact ⟨.failed (.pickedNoValue n) u, fun site below => pick_none ((hpick site below).trans hv)⟩

/-- What an instruction does above a call site does not depend on what is below. -/
theorem local_perform {op : Op} (hpick : ∀ n, op ≠ .pick n) : Local linked (perform op) := by
  cases op with
  | const index =>
    refine .ofQuiet (Quiet.read ?_)
    split
    · exact quiet_push _
    · exact quiet_fail _
  | pop => exact .ofQuiet (Quiet.bind quiet_pop fun _ => Quiet.pure ())
  | dup => exact .ofQuiet (Quiet.bind quiet_peek fun v => quiet_push v)
  | pick n => exact absurd rfl (hpick n)
  | binary op =>
    refine .ofQuiet (Quiet.bind quiet_pop fun b => Quiet.bind quiet_pop fun a => ?_)
    exact Quiet.get fun u => quiet_push _
  | neg => exact .ofQuiet (Quiet.bind quiet_pop fun v => quiet_push _)
  | not => exact .ofQuiet (Quiet.bind quiet_pop fun v => quiet_push _)
  | jump label => exact .ofQuiet (quiet_jump label)
  | jumpFalse label => exact .ofQuiet (quiet_jumpIf (fun v => !v.isTruthy) label)
  | jumpTrue label => exact .ofQuiet (quiet_jumpIf Value.isTruthy label)
  | enterScope =>
    refine .ofQuiet (Quiet.get fun u => ?_)
    exact Quiet.bind (quiet_onHeap _) fun scope => quiet_setEnv scope
  | leaveScope => exact .ofQuiet quiet_leaveScope
  | declare name => exact .ofQuiet (Quiet.get fun u => quiet_modifyHeap _)
  | store name property =>
    cases property with
    | true => exact local_storeProperty name
    | false => exact .ofQuiet (Quiet.bind quiet_peek fun v => quiet_storeVariable name v)
  | fetch name access => exact local_fetch name access
  | call argc bound => exact local_callValue argc bound
  | loopStart => exact .ofQuiet (Quiet.get fun u => quiet_pushSlot rfl)
  | loopEnd =>
    refine .ofQuiet (quiet_popSlot (.loopEndFound "call site") (fun _ => rfl) fun slot => ?_)
    cases slot with
    | loopMarker _ => exact Quiet.pure ()
    | _ => exact quiet_fail _
  | loopExit target => exact .ofQuiet (quiet_loopExit target)
  | enterTry label =>
    refine .ofQuiet (Quiet.bind (quiet_resolve label) fun handler => ?_)
    exact Quiet.get fun u => quiet_pushSlot rfl
  | leaveTry =>
    refine .ofQuiet (quiet_popSlot (.leaveTryFound "call site") (fun _ => rfl) fun slot => ?_)
    cases slot with
    | tryRegion _ => exact Quiet.pure ()
    | _ => exact quiet_fail _
  | throw => exact Local.bind quiet_pop fun v => local_throwValue v
  | createObject className => exact local_createObject className
  | makeArray size =>
    refine .ofQuiet (Quiet.bind (quiet_popValues size) fun items => ?_)
    exact Quiet.bind (quiet_onHeap _) fun id => quiet_push _
  | nop | label _ | ret | debugger | halt => exact .ofQuiet (Quiet.pure ())

end Exec

/-! ## how instructions go on -/

/-- how an instruction goes on above a call site -/
inductive Course where
  | stays (signal : Signal) (u : Upper) (h : signal ≠ .hostReturn)
  | fails (cause : Defect) (u : Upper)
  /-- it fails because it took the call site itself -/
  | sinks (cause : Defect) (u : Upper)
  /-- a value that nothing catches there is thrown to the caller -/
  | throws (v : Value) (u : Upper) (h : u.Passed)
  /-- a value is returned to the caller -/
  | returns (v : Value) (u : Upper)

/-- where the run is then -/
def Course.on (linked : Linked) (site : CallSite) (below : List Slot) :
    Course → EStateM.Result RuntimeError State Signal
  | .stays signal u _ => .ok signal (u.on site below)
  | .fails cause u => (Above.failed cause u).on site below
  | .sinks cause u => (Above.sunk cause u).on site below
  | .throws v u _ => (do Exec.throwValue v; return .proceed : Exec Signal) linked (u.on site below)
  | .returns v u =>
    .ok (if site.fromHost then .hostReturn else .proceed)
      ⟨site.caller, site.env, .of (.value v :: below), u.heap, u.events⟩

namespace Exec

theorem course_of_above {x : Exec Unit} {u : Upper} {r : Above Unit}
    (hr : ∀ site below, x linked (u.on site below) = r.on site below) :
    ∃ c : Course, ∀ site below,
      (do x; return .proceed : Exec Signal) linked (u.on site below) = c.on linked site below := by
  have hbind := bind_above r (fun _ => (pure .proceed : Exec Signal)) hr
  cases r with
  | ok _ u' => exact ⟨.stays .proceed u' nofun, hbind⟩
  | failed cause u' => exact ⟨.fails cause u', hbind⟩
  | sunk cause u' => exact ⟨.sinks cause u', hbind⟩

theorem course_of_local {x : Exec Unit} (hx : Local linked x) (u : Upper) :
    ∃ c : Course, ∀ site below,
      (do x; return .proceed : Exec Signal) linked (u.on site below) = c.on linked site below := by
  rcases hx u with ⟨r, hr⟩ | ⟨v, u', hpass, hthrow⟩
  · exact course_of_above hr
  · exact ⟨.throws v u' hpass, fun site below => bind_same (hthrow site below) _⟩

/-- The value on top is returned to the nearest caller, inside or below. -/
theorem course_ret (u : Upper) :
    ∃ c : Course, ∀ site below, dispatch .ret linked (u.on site below) = c.on linked site below := by
  obtain ⟨r, hr⟩ := quiet_pop u
  cases r with
  | failed cause u' =>
    refine ⟨.fails cause u', fun site below => ?_⟩
    rw [dispatch_ret, returnFromCall_eq, hr]
    rfl
  | sunk cause u' =>
    refine ⟨.sinks cause u', fun site below => ?_⟩
    rw [dispatch_ret, returnFromCall_eq, hr]
    rfl
  | ok v u' =>
    have hret (site : CallSite) (below : List Slot) {site' : CallSite} {rest : Stack}
        (h : (Stack.of (u'.slots ++ .callSite site :: below)).unwind callSite? = some (site', rest)) :
        dispatch .ret linked (u.on site below)
          = .ok (if site'.fromHost then .hostReturn else .proceed)
            { u'.on site below with
              location := site'.caller, env := site'.env, stack := rest.push (.value v) } := by
      have h : (u'.on site below).stack.unwind callSite? = some (site', rest) := h
      rw [dispatch_ret, returnFromCall_eq, hr]
      dsimp only [Above.on]
      rw [h]
    rcases Stack.unwind_upper callSite? u'.slots with ⟨inner, rest, hmem, hrest, h⟩ | ⟨-, h⟩
    · obtain ⟨slot, hslot, hinner⟩ := hmem
      have hscript : inner.fromHost = false := by
        cases slot with
        | callSite site =>
          cases hinner
          exact u'.inner _ hslot
        | _ => cases hinner
      let back : Upper := { u'.keep rest hrest with location := inner.caller, env := inner.env }
      refine ⟨.stays .proceed (back.push (.value v) rfl) nofun, fun site below => ?_⟩
      rw [hret site below (h _), hscript]
      rfl
    · exact ⟨.returns v u', fun site below => hret site below (h _)⟩

end Exec

/-- the state behind the instruction that runs -/
def Upper.next (u : Upper) : Upper :=
  { u with location := ⟨u.location.sectionIndex, u.location.pc + 1⟩ }

/-- **What an instruction does above a call site does not depend on what is below**, if it picks its
values above. -/
theorem course_execute (linked : Linked) {op : Op} (u : Upper)
    (hpick : ∀ n, op = .pick n → n < u.slots.length) :
    ∃ c : Course, ∀ site below,
      execute linked op (u.on site below) = c.on linked site below := by
  show ∃ c : Course, ∀ site below,
    Exec.dispatch op linked (u.next.on site below) = c.on linked site below
  cases op with
  | ret => exact Exec.course_ret u.next
  | debugger => exact ⟨.stays .pause u.next nofun, fun _ _ => rfl⟩
  | halt => exact ⟨.stays .halt u.next nofun, fun _ _ => rfl⟩
  | pick n =>
    obtain ⟨r, hr⟩ := Exec.pick_upper u.next (hpick n rfl)
    exact Exec.course_of_above hr
  | _ => exact Exec.course_of_local (Exec.local_perform (by nofun)) u.next

/-- Whatever an instruction does, it stays above the call site, gets back to it, or fails. -/
theorem exists_course (linked : Linked) (op : Op) (u : Upper) (site : CallSite) (below : List Slot) :
    ∃ c : Course, execute linked op (u.on site below) = c.on linked site below := by
  by_cases hpick : ∀ n, op = .pick n → n < u.slots.length
  · obtain ⟨c, hc⟩ := course_execute linked u hpick
    exact ⟨c, hc site below⟩
  · -- it picks from below, and that is where the value stays
    obtain ⟨n, rfl, -⟩ : ∃ n, op = .pick n ∧ ¬n < u.slots.length := by simpa using hpick
    cases hv : (u.next.on site below).stack.pick? n with
    | some v =>
      have hpicked : Exec.perform (.pick n) linked (u.next.on site below)
          = .ok () ((u.next.push (.value v) rfl).on site below) := Exec.pick_some hv
      exact ⟨.stays .proceed (u.next.push (.value v) rfl) (by decide), Exec.bind_ok hpicked _⟩
    | none =>
      have hfailed : Exec.perform (.pick n) linked (u.next.on site below)
          = (Above.failed (.pickedNoValue n) u.next : Above Unit).on site below := Exec.pick_none hv
      exact ⟨.fails (.pickedNoValue n) u.next, Exec.bind_error hfailed _⟩

end

end ScriptMachine
