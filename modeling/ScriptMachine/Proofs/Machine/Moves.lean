import ScriptMachine.Proofs.Checked
import ScriptMachine.Proofs.Machine.Locality

/-!
# What one instruction does to the place and the stack

Whatever the program, an instruction does one of few things.  It stays within its frame, where it
takes entries and puts others; it calls a function; it throws a value that a handler catches; it
returns to a caller; or it stops the run.  Every invariant of places and stacks follows from that.

* `Leads linked P x Q E`   from states of `P`, `x` goes to states of `Q` or fails as `E` says;
* `Stack.unwind_split`     where unwinding stops;
* `Moved`                  all that an instruction can do, if it does not fail;
* `Fails`                  all the ways in which it fails;
* `Drawn`                  the state while an instruction takes its operands;
* `moved_of_execute`, `fails_of_execute`   one instruction;
* `Ticks`                  all that comes of one instruction of a run.
-/

namespace ScriptMachine

/-! ## steps -/

/-- From states of `P` a step goes to states of `Q`, or fails as `E` says. -/
def Leads {α : Type} (linked : Linked) (P : State → Prop) (x : Exec α) (Q : α → State → Prop)
    (E : RuntimeError → State → Prop) : Prop :=
  ∀ s, P s → match x linked s with
    | .ok a s' => Q a s'
    | .error e s' => E e s'

namespace Leads

variable {α β : Type} {linked : Linked} {P : State → Prop} {Q Q' : α → State → Prop}
  {R : β → State → Prop} {E E' : RuntimeError → State → Prop} {x : Exec α} {f : α → Exec β}

theorem pure {a : α} (h : ∀ s, P s → Q a s) : Leads linked P (Pure.pure a) Q E := h

theorem bind (hx : Leads linked P x Q E) (hf : ∀ a, Leads linked (Q a) (f a) R E) :
    Leads linked P (x >>= f) R E := by
  intro s hs
  have h := hx s hs
  cases hr : x linked s with
  | ok a s' =>
    rw [hr] at h
    rw [Exec.bind_ok hr]
    exact hf a s' h
  | error e s' =>
    rw [hr] at h
    rw [Exec.bind_error hr]
    exact h

theorem map (g : α → β) (hx : Leads linked P x Q E) :
    Leads linked P (g <$> x) (fun b s => ∃ a, b = g a ∧ Q a s) E := by
  rw [← bind_pure_comp]
  exact bind hx fun a => pure fun s hs => ⟨a, rfl, hs⟩

theorem ok {a : α} {s s' : State} (hx : Leads linked P x Q E) (hs : P s)
    (hr : x linked s = .ok a s') : Q a s' := by
  have h := hx s hs
  rw [hr] at h
  exact h

theorem error {e : RuntimeError} {s s' : State} (hx : Leads linked P x Q E) (hs : P s)
    (hr : x linked s = .error e s') : E e s' := by
  have h := hx s hs
  rw [hr] at h
  exact h

theorem imp (hx : Leads linked P x Q E) (h : ∀ a s, Q a s → Q' a s) (he : ∀ e s, E e s → E' e s) :
    Leads linked P x Q' E' := by
  intro s hs
  have hend := hx s hs
  cases hr : x linked s with
  | ok a s' =>
    rw [hr] at hend
    exact h a s' hend
  | error e s' =>
    rw [hr] at hend
    exact he e s' hend

theorem weaken (hx : Leads linked P x Q E) (h : ∀ a s, Q a s → Q' a s) : Leads linked P x Q' E :=
  hx.imp h fun _ _ he => he

theorem since {P' : State → Prop} (h : ∀ s, P s → P' s) (hx : Leads linked P' x Q E) :
    Leads linked P x Q E := fun s hs => hx s (h s hs)

/-- a fact that the states do not matter for -/
theorem of_fact {p : Prop} (h : p → Leads linked P x Q E) :
    Leads linked (fun s => p ∧ P s) x Q E := fun s hs => h hs.1 s hs.2

theorem read {f : Linked → Exec β} (h : Leads linked P (f linked) R E) :
    Leads linked P (MonadReader.read >>= f) R E := h

/-- what is read of a state is known of states of that kind -/
theorem get {f : State → Exec β} (h : ∀ s, P s → Leads linked P (f s) R E) :
    Leads linked P (MonadState.get >>= f) R E := fun s hs => h s hs s hs

end Leads

/-! ## entries -/

/-- the entry saves no caller -/
def Slot.isOwn (slot : Slot) : Bool := (Exec.callSite? slot).isNone

theorem Slot.isOwn_of_isPassed {slot : Slot} (h : Stack.isPassed slot = true) : slot.isOwn = true := by
  cases slot with
  | callSite _ => cases h
  | _ => rfl

theorem Slot.ne_callSite {slot : Slot} (h : slot.isOwn = true) (site : CallSite) :
    slot ≠ .callSite site := by
  rintro rfl
  cases h

/-- what is known of a stack and lasts when one entry of the frame is taken -/
theorem Slot.drop_own {P : List Slot → Prop} {taken rest : List Slot}
    (htail : ∀ slot slots, slot.isOwn = true → P (slot :: slots) → P slots)
    (htaken : ∀ slot ∈ taken, slot.isOwn = true) (h : P (taken ++ rest)) : P rest := by
  induction taken with
  | nil => exact h
  | cons slot taken ih =>
    obtain ⟨hslot, htaken⟩ := List.forall_mem_cons.mp htaken
    exact ih htaken (htail slot _ hslot h)

namespace Stack

/-- where unwinding stops: at the first entry that is wanted -/
theorem unwind_split {α : Type} {wanted : Slot → Option α} {s rest : Stack} {a : α}
    (h : s.unwind wanted = some (a, rest)) :
    ∃ dropped slot, s.slots = dropped ++ slot :: rest.slots ∧ wanted slot = some a
      ∧ ∀ slot ∈ dropped, wanted slot = none := by
  rw [s.eq_of] at h ⊢
  generalize s.slots = slots at h
  induction slots with
  | nil => cases h
  | cons slot slots ih =>
    rw [unwind_cons] at h
    cases hslot : wanted slot with
    | some b =>
      rw [hslot] at h
      cases h
      exact ⟨[], slot, rfl, hslot, nofun⟩
    | none =>
      rw [hslot] at h
      obtain ⟨dropped, slot', hslots, hwanted, hnone⟩ := ih h
      exact ⟨slot :: dropped, slot', congrArg _ hslots, hwanted,
        List.forall_mem_cons.mpr ⟨hslot, hnone⟩⟩

end Stack

/-- the callers whose frames a value passed that nothing caught -/
def Unwound.callers? : Unwound → Option (List Location)
  | caught _ _ => none
  | reachedHost _ callers _ => some callers
  | uncaught callers => some callers

/-- the run has no instruction, label or constant to go on with -/
def RuntimeError.isLost : RuntimeError → Bool
  | .defect .outOfCode _ => true
  | .defect (.unresolvedLabel _) _ => true
  | .defect (.noConstant _) _ => true
  | _ => false

/-! ## instructions -/

section
variable (linked : Linked) (op : Op)

/-- Where an instruction goes on within its section, if `loc` is the place behind it. -/
inductive Onto (loc : Location) : Location → Prop
  | next (h : op.isTerminator = false) : Onto loc loc
  | jump {l : Label} {target : Location} (h : op.jumpTarget? = some l)
      (hl : linked.labels.resolve? l = some target) : Onto loc target

/-- what an instruction puts onto the stack within its frame, the top first -/
inductive Lays : List Slot → Prop
  | nothing : Lays []
  | value (v : Value) : Lays [.value v]
  | result (h : op.calleeArgc?.isSome) (v : Value) : Lays [.nativeResult, .value v]
  | loop (h : op = .loopStart) (env : EnvId) : Lays [.loopMarker env]
  | region {l : Label} {handler : Location} (h : op = .enterTry l)
      (hl : linked.labels.resolve? l = some handler) (env : EnvId) :
    Lays [.tryRegion ⟨handler, env⟩]

/-- All that an instruction can do from `s₀`, a state that is already behind it. -/
inductive Moved (s₀ : State) : Signal → State → Prop
  | within {signal : Signal} {s : State} {taken rest put : List Slot}
      (hsignal : signal = .proceed ∨ signal = .pause)
      (honto : Onto linked op s₀.location s.location)
      (htaken : ∀ slot ∈ taken, slot.isOwn = true) (hbefore : s₀.stack.slots = taken ++ rest)
      (hput : Lays linked op put) (hafter : s.stack.slots = put ++ rest) : Moved s₀ signal s
  | called {s : State} {taken rest : List Slot} {argc index : Nat} {bound : Bool}
      {entry : FunctionEntry} (hop : op = .call argc bound)
      (hentry : linked.program.functions[index]? = some entry)
      (htaken : ∀ slot ∈ taken, slot.isOwn = true) (hbefore : s₀.stack.slots = taken ++ rest)
      (hloc : s.location = ⟨entry.body, 0⟩)
      (hafter : s.stack.slots = .callSite ⟨s₀.location, s₀.env, index, false⟩ :: rest) :
    Moved s₀ .proceed s
  | caught {s : State} {region : TryRegion} {rest : Stack} {v : Value}
      (hunwind : s₀.stack.unwindThrow = .caught region rest) (hloc : s.location = region.handler)
      (henv : s.env = region.env) (hafter : s.stack.slots = .value v :: rest.slots) :
    Moved s₀ .proceed s
  | returned {signal : Signal} {s : State} {rest : List Slot} {below : Stack} {site : CallSite}
      {v : Value} (hop : op = .ret) (hbefore : s₀.stack.slots = .value v :: rest)
      (hunwind : (Stack.of rest).unwind Exec.callSite? = some (site, below))
      (hsignal : signal = if site.fromHost then .hostReturn else .proceed)
      (hloc : s.location = site.caller) (henv : s.env = site.env)
      (hafter : s.stack.slots = .value v :: below.slots) : Moved s₀ signal s
  | halted (hop : op = .halt) : Moved s₀ .halt s₀

/-- The ways in which an instruction fails.  Only a thrown value says which frames it passed. -/
inductive Fails (s₀ : State) : RuntimeError → State → Prop
  | stuck {cause : Defect} {at_ : Location} {s : State}
      (h : (RuntimeError.defect cause at_).isLost = false) : Fails s₀ (.defect cause at_) s
  | noConstant {index : Nat} {at_ : Location} {s : State} (hop : op = .const index)
      (h : linked.program.constants[index]? = none) : Fails s₀ (.defect (.noConstant index) at_) s
  | unresolved {l : Label} {at_ : Location} {s : State} (hop : op.jumpTarget? = some l)
      (h : linked.labels.resolve? l = none) : Fails s₀ (.defect (.unresolvedLabel l) at_) s
  | uncaught {text : String} {value : HostValue} {callers : List Location} {s : State}
      (h : s₀.stack.unwindThrow.callers? = some callers) :
    Fails s₀ (.uncaught text value ((s₀.location :: callers).map linked.sectionName)) s

end

/-- the state while an instruction takes its operands, if it started in `s₀` -/
structure Drawn (s₀ s : State) : Prop where
  location : s.location = s₀.location
  env : s.env = s₀.env
  slots : ∃ taken, (∀ slot ∈ taken, Stack.isPassed slot = true)
    ∧ s₀.stack.slots = taken ++ s.stack.slots

/-- the same if the instruction may have left scopes, and regions of its frame -/
structure Freed (s₀ s : State) : Prop where
  location : s.location = s₀.location
  slots : ∃ taken, (∀ slot ∈ taken, slot.isOwn = true) ∧ s₀.stack.slots = taken ++ s.stack.slots

section
variable {linked : Linked} {op : Op} {s₀ s s' : State}

theorem Drawn.refl (s : State) : Drawn s s := ⟨rfl, rfl, [], nofun, rfl⟩

theorem Drawn.freed (h : Drawn s₀ s) : Freed s₀ s := by
  obtain ⟨hloc, -, taken, htaken, hslots⟩ := h
  exact ⟨hloc, taken, fun slot hslot => Slot.isOwn_of_isPassed (htaken slot hslot), hslots⟩

/-- a value that is thrown now gets as far as one that is thrown before the operands are taken -/
theorem Drawn.unwindThrow (h : Drawn s₀ s) : s.stack.unwindThrow = s₀.stack.unwindThrow := by
  obtain ⟨-, -, taken, htaken, hslots⟩ := h
  rw [s₀.stack.eq_of, hslots, Stack.unwindThrow_passed _ _ htaken, ← s.stack.eq_of]

/-- the instruction stays within its frame -/
theorem Freed.moved (h : Freed s₀ s) {put : List Slot} (honto : Onto linked op s.location s'.location)
    (hput : Lays linked op put) (hafter : s'.stack.slots = put ++ s.stack.slots) :
    Moved linked op s₀ .proceed s' := by
  obtain ⟨hloc, taken, htaken, hslots⟩ := h
  rw [hloc] at honto
  exact .within (.inl rfl) honto htaken hslots hput hafter

end

/-! ## the steps that instructions are made of -/

namespace Exec

section
variable {α : Type} {linked : Linked} {op : Op} {s₀ : State}

theorem moved_fail {P : State → Prop} {Q : α → State → Prop} (cause : Defect)
    (hcause : ∀ at_, (RuntimeError.defect cause at_).isLost = false) :
    Leads linked P (fail cause : Exec α) Q (Fails linked op s₀) := fun _ _ => .stuck (hcause _)

theorem drawn_popSlot : Leads linked (Drawn s₀) popSlot
    (fun slot s => (Stack.isPassed slot = true → Drawn s₀ s) ∧ (slot.isOwn = true → Freed s₀ s))
    (Fails linked op s₀) := by
  rintro ⟨loc, env, ⟨slots, depth, hdepth⟩, heap, ev⟩ hs
  cases slots with
  | nil => exact .stuck rfl
  | cons slot slots =>
    obtain ⟨hloc, taken, hown, hslots⟩ := hs.freed
    obtain ⟨-, henv, passed, hpassed, hslots'⟩ := hs
    have hone {p : Slot → Prop} {taken : List Slot} (h : ∀ slot ∈ taken, p slot) (hslot : p slot) :
        ∀ slot' ∈ taken ++ [slot], p slot' :=
      List.forall_mem_append.mpr ⟨h, List.forall_mem_singleton.mpr hslot⟩
    exact ⟨fun hslot => ⟨hloc, henv, passed ++ [slot], hone hpassed hslot,
        hslots'.trans (List.append_cons passed slot slots)⟩,
      fun hslot => ⟨hloc, taken ++ [slot], hone hown hslot,
        hslots.trans (List.append_cons taken slot slots)⟩⟩

theorem drawn_pop : Leads linked (Drawn s₀) pop
    (fun _ => Drawn s₀) (Fails linked op s₀) := by
  refine Leads.bind drawn_popSlot fun slot => ?_
  cases slot with
  | value v => exact Leads.pure fun s hs => hs.1 rfl
  | _ => exact moved_fail _ fun _ => rfl

theorem drawn_popValues (n : Nat) : Leads linked (Drawn s₀) (popValues n)
    (fun _ => Drawn s₀) (Fails linked op s₀) := by
  induction n with
  | zero => exact Leads.pure fun s hs => hs
  | succ n ih =>
    refine Leads.bind drawn_pop fun v => Leads.bind ih fun vs => ?_
    exact Leads.pure fun s hs => hs

theorem drawn_peek : Leads linked (Drawn s₀) peek (fun _ => Drawn s₀) (Fails linked op s₀) := by
  refine Leads.get fun s _ => ?_
  split
  · exact Leads.pure fun s hs => hs
  · exact moved_fail _ fun _ => rfl
  · exact moved_fail _ fun _ => rfl

theorem drawn_modifyHeap (f : Heap → Heap) :
    Leads linked (Drawn s₀) (modifyHeap f) (fun _ => Drawn s₀) (Fails linked op s₀) :=
  fun _ hs => ⟨hs.location, hs.env, hs.slots⟩

theorem drawn_onHeap (f : Heap → α × Heap) :
    Leads linked (Drawn s₀) (onHeap f) (fun _ => Drawn s₀) (Fails linked op s₀) :=
  fun _ hs => ⟨hs.location, hs.env, hs.slots⟩

theorem drawn_note (event : Event) :
    Leads linked (Drawn s₀) (note event) (fun _ => Drawn s₀) (Fails linked op s₀) :=
  fun _ hs => ⟨hs.location, hs.env, hs.slots⟩

theorem drawn_storeVariable (name : String) (v : Value) :
    Leads linked (Drawn s₀) (storeVariable name v) (fun _ => Drawn s₀) (Fails linked op s₀) :=
  fun _ hs => ⟨hs.location, hs.env, hs.slots⟩

theorem moved_resolve {P : State → Prop} {l : Label} (hop : op.jumpTarget? = some l) :
    Leads linked P (resolve l) (fun at_ s => linked.labels.resolve? l = some at_ ∧ P s)
      (Fails linked op s₀) := by
  refine Leads.read ?_
  cases hl : linked.labels.resolve? l with
  | some at_ => exact Leads.pure fun s hs => ⟨rfl, hs⟩
  | none => exact fun s _ => .unresolved hop hl

theorem drawn_callNative (name : String) (args : List Value) :
    Leads linked (Drawn s₀) (callNative name args) (fun _ => Drawn s₀) (Fails linked op s₀) := by
  have hfrom (v : HostValue) :
      Leads linked (Drawn s₀) (fromHost v) (fun _ => Drawn s₀) (Fails linked op s₀) :=
    Leads.read (drawn_onHeap _)
  refine Leads.read ?_
  split
  · refine Leads.get fun s _ => Leads.bind (drawn_note _) fun _ => ?_
    split
    · exact Leads.bind (hfrom _) fun v => Leads.pure fun s hs => hs
    · exact Leads.bind (hfrom _) fun v => Leads.pure fun s hs => hs
  · split
    · refine Leads.get fun s _ => Leads.bind (drawn_note _) fun _ => ?_
      exact Leads.pure fun s hs => hs
    · exact Leads.pure fun s hs => hs

/-! ## steps that end an instruction -/

/-- the last step only took entries -/
theorem moved_falls {x : Exec α} {P : State → Prop} (hgo : op.isTerminator = false)
    (hx : Leads linked P x (fun _ => Drawn s₀) (Fails linked op s₀)) :
    Leads linked P x (fun _ => Moved linked op s₀ .proceed) (Fails linked op s₀) :=
  hx.weaken fun _ _ hs => hs.freed.moved (.next hgo) .nothing rfl

theorem moved_setEnv (hgo : op.isTerminator = false) (env : EnvId) :
    Leads linked (Drawn s₀) (setEnv env) (fun _ => Moved linked op s₀ .proceed) (Fails linked op s₀) :=
  fun _ hs => hs.freed.moved (.next hgo) .nothing rfl

theorem moved_push (hgo : op.isTerminator = false) (v : Value) :
    Leads linked (Drawn s₀) (push v) (fun _ => Moved linked op s₀ .proceed)
      (Fails linked op s₀) :=
  fun _ hs => hs.freed.moved (.next hgo) (.value v) rfl

/-- the result of a call that is already made stands on top, under its mark -/
theorem moved_pushResult (hgo : op.isTerminator = false) (hop : op.calleeArgc?.isSome) (v : Value) :
    Leads linked (Drawn s₀) (pushResult v) (fun _ => Moved linked op s₀ .proceed)
      (Fails linked op s₀) :=
  fun _ hs => hs.freed.moved (.next hgo) (.result hop v) rfl

theorem moved_jump {l : Label} (hop : op.jumpTarget? = some l) :
    Leads linked (Freed s₀) (jump l) (fun _ => Moved linked op s₀ .proceed)
      (Fails linked op s₀) :=
  Leads.bind (moved_resolve hop) fun _ => Leads.of_fact fun hl _ hs =>
    hs.moved (.jump hop hl) .nothing rfl

theorem moved_jumpIf (test : Value → Bool) {l : Label} (hgo : op.isTerminator = false)
    (hop : op.jumpTarget? = some l) :
    Leads linked (Drawn s₀) (do if test (← pop) then jump l)
      (fun _ => Moved linked op s₀ .proceed) (Fails linked op s₀) := by
  refine Leads.bind drawn_pop fun v => ?_
  split
  · exact fun s hs => moved_jump hop s hs.freed
  · exact moved_falls hgo (Leads.pure fun s hs => hs)

/-- a thrown value goes on at the handler that unwinding finds, or fails with the frames on the way -/
theorem moved_throwValue (v : Value) :
    Leads linked (Drawn s₀) (throwValue v) (fun _ => Moved linked op s₀ .proceed)
      (Fails linked op s₀) := by
  intro s hs
  rw [throwValue_eq]
  have hunwind := hs.unwindThrow
  cases h : s.stack.unwindThrow with
  | caught region rest => exact .caught (hunwind.symm.trans h) rfl rfl rfl
  | reachedHost site callers rest =>
    dsimp only
    rw [hs.location]
    refine .uncaught ?_
    rw [← hunwind, h]
    rfl
  | uncaught callers =>
    dsimp only
    rw [hs.location]
    refine .uncaught ?_
    rw [← hunwind, h]
    rfl

/-- a result goes onto the stack, a thrown value to a handler -/
theorem moved_either {found : Value → Exec Unit}
    (hfound : ∀ v, Leads linked (Drawn s₀) (found v)
      (fun _ => Moved linked op s₀ .proceed) (Fails linked op s₀)) (r : Except Value Value) :
    Leads linked (Drawn s₀) (match r with
      | .ok result => found result
      | .error thrown => throwValue thrown) (fun _ => Moved linked op s₀ .proceed)
      (Fails linked op s₀) := by
  cases r with
  | ok v => exact hfound v
  | error v => exact moved_throwValue v

/-! ## calls -/

theorem moved_enterFunction {argc : Nat} {bound : Bool} (hop : op = .call argc bound) (index : Nat)
    (args : List Value) (receiver : Option Value) :
    Leads linked (Drawn s₀) (enterFunction index args receiver false)
      (fun _ => Moved linked op s₀ .proceed) (Fails linked op s₀) := by
  intro s hs
  cases hentry : linked.program.functions[index]? with
  | some entry =>
    rw [enterFunction_eq hentry]
    obtain ⟨-, taken, htaken, hslots⟩ := hs.freed
    have hafter : (calleeState linked index entry args receiver false s).stack.slots
        = .callSite ⟨s₀.location, s₀.env, index, false⟩ :: s.stack.slots := by
      rw [← hs.location, ← hs.env]
      rfl
    exact .called hop hentry htaken hslots rfl hafter
  | none =>
    rw [enterFunction_none hentry]
    exact .stuck rfl

theorem moved_fetchMethod (target : Value) (name : String) (argc : Nat)
    (hgo : op.isTerminator = false) (hop : op.calleeArgc?.isSome) :
    Leads linked (Drawn s₀) (fetchMethod target name argc)
      (fun _ => Moved linked op s₀ .proceed) (Fails linked op s₀) := by
  refine Leads.get fun s _ => ?_
  split
  · exact moved_push hgo _
  · exact moved_throwValue _
  · exact Leads.bind (drawn_popValues argc) fun _ => moved_throwValue _
  · refine Leads.bind (drawn_popValues argc) fun args => Leads.bind (drawn_onHeap _) fun r => ?_
    exact moved_either (moved_pushResult hgo hop) r

theorem moved_fetch (name : String) (access : Access) :
    Leads linked (Drawn s₀) (fetch name access)
      (fun _ => Moved linked (.fetch name access) s₀ .proceed)
      (Fails linked (.fetch name access) s₀) := by
  refine Leads.read ?_
  match access with
  | .variable =>
    refine Leads.get fun s _ => ?_
    split <;> exact moved_push rfl _
  | .callVariable argc =>
    refine Leads.get fun s _ => ?_
    split
    · exact moved_push rfl _
    · split
      · refine Leads.bind (drawn_popValues argc) fun args => ?_
        exact Leads.bind (drawn_callNative name args) (moved_either (moved_pushResult rfl rfl))
      · exact moved_throwValue _
  | .property =>
    refine Leads.bind drawn_pop fun target => Leads.get fun s _ => ?_
    exact moved_either (moved_push rfl) _
  | .callProperty argc =>
    exact Leads.bind drawn_pop fun target => moved_fetchMethod target name argc rfl rfl

/-- The result of the call is already there, above the receiver if there is one. -/
theorem moved_result (argc : Nat) (bound : Bool) :
    Leads linked (Drawn s₀) (do
      if bound then
        let result ← pop
        let _ ← pop
        push result) (fun _ => Moved linked (.call argc bound) s₀ .proceed)
      (Fails linked (.call argc bound) s₀) := by
  cases bound with
  | false => exact moved_falls rfl (Leads.pure fun s hs => hs)
  | true => exact Leads.bind drawn_pop fun result => Leads.bind drawn_pop fun _ => moved_push rfl result

/-- the mark of a result is taken before all else -/
theorem moved_already (linked : Linked) (argc : Nat) (bound : Bool) {rest : List Slot}
    (hslots : s₀.stack.slots = .nativeResult :: rest) :
    Leads linked (· = s₀) (callValue argc bound)
      (fun _ => Moved linked (.call argc bound) { s₀ with stack := .of rest } .proceed)
      (Fails linked (.call argc bound) { s₀ with stack := .of rest }) := by
  rintro ⟨loc, env, ⟨slots, depth, hdepth⟩, heap, events⟩ rfl
  cases hslots
  cases hdepth
  exact moved_result argc bound _ (.refl _)

/-- The value on top is called, or the result is already there. -/
theorem moved_callValue (argc : Nat) (bound : Bool) :
    Leads linked (Drawn s₀) (callValue argc bound)
      (fun _ => Moved linked (.call argc bound) s₀ .proceed) (Fails linked (.call argc bound) s₀) := by
  refine Leads.bind drawn_popSlot fun slot => ?_
  cases slot with
  | nativeResult => exact fun s hs => moved_result argc bound s (hs.1 rfl)
  | value v =>
    refine Leads.since (fun s (hs : (_ → Drawn s₀ s) ∧ _) => hs.1 rfl) ?_
    cases v with
    | function index =>
      refine Leads.bind (drawn_popValues argc) fun args => ?_
      cases bound with
      | false => exact moved_enterFunction rfl index args none
      | true =>
        refine Leads.bind (drawn_pop.map some) fun receiver => ?_
        rintro s ⟨_, -, hs⟩
        exact moved_enterFunction rfl index args receiver s hs
    | native name =>
      refine Leads.bind (drawn_popValues argc) fun args => ?_
      cases bound with
      | false => exact Leads.bind (drawn_callNative name args) (moved_either (moved_push rfl))
      | true =>
        refine Leads.bind drawn_pop fun _ => ?_
        exact Leads.bind (drawn_callNative name args) (moved_either (moved_push rfl))
    | _ => exact Leads.get fun s _ => moved_throwValue _
  | _ => exact moved_fail _ fun _ => rfl

/-! ## names, loops and objects -/

theorem moved_storeProperty (name : String) :
    Leads linked (Drawn s₀) (storeProperty name)
      (fun _ => Moved linked (.store name true) s₀ .proceed) (Fails linked (.store name true) s₀) := by
  refine Leads.bind drawn_pop fun v => Leads.bind drawn_pop fun target => ?_
  cases target with
  | object env => exact Leads.bind (drawn_modifyHeap _) fun _ => moved_push rfl v
  | _ => exact moved_throwValue _

/-- the innermost loop stays on the stack -/
theorem moved_loopExit (target : Option Label) :
    Leads linked (Freed s₀) (loopExit target)
      (fun _ => Moved linked (.loopExit target) s₀ .proceed) (Fails linked (.loopExit target) s₀) := by
  intro s hs
  rw [loopExit_result]
  cases hunwind : s.stack.unwind loopMarker? with
  | none => exact .stuck rfl
  | some found =>
    obtain ⟨marker, rest⟩ := found
    obtain ⟨dropped, slot, hslots, hslot, hnone⟩ := Stack.unwind_split hunwind
    cases marker with
    | none => exact .stuck rfl
    | some env =>
      obtain rfl : slot = .loopMarker env := by
        cases slot <;> cases hslot
        rfl
      have hdrawn : Freed s₀ { s with env := env, stack := rest.push (.loopMarker env) } := by
        obtain ⟨hloc, taken, htaken, hbefore⟩ := hs
        refine ⟨hloc, taken ++ dropped, List.forall_mem_append.mpr ⟨htaken, fun slot hmem => ?_⟩, ?_⟩
        · have := hnone slot hmem
          cases slot with
          | callSite _ => cases this
          | _ => rfl
        · rw [hbefore, hslots, List.append_assoc]
          rfl
      cases target with
      | none => exact hdrawn.moved (.next rfl) .nothing rfl
      | some l => exact moved_jump rfl _ hdrawn

theorem moved_createObject (className : String) :
    Leads linked (Drawn s₀) (createObject className)
      (fun _ => Moved linked (.createObject className) s₀ .proceed)
      (Fails linked (.createObject className) s₀) := by
  refine Leads.read ?_
  split
  · exact moved_throwValue _
  · refine Leads.bind (drawn_onHeap _) fun env => ?_
    exact Leads.bind (drawn_modifyHeap _) fun _ => moved_push rfl _

/-! ## instructions -/

theorem moved_perform (hret : op ≠ .ret) (hhalt : op ≠ .halt) :
    Leads linked (· = s₀) (perform op) (fun _ => Moved linked op s₀ .proceed) (Fails linked op s₀) := by
  refine Leads.since (fun s hs => (hs ▸ .refl s : Drawn s₀ s)) ?_
  cases op with
  | ret => exact absurd rfl hret
  | halt => exact absurd rfl hhalt
  | nop | label _ | debugger => exact moved_falls rfl (Leads.pure fun s hs => hs)
  | const index =>
    refine Leads.read ?_
    cases hconst : linked.program.constants[index]? with
    | some v => exact moved_push rfl v
    | none => exact fun s _ => .noConstant rfl hconst
  | pop => exact moved_falls rfl (Leads.bind drawn_pop fun _ => Leads.pure fun s hs => hs)
  | dup => exact Leads.bind drawn_peek fun v => moved_push rfl v
  | pick n =>
    refine Leads.get fun s _ => ?_
    split
    · exact moved_push rfl _
    · exact moved_fail _ fun _ => rfl
  | binary op =>
    refine Leads.bind drawn_pop fun b => Leads.bind drawn_pop fun a => Leads.get fun s _ => ?_
    exact moved_push rfl _
  | neg => exact Leads.bind drawn_pop fun v => moved_push rfl _
  | not => exact Leads.bind drawn_pop fun v => moved_push rfl _
  | jump l => exact Leads.since (fun s hs => hs.freed) (moved_jump rfl)
  | jumpFalse l => exact moved_jumpIf (fun v => !v.isTruthy) rfl rfl
  | jumpTrue l => exact moved_jumpIf Value.isTruthy rfl rfl
  | enterScope =>
    exact Leads.get fun s _ => Leads.bind (drawn_onHeap _) fun scope => moved_setEnv rfl scope
  | leaveScope =>
    refine Leads.get fun s _ => ?_
    split
    · exact moved_setEnv rfl _
    · exact moved_fail _ fun _ => rfl
  | declare name => exact Leads.get fun s _ => moved_falls rfl (drawn_modifyHeap _)
  | store name property =>
    cases property with
    | true => exact moved_storeProperty name
    | false => exact moved_falls rfl (Leads.bind drawn_peek fun v => drawn_storeVariable name v)
  | fetch name access => exact moved_fetch name access
  | call argc bound => exact moved_callValue argc bound
  | loopStart =>
    refine Leads.get fun s _ s' hs => ?_
    exact hs.freed.moved (.next rfl) (.loop rfl s.env) rfl
  | loopEnd =>
    refine Leads.bind drawn_popSlot fun slot => ?_
    cases slot with
    | loopMarker _ => exact moved_falls rfl (Leads.pure fun s hs => hs.1 rfl)
    | _ => exact moved_fail _ fun _ => rfl
  | loopExit target => exact Leads.since (fun s hs => hs.freed) (moved_loopExit target)
  | enterTry l =>
    refine Leads.bind (moved_resolve rfl) fun handler => Leads.of_fact fun hl => ?_
    refine Leads.get fun s _ s' hs => ?_
    exact hs.freed.moved (.next rfl) (.region rfl hl s.env) rfl
  | leaveTry =>
    refine Leads.bind drawn_popSlot fun slot => ?_
    cases slot with
    | tryRegion _ => exact Leads.pure fun s hs => (hs.2 rfl).moved (.next rfl) .nothing rfl
    | _ => exact moved_fail _ fun _ => rfl
  | throw => exact Leads.bind drawn_pop fun v => moved_throwValue v
  | createObject className => exact moved_createObject className
  | makeArray size =>
    refine Leads.bind (drawn_popValues size) fun items => ?_
    exact Leads.bind (drawn_onHeap _) fun id => moved_push rfl _

/-- a value is returned to the nearest caller -/
theorem moved_ret :
    Leads linked (· = s₀) (dispatch .ret) (Moved linked .ret s₀) (Fails linked .ret s₀) := by
  rintro s rfl
  rw [dispatch_ret, returnFromCall_eq]
  cases hr : pop linked s with
  | error e s' =>
    have hpop : Leads linked (Drawn s) pop _ (Fails linked .ret s) := drawn_pop
    exact hpop.error (.refl s) hr
  | ok v s' =>
    have hslots := pop_ok hr
    dsimp only
    cases hunwind : s'.stack.unwind callSite? with
    | none => exact .stuck rfl
    | some found =>
      obtain ⟨site, rest⟩ := found
      refine .returned rfl hslots ?_ rfl rfl rfl rfl
      rw [← s'.stack.eq_of]
      exact hunwind

/-- All that one instruction does. -/
theorem moved_dispatch :
    Leads linked (· = s₀) (dispatch op) (Moved linked op s₀) (Fails linked op s₀) := by
  have hperform (hret : op ≠ .ret) (hhalt : op ≠ .halt) :
      Leads linked (· = s₀) (perform op) _ (Fails linked op s₀) := moved_perform hret hhalt
  cases op with
  | ret => exact moved_ret
  | debugger =>
    rintro s rfl
    have hbefore : s.stack.slots = [] ++ s.stack.slots := rfl
    exact .within (.inr rfl) (.next rfl) (List.forall_mem_nil _) hbefore .nothing rfl
  | halt =>
    rintro s rfl
    exact .halted rfl
  | _ => exact Leads.bind (hperform nofun nofun) fun _ => Leads.pure fun s hs => hs

end

end Exec

/-! ## instructions of a run -/

/-- the state behind the instruction that is next -/
def State.next (s : State) : State :=
  { s with location := ⟨s.location.sectionIndex, s.location.pc + 1⟩ }

section
variable {linked : Linked} {op : Op} {s s' : State}

/-- **All that one instruction does** to the place and the stack, if it does not fail. -/
theorem moved_of_execute {signal : Signal} (h : execute linked op s = .ok signal s') :
    Moved linked op s.next signal s' := Exec.moved_dispatch.ok rfl h

/-- All the ways in which one instruction fails. -/
theorem fails_of_execute {e : RuntimeError} (h : execute linked op s = .error e s') :
    Fails linked op s.next e s' := Exec.moved_dispatch.error rfl h

end

section
variable (linked : Linked) (limits : Limits) (drive : Drive) (run : Run)

/-- the instruction is next -/
def Run.IsAt (ins : Instruction) : Prop :=
  linked.program.instruction? run.state.location.sectionIndex run.state.location.pc = some ins

/-- All that comes of one instruction of a run, or of a pause before it. -/
inductive Ticks : Progress → Prop
  | lost (h : linked.program.instruction? run.state.location.sectionIndex run.state.location.pc = none) :
    Ticks (.stopped (.failed (Exec.defectAt run.state .outOfCode) run.state))
  | waits (hdrive : drive = .step) : Ticks (.stopped (.paused run.state))
  | limited {e : RuntimeError} (h : limits.exceeded? (run.cycles + 1) run.state.stack.depth = some e) :
    Ticks (.stopped (.failed e run.state))
  | fails {ins : Instruction} {e : RuntimeError} {s : State} (hins : run.IsAt linked ins)
      (h : execute linked ins.op run.state = .error e s) : Ticks (.stopped (.failed e s))
  | goes {ins : Instruction} {signal : Signal} {s : State} (hins : run.IsAt linked ins)
      (h : execute linked ins.op run.state = .ok signal s)
      (hsignal : signal = .proceed ∨ signal = .pause ∧ drive = .call) :
    Ticks (.going ⟨s, run.cycles + 1, true⟩)
  | pauses {ins : Instruction} {s : State} (hins : run.IsAt linked ins)
      (h : execute linked ins.op run.state = .ok .pause s) (hdrive : drive ≠ .call) :
    Ticks (.stopped (.paused s))
  | halts {ins : Instruction} {s : State} (hins : run.IsAt linked ins)
      (h : execute linked ins.op run.state = .ok .halt s) : Ticks (.stopped (.halted s))
  | returns {ins : Instruction} {s : State} (hins : run.IsAt linked ins)
      (h : execute linked ins.op run.state = .ok .hostReturn s) : Ticks (.stopped (.returned s))

theorem ticks : Ticks linked limits drive run (tick linked limits drive run) := by
  unfold tick
  dsimp only
  cases hins : linked.program.instruction? run.state.location.sectionIndex run.state.location.pc with
  | none => exact .lost hins
  | some ins =>
    dsimp only
    by_cases hwait : drive = .step ∧ ins.startsStatement ∧ run.moved
    · rw [if_pos hwait]
      exact .waits hwait.1
    · rw [if_neg hwait]
      cases hlimit : limits.exceeded? (run.cycles + 1) run.state.stack.depth with
      | some e => exact .limited hlimit
      | none =>
        cases hexec : execute linked ins.op run.state with
        | error e s => exact .fails hins hexec
        | ok signal s =>
          cases signal with
          | proceed => exact .goes hins hexec (.inl rfl)
          | halt => exact .halts hins hexec
          | hostReturn => exact .returns hins hexec
          | pause =>
            dsimp only
            by_cases hcall : drive = .call
            · rw [if_pos hcall]
              exact .goes hins hexec (.inr ⟨rfl, hcall⟩)
            · rw [if_neg hcall]
              exact .pauses hins hexec hcall

end

end ScriptMachine
