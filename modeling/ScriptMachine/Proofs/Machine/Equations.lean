import Mathlib
import ScriptMachine.Machine.Dispatch

/-!
# Helpers of the instructions by what they find

A helper of the instructions reads the program or the state and goes on by what it finds there.  If
this is known, the helper is what is left to do.

* `Stack.unwind_cons`              the top entry is wanted or dropped;
* `Exec.bind_ok`, `Exec.bind_same`  the first of two steps is known;
* `Exec.read_bind`, `Exec.get_bind` the first of two steps reads;
* `Exec.resolve_some`, `Exec.fetchVariable_some`, …   helpers by what they find;
* `Exec.loopExit_result`            where a loop is left to;
* `Exec.throwValue_eq`              where a thrown value goes on;
* `Exec.enterFunction_eq`           a function of the table at its start.
-/

namespace ScriptMachine

/-! ## the stack -/

namespace Stack

/-- the stack of some slots -/
def of (slots : List Slot) : Stack := ⟨slots, slots.length, rfl⟩

theorem eq_of (s : Stack) : s = of s.slots := ext_slots rfl

@[simp] theorem slots_of (slots : List Slot) : (of slots).slots = slots := rfl

@[simp] theorem depth_of (slots : List Slot) : (of slots).depth = slots.length := rfl

variable {α : Type}

theorem unwind_cons (wanted : Slot → Option α) (slot : Slot) (rest : List Slot) :
    (of (slot :: rest)).unwind wanted = match wanted slot with
      | some a => some (a, of rest)
      | none => (of rest).unwind wanted := rfl

end Stack

namespace Exec

variable {α β : Type} {linked : Linked} {s s' : State}

/-! ## two steps -/

theorem bind_ok {x : Exec α} {a : α} (h : x linked s = .ok a s') (f : α → Exec β) :
    (x >>= f) linked s = f a linked s' := by
  show EStateM.bind (x linked) _ s = _
  unfold EStateM.bind
  rw [h]

theorem bind_error {x : Exec α} {e : RuntimeError} (h : x linked s = .error e s') (f : α → Exec β) :
    (x >>= f) linked s = .error e s' := by
  show EStateM.bind (x linked) _ s = _
  unfold EStateM.bind
  rw [h]

theorem bind_same {x y : Exec α} (h : x linked s = y linked s') (f : α → Exec β) :
    (x >>= f) linked s = (y >>= f) linked s' := by
  show EStateM.bind (x linked) _ s = EStateM.bind (y linked) _ s'
  unfold EStateM.bind
  rw [h]

theorem read_bind (f : Linked → Exec α) : (read >>= f) linked s = f linked linked s := rfl

theorem get_bind (f : State → Exec α) : (get >>= f) linked s = f s linked s := rfl

/-! ## places and constants -/

theorem resolve_some {label : Label} {loc : Location}
    (h : linked.labels.resolve? label = some loc) : resolve label linked s = .ok loc s := by
  unfold resolve
  rw [read_bind, h]
  rfl

theorem const_some {index : Nat} {v : Value} (h : linked.program.constants[index]? = some v) :
    perform (.const index) linked s = push v linked s := by
  rw [perform, read_bind, h]

/-! ## the stack and the environment -/

theorem pick_some {n : Nat} {v : Value} (h : s.stack.pick? n = some v) :
    perform (.pick n) linked s = push v linked s := by
  rw [perform, get_bind, h]

theorem pick_none {n : Nat} (h : s.stack.pick? n = none) :
    perform (.pick n) linked s = fail (.pickedNoValue n) linked s := by
  rw [perform, get_bind, h]

theorem leaveScope_some {parent : EnvId} (h : s.heap.parent? s.env = some parent) :
    perform .leaveScope linked s = setEnv parent linked s := by
  rw [perform, get_bind, h]

/-- where a loop is left to -/
theorem loopExit_result (target : Option Label) (s : State) :
    loopExit target linked s = match s.stack.unwind loopMarker? with
      | some (some env, rest) => (match target with
        | some label => jump label
        | none => pure () : Exec Unit) linked
          { s with env := env, stack := rest.push (.loopMarker env) }
      | some (none, rest) => .error (defectAt s .loopExitOutsideLoop) { s with stack := rest }
      | none => .error (defectAt s .loopExitOutsideLoop) { s with stack := Stack.empty } := by
  unfold loopExit
  rw [get_bind]
  rcases s.stack.unwind loopMarker? with _ | ⟨_ | env, rest⟩ <;> rfl

/-! ## names -/

variable {name : String} {argc : Nat} {v target : Value}

theorem fetchVariable_some (h : lookupScript? linked s name = some v) :
    fetch name .variable linked s = push v linked s := by
  unfold fetch
  rw [read_bind]
  dsimp only
  rw [get_bind, h]

theorem fetchVariable_none (h : lookupScript? linked s name = none) :
    fetch name .variable linked s
      = push (if linked.hasNative name then .native name else .undefined) linked s := by
  unfold fetch
  rw [read_bind]
  dsimp only
  rw [get_bind, h]

theorem fetchCallee_some (h : lookupScript? linked s name = some v) :
    fetch name (.callVariable argc) linked s = push v linked s := by
  unfold fetch
  rw [read_bind]
  dsimp only
  rw [get_bind, h]

theorem fetchCallee_unknown (h : lookupScript? linked s name = none)
    (hnative : linked.hasNative name = false) :
    fetch name (.callVariable argc) linked s = throwValue (notAFunction name) linked s := by
  unfold fetch
  rw [read_bind]
  dsimp only
  rw [get_bind, h, hnative]
  rfl

/-- what is left to do when a function of the host was called -/
def answer (give : Value → Exec Unit) : Except Value Value → Exec Unit
  | .ok result => give result
  | .error thrown => throwValue thrown

/-- a function of the host that is called by its name -/
theorem fetchCallee_native (h : lookupScript? linked s name = none)
    (hnative : linked.hasNative name = true) {args : List Value} {outcome : Except Value Value}
    {s₁ s₂ : State} (hargs : popValues argc linked s = .ok args s₁)
    (hcall : callNative name args linked s₁ = .ok outcome s₂) :
    fetch name (.callVariable argc) linked s = answer pushResult outcome linked s₂ := by
  unfold fetch
  rw [read_bind]
  dsimp only
  rw [get_bind, h]
  dsimp only
  rw [if_pos hnative]
  refine (bind_ok hargs _).trans ((bind_ok hcall _).trans ?_)
  cases outcome <;> rfl

theorem fetchProperty_ok {s₁ : State} (hpop : pop linked s = .ok target s₁)
    (h : s₁.heap.getProperty target name = .ok v) :
    fetch name .property linked s = push v linked s₁ := by
  unfold fetch
  rw [read_bind]
  dsimp only
  rw [bind_ok hpop, get_bind, h]

theorem fetchProperty_error {s₁ : State} (hpop : pop linked s = .ok target s₁)
    (h : s₁.heap.getProperty target name = .error v) :
    fetch name .property linked s = throwValue v linked s₁ := by
  unfold fetch
  rw [read_bind]
  dsimp only
  rw [bind_ok hpop, get_bind, h]

theorem fetchMethod_missing (h : s.heap.method target name = .missing v) :
    fetchMethod target name argc linked s = throwValue v linked s := by
  unfold fetchMethod
  rw [get_bind, h]

/-! ## functions -/

theorem throwValue_eq (v : Value) (s : State) :
    throwValue v linked s = match s.stack.unwindThrow with
      | .caught region rest => .ok ()
        { s with location := region.handler, env := region.env, stack := rest.push (.value v) }
      | .reachedHost site callers rest =>
        let s' : State := { s with location := site.caller, env := site.env, stack := rest }
        .error (uncaughtError linked s' v ((s.location :: callers).map linked.sectionName)) s'
      | .uncaught callers =>
        .error (uncaughtError linked s v ((s.location :: callers).map linked.sectionName))
          { s with stack := Stack.empty } := by
  unfold throwValue
  rw [read_bind]
  dsimp only
  rw [get_bind]
  cases s.stack.unwindThrow <;> rfl

/-- the environment that a function's scope continues in -/
def calleeParent (linked : Linked) : Option Value → EnvId
  | some (.object env) => env
  | _ => linked.global

/-- a function at its start -/
def calleeState (linked : Linked) (index : Nat) (entry : FunctionEntry) (args : List Value)
    (receiver : Option Value) (fromHost : Bool) (s : State) : State :=
  let scope := s.heap.newScope (calleeParent linked receiver)
  ⟨⟨entry.body, 0⟩, scope.1, s.stack.push (.callSite ⟨s.location, s.env, index, fromHost⟩),
    bindParameters scope.1 entry.params args scope.2, s.events⟩

theorem enterFunction_eq {index : Nat} {entry : FunctionEntry}
    (h : linked.program.functions[index]? = some entry) (args : List Value)
    (receiver : Option Value) (fromHost : Bool) (s : State) :
    enterFunction index args receiver fromHost linked s
      = .ok () (calleeState linked index entry args receiver fromHost s) := by
  unfold enterFunction
  rw [read_bind, h]
  rfl

theorem enterFunction_none {index : Nat} (h : linked.program.functions[index]? = none)
    (args : List Value) (receiver : Option Value) (fromHost : Bool) (s : State) :
    enterFunction index args receiver fromHost linked s
      = .error (defectAt s (.noFunction index)) s := by
  unfold enterFunction
  rw [read_bind, h]
  rfl

/-- the value that is taken was on top -/
theorem pop_ok {v : Value} (h : pop linked s = .ok v s') :
    s.stack.slots = .value v :: s'.stack.slots := by
  obtain ⟨loc, env, ⟨slots, depth, hdepth⟩, heap, events⟩ := s
  cases slots with
  | nil => cases h
  | cons slot slots =>
    cases slot with
    | value w =>
      cases h
      rfl
    | _ => cases h

theorem pop_error {e : RuntimeError} (h : pop linked s = .error e s') :
    ∃ cause location, e = .defect cause location := by
  obtain ⟨loc, env, ⟨slots, depth, hdepth⟩, heap, events⟩ := s
  cases slots with
  | nil =>
    cases h
    exact ⟨_, _, rfl⟩
  | cons slot slots =>
    cases slot <;> cases h <;> exact ⟨_, _, rfl⟩

theorem popValues_of (vs : List Value) (st : List Slot) (s : State) :
    popValues vs.length linked { s with stack := .of (vs.map .value ++ st) }
      = .ok vs { s with stack := .of st } := by
  induction vs with
  | nil => rfl
  | cons v vs ih => exact bind_ok ih _

/-- a call finds its callee, the arguments and the receiver, if it has one -/
theorem callValue_function {index : Nat} {entry : FunctionEntry}
    (h : linked.program.functions[index]? = some entry) (args : List Value) (receiver : Option Value)
    (st : List Slot) (s : State) :
    callValue args.length receiver.isSome linked { s with
        stack := .of (.value (.function index) :: (args.map .value ++ (receiver.toList.map .value ++ st))) }
      = .ok () (calleeState linked index entry args receiver false { s with stack := .of st }) := by
  refine (bind_ok (popValues_of args _ s) _).trans ?_
  cases receiver with
  | none => exact enterFunction_eq h args none false _
  | some v => exact enterFunction_eq h args (some v) false _

/-- a call of what is no function -/
theorem callValue_other (hfun : ∀ index, v ≠ .function index) (hnative : ∀ name, v ≠ .native name)
    (st : List Slot) (s : State) :
    callValue argc false linked { s with stack := .of (.value v :: st) }
      = throwValue (notAFunction (s.heap.text v)) linked { s with stack := .of st } := by
  have hpop : popSlot linked { s with stack := .of (.value v :: st) }
      = .ok (.value v) { s with stack := .of st } := rfl
  refine (bind_ok hpop _).trans ?_
  cases v with
  | function index => exact absurd rfl (hfun index)
  | native name => exact absurd rfl (hnative name)
  | _ => exact get_bind _

/-- a call of a function of the host -/
theorem callValue_native {args : List Value} {outcome : Except Value Value} {below : List Slot}
    {s₁ s₂ : State} (hcall : callNative name args linked { s₁ with stack := .of below } = .ok outcome s₂) :
    callValue args.length false linked
        { s₁ with stack := .of (.value (.native name) :: (args.map .value ++ below)) }
      = answer push outcome linked s₂ := by
  refine (bind_ok (popValues_of args below s₁) _).trans ((bind_ok hcall _).trans ?_)
  cases outcome <;> rfl

theorem returnFromCall_eq (s : State) :
    returnFromCall linked s = match pop linked s with
      | .error e s => .error e s
      | .ok v s => match s.stack.unwind callSite? with
        | none => .error (defectAt s .returnWithoutCall) { s with stack := Stack.empty }
        | some (site, rest) => .ok site.fromHost
          { s with location := site.caller, env := site.env, stack := rest.push (.value v) } := by
  unfold returnFromCall
  cases hpop : pop linked s with
  | error e s' => exact bind_error hpop _
  | ok v s' =>
    rw [bind_ok hpop, get_bind]
    dsimp only
    cases s'.stack.unwind callSite? <;> rfl

theorem dispatch_ret (s : State) :
    dispatch .ret linked s = match returnFromCall linked s with
      | .error e s => .error e s
      | .ok toHost s => .ok (if toHost then .hostReturn else .proceed) s := by
  cases hret : returnFromCall linked s with
  | ok toHost s' => exact bind_ok hret _
  | error e s' => exact bind_error hret _

theorem callNative_some {native : Native} (h : linked.native? name = some native) (args : List Value) :
    callNative name args linked s
      = (match native (args.map (linked.program.toHost s.heap)) with
        | .ok result => do return .ok (← fromHost result)
        | .error thrown => do return .error (← fromHost thrown) : Exec (Except Value Value)) linked
          { s with events := .called name (args.map (linked.program.toHost s.heap)) :: s.events } := by
  unfold callNative
  rw [read_bind, h]
  dsimp only
  rw [get_bind]
  rfl

theorem callNative_none (h : linked.native? name = none) (args : List Value) :
    callNative name args linked s
      = (if name = Linked.printName then do
          note (.printed (" ".intercalate (args.map s.heap.text)))
          return .ok .undefined
        else return .error (notAFunction name) : Exec (Except Value Value)) linked s := by
  unfold callNative
  rw [read_bind, h]
  dsimp only
  split <;> rfl

end Exec

end ScriptMachine
