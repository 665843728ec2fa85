import ScriptMachine.Machine.Property
import ScriptMachine.Machine.State

/-!
# Throwing, calling and returning

* `Exec.throwValue`: goes on at the nearest handler, or fails;
* `Exec.callNative`: functions of the host and `print`;
* `Exec.enterFunction`: functions of the program;
* `Exec.returnFromCall`: back to the nearest caller;
* `Exec.fetchMethod`, `Exec.callValue`: the two halves of a call.
-/

namespace ScriptMachine.Exec

/-! ## throwing -/

/-- the error of a value that nothing catches -/
def uncaughtError (linked : Linked) (s : State) (value : Value) (frames : List String) :
    RuntimeError :=
  .uncaught (s.heap.text value) (linked.program.toHost s.heap value) frames

/-- Unwinds the stack to the nearest region that catches, and goes on there with the value.  A value
does not get beyond the call of the host. -/
def throwValue (value : Value) : Exec Unit := do
  let linked ← read
  let s ← get
  let frames (callers : List Location) : List String :=
    (s.location :: callers).map linked.sectionName
  match s.stack.unwindThrow with
  | .caught region rest =>
    set { s with
      location := region.handler
      env := region.env
      stack := rest.push (.value value) }
  | .reachedHost site callers rest =>
    let s' : State := { s with location := site.caller, env := site.env, stack := rest }
    set s'
    throw (uncaughtError linked s' value (frames callers))
  | .uncaught callers =>
    set { s with stack := Stack.empty }
    throw (uncaughtError linked s value (frames callers))

/-! ## functions of the host -/

/-- the values of host data -/
def fromHost (value : HostValue) : Exec Value := do
  let linked ← read
  onHeap (linked.program.fromHost linked.global value)

/-- calls a function of the host: its result or a value to throw -/
def callNative (name : String) (args : List Value) : Exec (Except Value Value) := do
  let linked ← read
  match linked.native? name with
  | some native =>
    let heap := (← get).heap
    let args := args.map (linked.program.toHost heap)
    note (.called name args)
    match native args with
    | .ok result => return .ok (← fromHost result)
    | .error thrown => return .error (← fromHost thrown)
  | none =>
    if name = Linked.printName then
      let heap := (← get).heap
      note (.printed (" ".intercalate (args.map heap.text)))
      return .ok .undefined
    else return .error (notAFunction name)

/-! ## functions of the program -/

/-- gives the parameters of a function their values; missing arguments are `undefined` -/
def bindParameters (env : EnvId) : List String → List Value → Heap → Heap
  | [], _, heap => heap
  | param :: params, args, heap =>
    bindParameters env params args.tail (heap.define env param (args.head?.getD .undefined))

/-- Saves the caller and starts a function in a new scope.  The scope of a method continues in its
object, any other in the global one. -/
def enterFunction (index : Nat) (args : List Value) (receiver : Option Value) (fromHost : Bool) :
    Exec Unit := do
  let linked ← read
  match linked.program.functions[index]? with
  | none => fail (.noFunction index)
  | some entry =>
    let parent := match receiver with
      | some (.object env) => env
      | _ => linked.global
    let scope ← onHeap (·.newScope parent)
    modifyHeap (bindParameters scope entry.params args)
    modify fun s =>
      { s with
        location := ⟨entry.body, 0⟩
        env := scope
        stack := s.stack.push (.callSite ⟨s.location, s.env, index, fromHost⟩) }

def callSite? : Slot → Option CallSite
  | .callSite site => some site
  | _ => none

/-- Returns the value on top to the nearest caller.  Was it the host? -/
def returnFromCall : Exec Bool := do
  let value ← pop
  let s ← get
  match s.stack.unwind callSite? with
  | none =>
    set { s with stack := Stack.empty }
    fail .returnWithoutCall
  | some (site, rest) =>
    set { s with
      location := site.caller
      env := site.env
      stack := rest.push (.value value) }
    return site.fromHost

/-! ## calls -/

/-- Finds a method for a call.  Methods of the machine itself run here. -/
def fetchMethod (target : Value) (name : String) (argc : Nat) : Exec Unit := do
  match (← get).heap.method target name with
  | .callee value => push value
  | .missing thrown => throwValue thrown
  | .refusing thrown =>
    let _ ← popValues argc
    throwValue thrown
  | .immediate run =>
    let args ← popValues argc
    match ← onHeap (run args) with
    | .ok result => pushResult result
    | .error thrown => throwValue thrown

/-- Calls the value on top of the stack, unless the call is already made. -/
def callValue (argc : Nat) (bound : Bool) : Exec Unit := do
  match ← popSlot with
  | .nativeResult =>
    if bound then
      let result ← pop
      let _ ← pop
      push result
  | .value (.function index) =>
    let args ← popValues argc
    let receiver ← if bound then some <$> pop else pure none
    enterFunction index args receiver false
  | .value (.native name) =>
    let args ← popValues argc
    if bound then
      let _ ← pop
    match ← callNative name args with
    | .ok result => push result
    | .error thrown => throwValue thrown
  | .value other =>
    let heap := (← get).heap
    throwValue (notAFunction (heap.text other))
  | slot => fail (.callFound slot.kind)

end ScriptMachine.Exec
