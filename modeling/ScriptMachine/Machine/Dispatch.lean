import ScriptMachine.Heap.Operator
import ScriptMachine.Machine.Call

/-!
# What instructions do

* `Signal`: what a run does after an instruction;
* `Exec.lookupScript`: what a name means to a script;
* `Exec.loopExit`: back to the innermost loop;
* `Exec.createObject`: a new instance of a class;
* `Exec.dispatch`: one instruction.
-/

namespace ScriptMachine

/-- what a run does after an instruction -/
inductive Signal where
  | proceed
  /-- a `debugger` statement -/
  | pause
  | halt
  /-- the function that the host called has returned -/
  | hostReturn
  deriving DecidableEq, Repr

namespace Exec

/-! ## names -/

/-- a name is looked up in the environments around, then in the function table; `this` is the
nearest object -/
def lookupScript? (linked : Linked) (s : State) (name : String) : Option Value :=
  if name = "this" then
    some (match s.heap.thisObject? s.env with
      | some env => .object env
      | none => .undefined)
  else
    (s.heap.lookup? s.env name).or ((linked.program.functionIndex? name).map .function)

def fetch (name : String) (access : Access) : Exec Unit := do
  let linked ← read
  match access with
  | .variable =>
    match lookupScript? linked (← get) name with
    | some value => push value
    | none => push (if linked.hasNative name then .native name else .undefined)
  | .callVariable argc =>
    match lookupScript? linked (← get) name with
    | some value => push value
    | none =>
      if linked.hasNative name then
        let args ← popValues argc
        match ← callNative name args with
        | .ok result => pushResult result
        | .error thrown => throwValue thrown
      else throwValue (notAFunction name)
  | .property =>
    let target ← pop
    match (← get).heap.getProperty target name with
    | .ok value => push value
    | .error thrown => throwValue thrown
  | .callProperty argc =>
    let target ← pop
    fetchMethod target name argc

/-- assigns to a variable; a name that is bound nowhere becomes global -/
def storeVariable (name : String) (value : Value) : Exec Unit := do
  let linked ← read
  modify fun s =>
    let owner := (s.heap.owner? s.env name).getD linked.global
    { s with heap := s.heap.define owner name value }

/-- assigns to a property -/
def storeProperty (name : String) : Exec Unit := do
  let value ← pop
  let target ← pop
  match target with
  | .object env =>
    modifyHeap (·.define env name value)
    push value
  | _ => throwValue (cannotSet name target)

/-! ## loops and objects -/

def loopMarker? : Slot → Option (Option EnvId)
  | .loopMarker env => some (some env)
  | .callSite _ => some none
  | _ => none

/-- Unwinds the stack to the innermost loop of the running function, which stays on it. -/
def loopExit (target : Option Label) : Exec Unit := do
  let s ← get
  match s.stack.unwind loopMarker? with
  | some (some env, rest) =>
    set { s with env := env, stack := rest.push (.loopMarker env) }
    match target with
    | some label => jump label
    | none => pure ()
  | some (none, rest) =>
    set { s with stack := rest }
    fail .loopExitOutsideLoop
  | none =>
    set { s with stack := Stack.empty }
    fail .loopExitOutsideLoop

/-- gives an object the methods of its class -/
def defineMethods (env : EnvId) : List (String × Nat) → Heap → Heap
  | [], heap => heap
  | (name, index) :: rest, heap => defineMethods env rest (heap.define env name (.function index))

def createObject (className : String) : Exec Unit := do
  let linked ← read
  match linked.program.class? className with
  | none => throwValue (typeError (className ++ " is not a class"))
  | some entry =>
    let env ← onHeap (·.newObject linked.global)
    modifyHeap (defineMethods env entry.methods)
    push (.object env)

/-! ## instructions -/

/-- one instruction that has no say in how the run goes on -/
def perform (op : Op) : Exec Unit := do
  match op with
  | .const index =>
    match (← read).program.constants[index]? with
    | some value => push value
    | none => fail (.noConstant index)
  | .pop =>
    let _ ← pop
  | .dup =>
    let value ← peek
    push value
  | .pick n =>
    match (← get).stack.pick? n with
    | some value => push value
    | none => fail (.pickedNoValue n)
  | .binary op =>
    let b ← pop
    let a ← pop
    let heap := (← get).heap
    push (heap.applyBinary op a b)
  | .neg => push (← pop).negate
  | .not => push (← pop).invert
  | .jump label => jump label
  | .jumpFalse label => if !(← pop).isTruthy then jump label
  | .jumpTrue label => if (← pop).isTruthy then jump label
  | .enterScope =>
    let env := (← get).env
    setEnv (← onHeap (·.newScope env))
  | .leaveScope =>
    let s ← get
    match s.heap.parent? s.env with
    | some parent => setEnv parent
    | none => fail .leaveGlobalScope
  | .declare name =>
    let env := (← get).env
    modifyHeap (·.declare env name)
  | .store name property => if property then storeProperty name else storeVariable name (← peek)
  | .fetch name access => fetch name access
  | .call argc bound => callValue argc bound
  | .loopStart =>
    let env := (← get).env
    pushSlot (.loopMarker env)
  | .loopEnd =>
    match ← popSlot with
    | .loopMarker _ => pure ()
    | slot => fail (.loopEndFound slot.kind)
  | .loopExit target => loopExit target
  | .enterTry label =>
    let handler ← resolve label
    let env := (← get).env
    pushSlot (.tryRegion ⟨handler, env⟩)
  | .leaveTry =>
    match ← popSlot with
    | .tryRegion _ => pure ()
    | slot => fail (.leaveTryFound slot.kind)
  | .throw => throwValue (← pop)
  | .createObject className => createObject className
  | .makeArray size =>
    let items ← popValues size
    push (.array (← onHeap (·.newArray items.toArray)))
  | _ => pure ()

/-- one instruction -/
def dispatch (op : Op) : Exec Signal := do
  match op with
  | .ret => return if ← returnFromCall then .hostReturn else .proceed
  | .debugger => return .pause
  | .halt => return .halt
  | op =>
    perform op
    return .proceed

end Exec

end ScriptMachine
