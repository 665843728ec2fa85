import ScriptMachine.Heap
import ScriptMachine.HostValue.Convert
import ScriptMachine.Machine.Error
import ScriptMachine.Machine.Stack

/-!
# The state of a run

* `Linked`: what a run reads: the program, its labels and the functions of the host;
* `State`: what a run changes;
* `Exec`: a step of a run, which keeps the state also when it fails;
* `Exec.pop`, `Exec.popValues`, `Exec.peek`, `Exec.jump`: the steps that instructions are made of.
-/

namespace ScriptMachine

/-- a function of the host: its result, or a value to throw -/
abbrev Native := List HostValue → Except HostValue HostValue

/-- a program that is ready to run -/
structure Linked where
  program : Program
  labels : LabelTable
  global : EnvId
  /-- the functions that the host has registered, the latest first -/
  natives : List (String × Native)

/-- what a run shows to the outside -/
inductive Event where
  | printed (text : String)
  | called (native : String) (args : List HostValue)

structure State where
  /-- the instruction that is next -/
  location : Location
  env : EnvId
  stack : Stack
  heap : Heap
  /-- what was shown so far, the latest first -/
  events : List Event

/-- a step of a run -/
abbrev Exec := ReaderT Linked (EStateM RuntimeError State)

namespace Linked

def native? (linked : Linked) (name : String) : Option Native :=
  (linked.natives.find? fun n => n.1 = name).map Prod.snd

/-- a function that every machine has -/
def printName : String := "print"

/-- does the host or the machine have a function of this name? -/
def hasNative (linked : Linked) (name : String) : Bool :=
  (linked.native? name).isSome || name = printName

def sectionName (linked : Linked) (location : Location) : String :=
  (linked.program.sections[location.sectionIndex]?.map Section.name).getD ""

end Linked

namespace Exec

/-- a defect at the instruction before the next one, which is the one that runs -/
def defectAt (s : State) (cause : Defect) : RuntimeError :=
  .defect cause ⟨s.location.sectionIndex, s.location.pc - 1⟩

def fail {α : Type} (cause : Defect) : Exec α := do
  throw (defectAt (← get) cause)

/-! ## the stack -/

def pushSlot (slot : Slot) : Exec Unit := modify fun s => { s with stack := s.stack.push slot }

def push (value : Value) : Exec Unit := pushSlot (.value value)

/-- the result of a call that is already made -/
def pushResult (value : Value) : Exec Unit := do
  push value
  pushSlot .nativeResult

def popSlot : Exec Slot := do
  let s ← get
  match s.stack.pop? with
  | none => fail .stackUnderflow
  | some (slot, rest) =>
    set { s with stack := rest }
    return slot

def pop : Exec Value := do
  match ← popSlot with
  | .value v => return v
  | slot => fail (.expectedValue slot.kind)

/-- so many values, the top one first -/
def popValues : Nat → Exec (List Value)
  | 0 => return []
  | n + 1 => do
    let v ← pop
    let rest ← popValues n
    return v :: rest

def peek : Exec Value := do
  match (← get).stack.top? with
  | some (.value v) => return v
  | some slot => fail (.expectedValue slot.kind)
  | none => fail .stackUnderflow

/-! ## places -/

def resolve (label : Label) : Exec Location := do
  match (← read).labels.resolve? label with
  | some location => return location
  | none => fail (.unresolvedLabel label)

def jump (label : Label) : Exec Unit := do
  let location ← resolve label
  modify fun s => { s with location := location }

def setEnv (env : EnvId) : Exec Unit := modify fun s => { s with env := env }

/-! ## the heap -/

def modifyHeap (f : Heap → Heap) : Exec Unit := modify fun s => { s with heap := f s.heap }

/-- a step that gives a result and a new heap -/
def onHeap {α : Type} (f : Heap → α × Heap) : Exec α :=
  modifyGet fun s =>
    let (a, heap) := f s.heap
    (a, { s with heap := heap })

def note (event : Event) : Exec Unit := modify fun s => { s with events := event :: s.events }

end Exec

end ScriptMachine
