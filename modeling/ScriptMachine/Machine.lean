import ScriptMachine.Machine.Run

/-!
# The machine as the host sees it

A machine runs one program.  It can be run to its end, stepped through statement by statement, and,
once the program is done, asked to call functions.

* `Machine`: a loaded program with its state;
* `Machine.load`: a machine for a program that passes all checks;
* `Machine.resume`: running and stepping;
* `Machine.call`: a function by its name;
* `Machine.pending?`: the instruction that is next.

Whatever can go on without end takes a number of instructions after which it gives up, and then
there is no result.
-/

namespace ScriptMachine

inductive Mode where
  | paused
  | done
  deriving DecidableEq, Repr

def Mode.name : Mode → String
  | paused => "Paused"
  | done => "Done"

structure Machine where
  linked : Linked
  limits : Limits
  state : State
  mode : Mode
  /-- was anything executed since the last pause? -/
  moved : Bool

/-- what an operation of the host came to, and the machine after it -/
abbrev Machine.Outcome (α : Type) := Except RuntimeError α × Machine

namespace Machine

/-- A machine before the first instruction of a program. -/
def load (program : Program) (limits : Limits) : Except VerifyError Machine := do
  program.verify
  let labels ← program.checkedLabels
  let (global, heap) := Heap.empty.newGlobal
  return {
    linked := ⟨program, labels, global, []⟩
    limits := limits
    state := ⟨⟨0, 0⟩, global, Stack.empty, heap, []⟩
    mode := .paused
    moved := false }

/-- makes a function of the host known to the script; a later one replaces it -/
def register (m : Machine) (name : String) (native : Native) : Machine :=
  { m with linked := { m.linked with natives := (name, native) :: m.linked.natives } }

/-! ## running and stepping -/

/-- a failed run is over, its stack empty and its scopes left -/
def abandon (m : Machine) (s : State) : Machine :=
  { m with mode := .done, state := { s with stack := Stack.empty, env := m.linked.global } }

/-- Goes on until the run pauses, ends or fails.  A program that is done stays so. -/
def resume (m : Machine) (drive : Drive) (fuel : Nat) : Option (Outcome Mode) :=
  match m.mode with
  | .done => some (.ok .done, m)
  | .paused =>
    match runFor m.linked m.limits drive fuel ⟨m.state, 0, m.moved⟩ with
    | none => none
    | some (.failed error s) => some (.error error, m.abandon s)
    | some (.halted s) => some (.ok .done, { m with state := s, mode := .done, moved := true })
    | some (.paused s) => some (.ok .paused, { m with state := s, moved := false })
    | some (.returned s) => some (.ok .paused, { m with state := s, moved := true })

/-- runs to the end or to a `debugger` statement -/
def run (m : Machine) (fuel : Nat) : Option (Outcome Mode) := m.resume .run fuel

/-- runs to the next statement -/
def step (m : Machine) (fuel : Nat) : Option (Outcome Mode) := m.resume .step fuel

/-! ## calling functions -/

/-- the values of host data on a heap, one after another -/
def importArgs (m : Machine) (args : List HostValue) : List Value × State :=
  let (values, heap) := m.linked.program.fromHostAll m.linked.global args m.state.heap
  (values, { m.state with heap := heap })

/-- Back to before a call, keeping the heap and what was shown. -/
def restore (before : State) (after : State) : State :=
  { after with
    location := before.location
    env := before.env
    stack := after.stack.truncate before.stack.depth }

/-- the end of a call: the value on top of the stack, or the state before the call -/
def finishCall (m : Machine) (before : State) : Stop → Outcome HostValue
  | .returned s =>
    match Exec.pop.run m.linked s with
    | .ok v s => (.ok (m.linked.program.toHost s.heap v), { m with state := s })
    | .error error s => (.error error, { m with state := restore before s })
  | .failed error s => (.error error, { m with state := restore before s })
  | .halted s => (.error (Exec.defectAt s .hostCallEnded), { m with state := restore before s })
  | .paused s => (.error (Exec.defectAt s .hostCallEnded), { m with state := restore before s })

/-- Calls a function of the program, which must be done. -/
def call (m : Machine) (name : String) (args : List HostValue) (fuel : Nat) :
    Option (Outcome HostValue) :=
  match m.mode with
  | .paused => some (.error (.notDone name), m)
  | .done =>
    match m.linked.program.functionIndex? name with
    | none => some (.error (.unknownFunction name), m)
    | some index =>
      let (values, before) := m.importArgs args
      match (Exec.enterFunction index values none true).run m.linked before with
      | .error error s => some (.error error, { m with state := s })
      | .ok _ s => (runFor m.linked m.limits .call fuel ⟨s, 0, m.moved⟩).map (m.finishCall before)

/-! ## looking at a machine -/

/-- the value of a global variable, `undefined` if there is none -/
def global (m : Machine) (name : String) : HostValue :=
  match m.state.heap.getOwn? m.linked.global name with
  | some v => m.linked.program.toHost m.state.heap v
  | none => .undefined

/-- the instruction that is next, unless the program is done -/
def pending? (m : Machine) : Option Instruction :=
  match m.mode with
  | .done => none
  | .paused =>
    m.linked.program.instruction? m.state.location.sectionIndex m.state.location.pc

def pendingRange? (m : Machine) : Option TokenRange := m.pending?.bind Instruction.range

/-- the source text of the construct that is next -/
def pendingSource? (m : Machine) : Option String :=
  m.pendingRange?.bind m.linked.program.sourceFor?

/-- what was shown since the last time, in its order -/
def takeEvents (m : Machine) : List Event × Machine :=
  (m.state.events.reverse, { m with state := { m.state with events := [] } })

/-- the machine in one line -/
def inspect (m : Machine) : String :=
  "Vm \x7b section: " ++ toString m.state.location.sectionIndex ++ ", pc: "
    ++ toString m.state.location.pc ++ ", mode: " ++ m.mode.name ++ ", stack_depth: "
    ++ toString m.state.stack.depth ++ " \x7d"

end Machine

end ScriptMachine
