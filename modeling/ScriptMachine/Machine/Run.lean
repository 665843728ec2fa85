import ScriptMachine.Machine.Dispatch

/-!
# Runs

* `Limits`: how long a run may take and how deep its stack may get;
* `Drive`: how the host drives a run;
* `Run`: a state, the number of instructions since the host came in, and whether there was one since
  the last pause;
* `Stop`: the ways in which a run stops;
* `tick`: one instruction;
* `runFor`: instructions until the run stops, at most so many.
-/

namespace ScriptMachine

structure Limits where
  /-- the most instructions each time that the host comes in -/
  maxCycles : Option Nat := none
  maxStackDepth : Nat := 10000
  deriving DecidableEq, Repr

inductive Drive where
  /-- to the end -/
  | run
  /-- to the next statement -/
  | step
  /-- to the return of a function that the host called -/
  | call
  deriving DecidableEq, Repr

structure Run where
  state : State
  cycles : Nat
  /-- was anything executed since the last pause? -/
  moved : Bool

/-- how a run stops -/
inductive Stop where
  | paused (state : State)
  | halted (state : State)
  /-- the function that the host called has returned -/
  | returned (state : State)
  | failed (error : RuntimeError) (state : State)

inductive Progress where
  | going (run : Run)
  | stopped (stop : Stop)

/-- the limit that an instruction would break, if it is the `cycles`-th one -/
def Limits.exceeded? (limits : Limits) (cycles depth : Nat) : Option RuntimeError :=
  match limits.maxCycles with
  | some max =>
    if max < cycles then some (.tooManyCycles max)
    else if limits.maxStackDepth < depth then some (.stackOverflow limits.maxStackDepth)
    else none
  | none =>
    if limits.maxStackDepth < depth then some (.stackOverflow limits.maxStackDepth) else none

/-- Executes one instruction and moves on behind it before. -/
def execute (linked : Linked) (op : Op) (s : State) : EStateM.Result RuntimeError State Signal :=
  let next : State := { s with location := ⟨s.location.sectionIndex, s.location.pc + 1⟩ }
  (Exec.dispatch op).run linked next

/-- One instruction of a run.  A run that steps stops before the first instruction of a statement,
if it has moved. -/
def tick (linked : Linked) (limits : Limits) (drive : Drive) (run : Run) : Progress :=
  let s := run.state
  match linked.program.instruction? s.location.sectionIndex s.location.pc with
  | none => .stopped (.failed (Exec.defectAt s .outOfCode) s)
  | some instruction =>
    if drive = .step ∧ instruction.startsStatement ∧ run.moved then .stopped (.paused s)
    else
      match limits.exceeded? (run.cycles + 1) s.stack.depth with
      | some error => .stopped (.failed error s)
      | none =>
        match execute linked instruction.op s with
        | .error error s => .stopped (.failed error s)
        | .ok .proceed s => .going ⟨s, run.cycles + 1, true⟩
        | .ok .pause s =>
          -- a function that the host called is never paused
          if drive = .call then .going ⟨s, run.cycles + 1, true⟩ else .stopped (.paused s)
        | .ok .halt s => .stopped (.halted s)
        | .ok .hostReturn s => .stopped (.returned s)

/-- Goes on until the run stops; nothing if it is still going after `fuel` instructions. -/
def runFor (linked : Linked) (limits : Limits) (drive : Drive) : Nat → Run → Option Stop
  | 0, _ => none
  | fuel + 1, run =>
    match tick linked limits drive run with
    | .going run => runFor linked limits drive fuel run
    | .stopped stop => some stop

end ScriptMachine
