import ScriptMachine.HostValue
import ScriptMachine.Program.Verify

/-!
# Why a run fails

* `Defect`: states that compiled programs cannot reach;
* `RuntimeError`: all causes, with their messages.
-/

namespace ScriptMachine

/-- a stack or a program that no compilation makes -/
inductive Defect where
  | stackUnderflow
  /-- a marker of this kind stands where a value should be -/
  | expectedValue (found : String)
  | pickedNoValue (n : Nat)
  | loopEndFound (found : String)
  | leaveTryFound (found : String)
  | callFound (found : String)
  | leaveGlobalScope
  | loopExitOutsideLoop
  | returnWithoutCall
  | noFunction (index : Nat)
  | hostCallEnded
  | outOfCode
  | unresolvedLabel (label : Label)
  | noConstant (index : Nat)
  deriving DecidableEq, Repr

def Defect.message : Defect → String
  | stackUnderflow => "stack underflow"
  | expectedValue found => "expected a value, found a " ++ found
  | pickedNoValue n => "PICK " ++ toString n ++ " found no value"
  | loopEndFound found => "LOOP_END found a " ++ found
  | leaveTryFound found => "POP_TRY found a " ++ found
  | callFound found => "CALL found a " ++ found
  | leaveGlobalScope => "LEAVE_SCOPE at the global scope"
  | loopExitOutsideLoop => "LOOP_EXIT outside a loop"
  | returnWithoutCall => "RETURN without a call site"
  | noFunction index => "function #" ++ toString index ++ " does not exist"
  | hostCallEnded => "host call ended without returning"
  | outOfCode => "program counter out of range"
  | unresolvedLabel label => "unresolved label " ++ labelName label
  | noConstant index => "constant #" ++ toString index ++ " out of range"

inductive RuntimeError where
  /-- a thrown value that nothing caught, with its text and the names of the running sections, the
  innermost first -/
  | uncaught (text : String) (value : HostValue) (frames : List String)
  | tooManyCycles (limit : Nat)
  | stackOverflow (limit : Nat)
  /-- a function is called before the program is done -/
  | notDone (function : String)
  | unknownFunction (name : String)
  | defect (cause : Defect) (location : Location)
  | refused (cause : VerifyError)

namespace RuntimeError

/-- one line for each frame -/
def frameLines : Nat → List String → String
  | _, [] => ""
  | i, frame :: rest => "\n    " ++ toString i ++ ": " ++ frame ++ frameLines (i + 1) rest

def frameText (frames : List String) : String :=
  if frames.isEmpty then "" else "\n  call stack:" ++ frameLines 0 frames

def message : RuntimeError → String
  | uncaught text _ frames => "runtime error: uncaught exception: " ++ text ++ frameText frames
  | tooManyCycles limit =>
    "runtime error: execution cycle limit exceeded (" ++ toString limit ++ ")"
  | stackOverflow limit =>
    "runtime error: stack overflow (more than " ++ toString limit ++ " entries)"
  | notDone function =>
    "runtime error: cannot call '" ++ function ++ "' while the program is Paused"
  | unknownFunction name => "runtime error: unknown function '" ++ name ++ "'"
  | defect cause location =>
    "internal VM error in section " ++ toString location.sectionIndex ++ " at pc "
      ++ toString location.pc ++ ": " ++ cause.message
  | refused cause => "internal VM error: " ++ cause.message

/-- a defect, not a failure of the script -/
def isInternal : RuntimeError → Bool
  | defect _ _ => true
  | refused _ => true
  | _ => false

/-- a value that the script threw -/
def isScriptError : RuntimeError → Bool
  | uncaught _ _ _ => true
  | _ => false

end RuntimeError

end ScriptMachine
