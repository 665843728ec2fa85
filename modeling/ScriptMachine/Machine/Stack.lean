import ScriptMachine.Program.Labels
import ScriptMachine.Value

/-!
# The stack of the machine

Values and control markers share one stack.

* `Slot`: an entry;
* `Stack`: the entries, the top first, with their number at hand;
* `Stack.unwind`: drops entries down to and with the first that is looked for;
* `Stack.unwindThrow`: drops entries down to the place where a thrown value goes on.
-/

namespace ScriptMachine

/-- the caller's place, saved by a call -/
structure CallSite where
  caller : Location
  env : EnvId
  /-- the function that was called, by its place in the table -/
  function : Nat
  /-- did the host make the call? -/
  fromHost : Bool
  deriving DecidableEq, Repr

/-- where a thrown value goes on -/
structure TryRegion where
  handler : Location
  env : EnvId
  deriving DecidableEq, Repr

inductive Slot where
  | value (value : Value)
  | callSite (site : CallSite)
  | tryRegion (region : TryRegion)
  /-- a loop, with the environment at its start -/
  | loopMarker (env : EnvId)
  /-- the value below is the result of a call that is already made -/
  | nativeResult
  deriving DecidableEq

def Slot.kind : Slot → String
  | value _ => "value"
  | callSite _ => "call site"
  | tryRegion _ => "try region"
  | loopMarker _ => "loop marker"
  | nativeResult => "native result"

structure Stack where
  /-- the top first -/
  slots : List Slot
  depth : Nat
  depth_eq : slots.length = depth

/-- how far a thrown value got -/
inductive Unwound where
  /-- a region catches it -/
  | caught (region : TryRegion) (rest : Stack)
  /-- it reached the call of the host, over the frames of these callers -/
  | reachedHost (site : CallSite) (callers : List Location) (rest : Stack)
  /-- nothing is left -/
  | uncaught (callers : List Location)

/-- the same through the frame of one more caller -/
def Unwound.through (caller : Location) : Unwound → Unwound
  | caught region rest => caught region rest
  | reachedHost site callers rest => reachedHost site (caller :: callers) rest
  | uncaught callers => uncaught (caller :: callers)

namespace Stack

variable {α : Type}

def empty : Stack := ⟨[], 0, rfl⟩

def push (s : Stack) (slot : Slot) : Stack :=
  ⟨slot :: s.slots, s.depth + 1, by rw [List.length_cons, s.depth_eq]⟩

/-- the rest below a top entry -/
theorem rest_eq {slot : Slot} {rest : List Slot} {depth : Nat}
    (h : (slot :: rest).length = depth) : rest.length = depth - 1 := by
  rw [← h, List.length_cons, Nat.add_sub_cancel]

def pop? : Stack → Option (Slot × Stack)
  | ⟨[], _, _⟩ => none
  | ⟨slot :: rest, depth, h⟩ => some (slot, ⟨rest, depth - 1, rest_eq h⟩)

theorem ext_slots {s t : Stack} (h : s.slots = t.slots) : s = t := by
  obtain ⟨a, m, hm⟩ := s
  obtain ⟨b, n, hn⟩ := t
  cases h
  cases hm
  cases hn
  rfl

@[simp] theorem slots_empty : empty.slots = [] := rfl

@[simp] theorem slots_push (s : Stack) (slot : Slot) : (s.push slot).slots = slot :: s.slots := rfl

@[simp] theorem pop?_push (s : Stack) (slot : Slot) : (s.push slot).pop? = some (slot, s) := rfl

def top? (s : Stack) : Option Slot := s.slots.head?

/-- the value `n` below the top -/
def pick? (s : Stack) (n : Nat) : Option Value :=
  match s.slots[n]? with
  | some (.value v) => some v
  | _ => none

/-- drops entries until at most `depth` are left -/
def truncate (s : Stack) (depth : Nat) : Stack :=
  ⟨s.slots.drop (s.depth - depth), s.depth - (s.depth - depth), by
    rw [List.length_drop, s.depth_eq]⟩

@[simp] theorem slots_truncate (s : Stack) (depth : Nat) :
    (s.truncate depth).slots = s.slots.drop (s.depth - depth) := rfl

/-- drops entries down to and with the first one that `wanted` accepts -/
def unwindSlots (wanted : Slot → Option α) :
    (slots : List Slot) → (depth : Nat) → slots.length = depth → Option (α × Stack)
  | [], _, _ => none
  | slot :: rest, depth, h =>
    match wanted slot with
    | some a => some (a, ⟨rest, depth - 1, rest_eq h⟩)
    | none => unwindSlots wanted rest (depth - 1) (rest_eq h)

def unwind (s : Stack) (wanted : Slot → Option α) : Option (α × Stack) :=
  unwindSlots wanted s.slots s.depth s.depth_eq

/-- drops entries down to a region that catches or a call of the host, and notes the callers on the
way, the innermost first -/
def unwindThrowSlots : (slots : List Slot) → (depth : Nat) → slots.length = depth → Unwound
  | [], _, _ => .uncaught []
  | .tryRegion region :: rest, depth, h => .caught region ⟨rest, depth - 1, rest_eq h⟩
  | .callSite site :: rest, depth, h =>
    if site.fromHost then .reachedHost site [] ⟨rest, depth - 1, rest_eq h⟩
    else (unwindThrowSlots rest (depth - 1) (rest_eq h)).through site.caller
  | _ :: rest, depth, h => unwindThrowSlots rest (depth - 1) (rest_eq h)

def unwindThrow (s : Stack) : Unwound := unwindThrowSlots s.slots s.depth s.depth_eq

end Stack

end ScriptMachine
