import ScriptMachine.Heap.Text

/-!
# What arrays can do

* `arrayIndex`: the index that a value stands for;
* `Heap.storeItem`: writing an item, which may make the array longer;
* `Heap.arrayProperty?`: the properties of arrays;
* `ArrayMethod`, `Heap.callArray`: the methods of arrays; a method's fault is a value to be thrown.
-/

namespace ScriptMachine

/-- the method that `a[i]` calls -/
def indexerGet : String := "@IndexerGet"

/-- the method that `a[i] = v` calls -/
def indexerSet : String := "@IndexerSet"

inductive ArrayMethod where
  | getItem | setItem | push | pop | join
  deriving DecidableEq, Repr

/-- the method of a name -/
def ArrayMethod.ofName? (name : String) : Option ArrayMethod :=
  if name = indexerGet then some getItem
  else if name = indexerSet then some setItem
  else if name = "push" then some push
  else if name = "pop" then some pop
  else if name = "join" then some join
  else none

/-- how far behind its end an array can be written -/
def maxIndexGap : Nat := 65536

/-- the greatest index; whole numbers above it count as it -/
def maxIndex : Nat := UInt64.size - 1

/-- a number that is whole and not below zero is an index -/
def indexOfNumber? (x : Float) : Option Nat :=
  if 0 ≤ x then (Binary.ofFloat x).natAbs?.map (min · maxIndex) else none

/-- the index that an argument stands for, or the value to throw -/
def Heap.arrayIndex (heap : Heap) : Option Value → Except Value Nat
  | none => .error (.string "RangeError: missing array index")
  | some v =>
    let index := match v with
      | .number x => indexOfNumber? x
      | _ => none
    match index with
    | some i => .ok i
    | none => .error (.string ("RangeError: invalid array index " ++ heap.text v))

namespace Heap

def arrayLength (heap : Heap) (id : ArrayId) : Nat := (heap.items id).size

/-- Writes an item, which is then the result.  The places between the old end and a new one are
`undefined`. -/
def storeItem (heap : Heap) (id : ArrayId) (index : Nat) (value : Value) :
    Except Value Value × Heap :=
  let length := heap.arrayLength id
  if index < length then (.ok value, heap.modifyItems id (·.setIfInBounds index value))
  else if maxIndexGap < index - length then
    (.error (.string ("RangeError: array index " ++ toString index
      ++ " is too far past the end (length " ++ toString length ++ ")")), heap)
  else
    (.ok value, heap.modifyItems id fun items =>
      (items ++ Array.replicate (index - length) Value.undefined).push value)

/-- the properties of an array that are no methods -/
def arrayProperty? (heap : Heap) (id : ArrayId) (name : String) : Option Value :=
  if name = "length" then some (.number (Float.ofNat (heap.arrayLength id))) else none

/-- calls a method of an array: its result or the value that it throws, and the heap behind it -/
def callArray (heap : Heap) (id : ArrayId) (method : ArrayMethod) (args : List Value) :
    Except Value Value × Heap :=
  match method with
  | .getItem =>
    match heap.arrayIndex args.head? with
    | .error thrown => (.error thrown, heap)
    | .ok i => (.ok ((heap.items id)[i]?.getD .undefined), heap)
  | .setItem =>
    match heap.arrayIndex args.head? with
    | .error thrown => (.error thrown, heap)
    | .ok i => heap.storeItem id i (args[1]?.getD .undefined)
  | .push =>
    let length := heap.arrayLength id + args.length
    (.ok (.number (Float.ofNat length)), heap.modifyItems id (· ++ args.toArray))
  | .pop =>
    let last := (heap.items id).back?.getD .undefined
    (.ok last, heap.modifyItems id Array.pop)
  | .join =>
    let separator := match args.head? with
      | none => ","
      | some .undefined => ","
      | some v => heap.text v
    (.ok (.string (heap.join separator id)), heap)

end Heap

end ScriptMachine
