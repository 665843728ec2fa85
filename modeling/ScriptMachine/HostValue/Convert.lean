import ScriptMachine.Heap
import ScriptMachine.HostValue
import ScriptMachine.Program

/-!
# Across the border to the host

* `Program.toHost`: the plain data of a value; what lies deeper than 32 objects or arrays, and so
  every cycle, is cut off as `undefined`;
* `Program.fromHost`: a fresh value on the heap.
-/

namespace ScriptMachine

/-- a value inside so many objects and arrays is still converted -/
def maxHostDepth : Nat := 32

namespace Program

/-- the name of a function in the table -/
def functionName (program : Program) (index : Nat) : String :=
  (program.functions[index]?.map FunctionEntry.name).getD ""

/-- the data of a value, with so many more levels to go -/
def toHostWithin (program : Program) (heap : Heap) : Nat → Value → HostValue
  | 0, _ => .undefined
  | levels + 1, v =>
    match v with
    | .undefined => .undefined
    | .null => .null
    | .bool b => .bool b
    | .number x => .number x
    | .string s => .string s
    | .function index => .function (program.functionName index)
    | .native name => .function name
    | .object env =>
      .object ((heap.ownBindings env).map fun (name, v) =>
        (name, program.toHostWithin heap levels v))
    | .array id => .array ((heap.items id).toList.map (program.toHostWithin heap levels))

def toHost (program : Program) (heap : Heap) (v : Value) : HostValue :=
  program.toHostWithin heap (maxHostDepth + 1) v

mutual

/-- Makes a value of host data.  Objects are new and continue in `global`; a function's name means a
function of the program first and else one of the host. -/
def fromHost (program : Program) (global : EnvId) : HostValue → Heap → Value × Heap
  | .undefined, heap => (.undefined, heap)
  | .null, heap => (.null, heap)
  | .bool b, heap => (.bool b, heap)
  | .number x, heap => (.number x, heap)
  | .string s, heap => (.string s, heap)
  | .array items, heap =>
    let (items, heap) := fromHostAll program global items heap
    let (id, heap) := heap.newArray items.toArray
    (.array id, heap)
  | .object fields, heap =>
    let (env, heap) := heap.newObject global
    (.object env, defineFields program global env fields heap)
  | .function name, heap =>
    match program.functionIndex? name with
    | some index => (.function index, heap)
    | none => (.native name, heap)

def fromHostAll (program : Program) (global : EnvId) : List HostValue → Heap → List Value × Heap
  | [], heap => ([], heap)
  | item :: rest, heap =>
    let (value, heap) := fromHost program global item heap
    let (values, heap) := fromHostAll program global rest heap
    (value :: values, heap)

/-- gives an object its fields -/
def defineFields (program : Program) (global env : EnvId) :
    List (String × HostValue) → Heap → Heap
  | [], heap => heap
  | (name, field) :: rest, heap =>
    let (value, heap) := fromHost program global field heap
    defineFields program global env rest (heap.define env name value)

end

end Program

end ScriptMachine
