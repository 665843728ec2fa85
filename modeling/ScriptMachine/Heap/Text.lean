import ScriptMachine.Heap
import ScriptMachine.Number.Text
import ScriptMachine.Text.Quoted

/-!
# The text of values

Arrays may contain each other and themselves.  An array that is met again on the way down from
the outermost one has no text.

* `Heap.textWithin`: the text of a value inside the arrays of a path;
* `Heap.text`: the text of a value, as `+` and `print` see it;
* `Heap.join`: the texts of an array's items with a separator;
* `Heap.add`: what `+` does;
* `Heap.inspect`: the text with which listings show a value.
-/

namespace ScriptMachine

/-- the text of a value that is no array -/
def Value.plainText : Value → String
  | .undefined => "undefined"
  | .null => "null"
  | .bool b => if b then "true" else "false"
  | .number x => NumberStyle.script.write x
  | .string s => s
  | .function index => "<function #" ++ toString index ++ ">"
  | .native name => "<native " ++ name ++ ">"
  | .object _ => "[object]"
  | .array _ => ""

namespace Heap

/-- The text of a value inside the arrays `path`.  Each array is at most once on a path, so there
are never more levels than arrays. -/
def textWithin (heap : Heap) : Nat → List ArrayId → Value → String
  | 0, _, v => v.plainText
  | levels + 1, path, .array id =>
    if id ∈ path then ""
    else ",".intercalate ((heap.items id).toList.map (heap.textWithin levels (id :: path)))
  | _ + 1, _, v => v.plainText

def text (heap : Heap) (v : Value) : String := heap.textWithin (heap.arrays.size + 1) [] v

/-- the texts of the items of an array; arrays inside it are joined by commas -/
def join (heap : Heap) (separator : String) (id : ArrayId) : String :=
  separator.intercalate
    ((heap.items id).toList.map (heap.textWithin heap.arrays.size [id]))

/-- two numbers are added, all other values are put together as texts -/
def add (heap : Heap) : Value → Value → Value
  | .number x, .number y => .number (x + y)
  | a, b => .string (heap.text a ++ heap.text b)

/-- an environment in one line -/
def inspectEnv (heap : Heap) (env : EnvId) : String :=
  let kind := match heap.kind env with
    | .scope => "Scope"
    | .object => "Object"
  "Env(" ++ kind ++ ", " ++ toString (heap.ownBindings env).length ++ " bindings, depth "
    ++ toString (heap.depth env) ++ ")"

/-- texts are quoted and objects shown by their environment -/
def inspect (heap : Heap) : Value → String
  | .string s => Text.quoted s
  | .object env => heap.inspectEnv env
  | v => heap.text v

end Heap

end ScriptMachine
