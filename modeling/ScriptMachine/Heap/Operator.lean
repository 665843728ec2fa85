import ScriptMachine.Heap.Text
import ScriptMachine.SyntaxTree

/-!
# Operators on values

* `Heap.applyBinary`: what the binary operators do;
* `Value.negate`, `Value.invert`: what the unary operators do.
-/

namespace ScriptMachine

def Heap.applyBinary (heap : Heap) (op : BinaryOp) (a b : Value) : Value :=
  match op with
  | .add => heap.add a b
  | .sub => .number (a.toNumber - b.toNumber)
  | .mul => .number (a.toNumber * b.toNumber)
  | .div => .number (a.toNumber / b.toNumber)
  | .mod => .number (remainder a.toNumber b.toNumber)
  | .eq => .bool (a.same b)
  | .notEq => .bool (!a.same b)
  | .lt => .bool (a.compare b == some .lt)
  | .ltEq => .bool (a.compare b == some .lt || a.compare b == some .eq)
  | .gt => .bool (a.compare b == some .gt)
  | .gtEq => .bool (a.compare b == some .gt || a.compare b == some .eq)

def Value.negate (v : Value) : Value := .number (-v.toNumber)

def Value.invert (v : Value) : Value := .bool (!v.isTruthy)

end ScriptMachine
