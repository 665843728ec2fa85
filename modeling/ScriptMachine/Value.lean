import ScriptMachine.Number.Reading
import ScriptMachine.Text.Blank

/-!
# Values

* `EnvId`, `ArrayId`: names of environments and arrays on the heap;
* `Value`: what scripts compute with;
* `Value.same`: the equality of the language;
* `Value.isTruthy`, `Value.toNumber`, `Value.compare`: the coercions that need no heap.
-/

namespace ScriptMachine

/-- the name of an environment on the heap -/
structure EnvId where
  index : Nat
  deriving DecidableEq, Repr

/-- the name of an array on the heap -/
structure ArrayId where
  index : Nat
  deriving DecidableEq, Repr

inductive Value where
  | undefined
  | null
  | bool (value : Bool)
  | number (value : Float)
  | string (value : String)
  /-- a compiled function, by its place in the function table -/
  | function (index : Nat)
  /-- a function of the host, by its name -/
  | native (name : String)
  /-- an object, whose state is an environment -/
  | object (env : EnvId)
  | array (id : ArrayId)
  deriving DecidableEq

instance : Inhabited Value := ⟨.undefined⟩

/-- no number -/
def notANumber : Float := 0 / 0

/-- the text without the blanks at both ends -/
def trimBlanks (text : List Char) : List Char :=
  ((text.dropWhile Text.isBlank).reverse.dropWhile Text.isBlank).reverse

/-- the number that a text spells; nothing but blanks is zero -/
def textToNumber (text : String) : Float :=
  match trimBlanks text.toList with
  | [] => 0
  | trimmed => (readFloat? trimmed).getD notANumber

/-- the order of two numbers, which not-a-number has with nothing -/
def compareNumbers (x y : Float) : Option Ordering :=
  if x < y then some .lt else if x == y then some .eq else if y < x then some .gt else none

namespace Value

/-- the name of a value's type -/
def typeName : Value → String
  | undefined => "undefined"
  | null => "null"
  | bool _ => "boolean"
  | number _ => "number"
  | string _ => "string"
  | function _ => "function"
  | native _ => "function"
  | object _ => "object"
  | array _ => "array"

/-- Equality of values of one kind: numbers by magnitude, texts by their characters, objects and
arrays by identity.  Values of different kinds are never equal. -/
def same : Value → Value → Bool
  | undefined, undefined => true
  | null, null => true
  | bool a, bool b => a == b
  | number a, number b => a == b
  | string a, string b => a == b
  | function a, function b => a == b
  | native a, native b => a == b
  | object a, object b => a == b
  | array a, array b => a == b
  | _, _ => false

def isTruthy : Value → Bool
  | undefined => false
  | null => false
  | bool b => b
  | number x => x != 0 && x == x
  | string s => s != ""
  | _ => true

/-- the number that a value counts as, in all arithmetic but `+` on texts -/
def toNumber : Value → Float
  | number x => x
  | bool b => if b then 1 else 0
  | null => 0
  | string s => textToNumber s
  | _ => notANumber

/-- two texts compare by their characters, everything else as numbers -/
def compare : Value → Value → Option Ordering
  | string a, string b => some (Ord.compare a b)
  | a, b => compareNumbers a.toNumber b.toNumber

end Value

end ScriptMachine
