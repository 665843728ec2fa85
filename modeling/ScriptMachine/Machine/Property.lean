import ScriptMachine.Heap.ArrayMethod

/-!
# Properties

* `typeError`: the values that wrong uses throw;
* `Heap.getProperty`: reading `a.name`;
* `Heap.method`: what `a.name(...)` finds: a function to call, or a result that is already there.
-/

namespace ScriptMachine

def typeError (message : String) : Value := .string ("TypeError: " ++ message)

def notAFunction (what : String) : Value := typeError (what ++ " is not a function")

def cannotRead (name what : String) : Value :=
  typeError ("cannot read property '" ++ name ++ "' of " ++ what)

/-- only objects take new properties -/
def cannotSet (name : String) (target : Value) : Value :=
  typeError ("cannot set property '" ++ name ++ "' of " ++ target.typeName)

/-- what a method name stands for before its call -/
inductive Method where
  /-- a value to be called; the arguments are still on the stack -/
  | callee (value : Value)
  /-- a step that takes the arguments itself: a result or a value to throw, and a new heap -/
  | immediate (run : List Value → Heap → Except Value Value × Heap)
  /-- a value to throw after the arguments are taken -/
  | refusing (thrown : Value)
  /-- a value to throw before the arguments are taken -/
  | missing (thrown : Value)

/-- the character of a text that a value is the index of -/
def characterAt (text : String) : Option Value → Value
  | some (.number x) =>
    match (indexOfNumber? x).bind fun i => text.toList[i]? with
    | some c => .string c.toString
    | none => .undefined
  | _ => .undefined

namespace Heap

/-- reads a property; only `undefined` and `null` have none to read -/
def getProperty (heap : Heap) (target : Value) (name : String) : Except Value Value :=
  match target with
  | .object env => .ok ((heap.getOwn? env name).getD .undefined)
  | .array id => .ok ((heap.arrayProperty? id name).getD .undefined)
  | .string s => .ok (if name = "length" then .number (Float.ofNat s.length) else .undefined)
  | .undefined => .error (cannotRead name "undefined")
  | .null => .error (cannotRead name "null")
  | _ => .ok .undefined

/-- the text that an index means as the name of a property -/
def propertyKey (heap : Heap) (args : List Value) : String :=
  match args.head? with
  | some key => heap.text key
  | none => ""

/-- Finds the method `name` of a value.  Indexing an object without an indexer of its own reads
or writes the property that the index names. -/
def method (heap : Heap) (target : Value) (name : String) : Method :=
  match target with
  | .object env =>
    match heap.getOwn? env name with
    | some value => .callee value
    | none =>
      if name = indexerGet then
        .immediate fun args heap =>
          (.ok ((heap.getOwn? env (heap.propertyKey args)).getD .undefined), heap)
      else if name = indexerSet then
        .immediate fun args heap =>
          let value := args[1]?.getD .undefined
          (.ok value, heap.define env (heap.propertyKey args) value)
      else .missing (notAFunction name)
  | .array id =>
    match ArrayMethod.ofName? name with
    | some method => .immediate fun args heap => heap.callArray id method args
    | none => .refusing (notAFunction ("array." ++ name))
  | .string s =>
    if name = indexerGet then .immediate fun args heap => (.ok (characterAt s args.head?), heap)
    else .missing (notAFunction name)
  | .undefined => .missing (cannotRead name "undefined")
  | .null => .missing (cannotRead name "null")
  | _ => .missing (notAFunction name)

end Heap

end ScriptMachine
