import ScriptMachine.HostValue
import ScriptMachine.Interchange.Document

/-!
# Host values as documents

A host value is written as an object with one field, whose name says what kind of value it is;
`undefined` and `null` are plain names.

* `HostValue.toDocument`: the document of a host value; numbers that a document cannot hold are
  `null`;
* `HostValue.ofDocument?`: the host value of a document.
-/

namespace ScriptMachine.HostValue

/-- a document with its kind -/
def tagged (kind : String) (content : Document) : Document := .object [(kind, content)]

/-- a number, if it is finite -/
def numberDocument (x : Float) : Document :=
  match Binary.ofFloat x with
  | .finite _ _ _ => .number x
  | _ => .null

mutual

def toDocument : HostValue → Document
  | .undefined => .string "Undefined"
  | .null => .string "Null"
  | .bool b => tagged "Bool" (.bool b)
  | .number x => tagged "Number" (numberDocument x)
  | .string s => tagged "String" (.string s)
  | .array items => tagged "Array" (.list (toDocuments items))
  | .object fields => tagged "Object" (.object (toFields fields))
  | .function name => tagged "Function" (.string name)

def toDocuments : List HostValue → List Document
  | [] => []
  | item :: rest => toDocument item :: toDocuments rest

def toFields : List (String × HostValue) → List (String × Document)
  | [] => []
  | (name, field) :: rest => (name, toDocument field) :: toFields rest

end

mutual

def ofDocument? : Document → Option HostValue
  | .string "Undefined" => some .undefined
  | .string "Null" => some .null
  | .object [("Undefined", .null)] => some .undefined
  | .object [("Null", .null)] => some .null
  | .object [("Bool", .bool b)] => some (.bool b)
  | .object [("Number", .number x)] => some (.number x)
  | .object [("String", .string s)] => some (.string s)
  | .object [("Array", .list items)] => (ofDocuments? items).map .array
  | .object [("Object", .object fields)] => (ofFields? fields).map ofFields
  | .object [("Function", .string name)] => some (.function name)
  | _ => none

def ofDocuments? : List Document → Option (List HostValue)
  | [] => some []
  | item :: rest => do
    let item ← ofDocument? item
    let rest ← ofDocuments? rest
    return item :: rest

def ofFields? : List (String × Document) → Option (List (String × HostValue))
  | [] => some []
  | (name, field) :: rest => do
    let field ← ofDocument? field
    let rest ← ofFields? rest
    return (name, field) :: rest

end

end ScriptMachine.HostValue
