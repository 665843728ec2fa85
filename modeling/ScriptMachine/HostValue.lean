import ScriptMachine.Number.Text

/-!
# Values of the host

Host values are plain data without identity.  The fields of an object are in the order of their
names, and each name is there once.

* `HostValue`: the data;
* `HostValue.insertField`, `HostValue.ofFields`: objects from fields in any order, the last of a
  name counts;
* `HostValue.text`: the text of a host value.
-/

namespace ScriptMachine

inductive HostValue where
  | undefined
  | null
  | bool (value : Bool)
  | number (value : Float)
  | string (value : String)
  | array (items : List HostValue)
  | object (fields : List (String × HostValue))
  /-- a function of the program or of the host, by its name -/
  | function (name : String)

namespace HostValue

instance : Inhabited HostValue := ⟨undefined⟩

/-- sets a field in an ordered list of fields -/
def insertField (name : String) (value : HostValue) :
    List (String × HostValue) → List (String × HostValue)
  | [] => [(name, value)]
  | (n, v) :: rest =>
    match compare name n with
    | .lt => (name, value) :: (n, v) :: rest
    | .eq => (name, value) :: rest
    | .gt => (n, v) :: insertField name value rest

def ofFields (fields : List (String × HostValue)) : HostValue :=
  .object (fields.foldl (fun sorted field => insertField field.1 field.2 sorted) [])

def asNumber? : HostValue → Option Float
  | number x => some x
  | _ => none

def asString? : HostValue → Option String
  | string s => some s
  | _ => none

def asBool? : HostValue → Option Bool
  | bool b => some b
  | _ => none

def isUndefined : HostValue → Bool
  | undefined => true
  | _ => false

mutual

def text : HostValue → String
  | undefined => "undefined"
  | null => "null"
  | bool b => if b then "true" else "false"
  | number x => NumberStyle.script.write x
  | string s => s
  | array items => "[" ++ ", ".intercalate (texts items) ++ "]"
  | object _ => "[object]"
  | function name => "<function " ++ name ++ ">"

def texts : List HostValue → List String
  | [] => []
  | item :: rest => text item :: texts rest

end

end HostValue

end ScriptMachine
