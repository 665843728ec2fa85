import ScriptMachine.Op
import ScriptMachine.Token
import ScriptMachine.Value

/-!
# Compiled programs

* `Section`: a named list of instructions; the first section of a program is its main code;
* `FunctionEntry`, `ClassEntry`: what can be called and made;
* `internConstant`: the place of a value among the constants;
* `Program`: all of it, with the tokens and the text that it comes from;
* `Program.sourceFor?`: the text that a range of tokens covers.
-/

namespace ScriptMachine

structure Section where
  name : String
  code : Array Instruction
  deriving DecidableEq

structure FunctionEntry where
  name : String
  /-- the section that holds the body -/
  body : Nat
  params : List String
  deriving DecidableEq, Repr

def FunctionEntry.arity (f : FunctionEntry) : Nat := f.params.length

/-- a class with its methods, each by its name and its place in the function table -/
structure ClassEntry where
  name : String
  methods : List (String × Nat)
  deriving DecidableEq, Repr

/-- the place of a value among the constants, behind them if it is new -/
def internConstant (constants : Array Value) (value : Value) : Nat × Array Value :=
  match constants.findIdx? (Value.same value) with
  | some index => (index, constants)
  | none => (constants.size, constants.push value)

/-- a source text and its tokens -/
structure Source where
  tokens : Array Token
  text : String

namespace Source

/-- the characters of a text whose first byte is at an offset from `first` on and below `stop` -/
def bytes (first stop : Nat) : Nat → List Char → List Char
  | _, [] => []
  | offset, c :: rest =>
    if stop ≤ offset then []
    else if offset < first then bytes first stop (offset + c.utf8Size) rest
    else c :: bytes first stop (offset + c.utf8Size) rest

/-- the text from the first byte of a range's first token to the last byte of its last token -/
def slice? (source : Source) (range : TokenRange) : Option String := do
  let first ← source.tokens[range.first]?
  let last ← source.tokens[range.last]?
  let start := first.start.offset
  some (String.ofList (bytes start (max last.stop start) 0 source.text.toList))

end Source

structure Program where
  constants : Array Value
  sections : Array Section
  functions : Array FunctionEntry
  classes : List ClassEntry
  source : Source
  /-- the names by which functions are found, in the order of the function table -/
  functionNames : List String

namespace Program

/-- the last place of a name in a list -/
def lastIndex? (name : String) : List String → Option Nat
  | [] => none
  | n :: rest =>
    match lastIndex? name rest with
    | some i => some (i + 1)
    | none => if n = name then some 0 else none

/-- the place of a function in the table; of functions with one name the last one counts -/
def functionIndex? (program : Program) (name : String) : Option Nat :=
  lastIndex? name program.functionNames

def function? (program : Program) (name : String) : Option FunctionEntry :=
  (program.functionIndex? name).bind fun i => program.functions[i]?

/-- the first class of a name -/
def class? (program : Program) (name : String) : Option ClassEntry :=
  program.classes.find? fun c => c.name = name

def instruction? (program : Program) (sectionIndex pc : Nat) : Option Instruction :=
  program.sections[sectionIndex]?.bind fun s => s.code[pc]?

def sourceFor? (program : Program) (range : TokenRange) : Option String :=
  program.source.slice? range

end Program

end ScriptMachine
