import ScriptMachine.Compile.Error
import ScriptMachine.Program

/-!
# What a compilation gathers

The code of a construct is a list of instructions.  Beside it a compilation hands out labels and
gathers constants, functions and classes.

* `ExitScope`: a construct that a jump may have to leave;
* `Emitted`, `Code`: instructions on their way into a section;
* `Builder`: what was gathered so far;
* `Compile`: a step of a compilation;
* `defineFunction`: a new function, whose place in the table is fixed before its body;
* `Context`: what surrounds the code that is being made.
-/

namespace ScriptMachine

/-! ## exit scopes -/

/-- A construct around the code that leaves something on the stack while its body runs, so that a
jump out of it has to clean up. -/
inductive ExitScope where
  /-- a loop, with the labels that `continue` and `break` go to -/
  | loop (next done : Label)
  /-- a protected region; its finalizer has still to run -/
  | guarded (finalizer : Option (List Stmt))
  /-- a finalizer that runs with the thrown value on the stack -/
  | pendingThrow

namespace ExitScope

/-- must a jump out of the scope run code before? -/
def needsCleanup : ExitScope → Bool
  | loop _ _ => false
  | guarded finalizer => finalizer.isSome
  | pendingThrow => true

def isLoop : ExitScope → Bool
  | loop _ _ => true
  | _ => false

/-- Twice the size of the finalizer and one more.  The weights of the scopes around a statement and
the size of the statement together bound the recursion into finalizers. -/
@[simp] noncomputable def weight : ExitScope → Nat
  | loop _ _ => 1
  | guarded finalizer => 2 * sizeOf finalizer + 1
  | pendingThrow => 1

@[simp] noncomputable def weights : List ExitScope → Nat
  | [] => 0
  | scope :: outer => scope.weight + weights outer

end ExitScope

/-! ## code -/

/-- An instruction on its way into a section.  The first one of a statement knows the exit scopes
around the statement. -/
structure Emitted where
  op : Op
  range : Option TokenRange
  /-- the scopes that a jump out of the statement would have to leave, the innermost first -/
  statement : Option (List ExitScope)

namespace Emitted

/-- an instruction inside a statement -/
def inside (op : Op) (range : TokenRange) : Emitted := ⟨op, some range, none⟩

/-- a jump target, which belongs to no construct -/
def target (label : Label) : Emitted := ⟨.label label, none, none⟩

/-- what is left of it in a program -/
def instruction (e : Emitted) : Instruction := ⟨e.op, e.range, e.statement.isSome⟩

end Emitted

abbrev Code := List Emitted

def Section.ofCode (name : String) (code : Code) : Section :=
  ⟨name, (code.map Emitted.instruction).toArray⟩

/-! ## the builder -/

/-- a function with its code -/
structure FunctionCode where
  name : String
  params : List String
  code : Code

structure Builder where
  constants : Array Value := #[]
  nextLabel : Label := 0
  functions : Array FunctionCode := #[]
  classes : Array ClassEntry := #[]
  /-- the number of functions that got a name because they had none -/
  anonymous : Nat := 0

/-- a step of a compilation -/
abbrev Compile := StateT Builder (Except CompileError)

namespace Compile

def newLabel : Compile Label := do
  let b ← get
  set { b with nextLabel := b.nextLabel + 1 }
  return b.nextLabel

/-- the code that pushes a constant -/
def constant (value : Value) (range : TokenRange) : Compile Code := do
  let b ← get
  let (index, constants) := internConstant b.constants value
  set { b with constants := constants }
  return [Emitted.inside (.const index) range]

/-- a name for a function without one -/
def anonymousName : Compile String := do
  let b ← get
  set { b with anonymous := b.anonymous + 1 }
  return "$_anon_" ++ toString b.anonymous

/-- A new function.  It takes its place in the function table before its body is compiled, so
functions inside it stand behind it. -/
def defineFunction (name : String) (params : List String) (body : Compile Code) : Compile Nat := do
  let b ← get
  let index := b.functions.size
  set { b with functions := b.functions.push ⟨name, params, []⟩ }
  let code ← body
  modify fun b => { b with functions := b.functions.modify index fun f => { f with code := code } }
  return index

def defineClass (entry : ClassEntry) : Compile Unit :=
  modify fun b => { b with classes := b.classes.push entry }

end Compile

/-! ## the context -/

/-- the functions that are declared inside the function `owner` -/
structure LocalFunctions where
  owner : String
  names : List String

structure Context where
  source : Source
  /-- the scopes that a jump may have to leave, the innermost first -/
  exits : List ExitScope := []
  inFunction : Bool := false
  /-- the local functions of the functions around, the innermost first -/
  enclosing : List LocalFunctions := []

/-- the name of a method in the function table -/
def methodName (className method : String) : String := "@" ++ className ++ "." ++ method

/-- the name of a function inside another one in the function table -/
def nestedName (owner name : String) : String := owner ++ "." ++ name

def constructorName : String := "constructor"

namespace Context

/-- The name in the function table that a plain name means: of the local functions of that name
the innermost one, or else the name itself. -/
def resolve (ctx : Context) (name : String) : String :=
  match ctx.enclosing.find? fun scope => scope.names.contains name with
  | some scope => nestedName scope.owner name
  | none => name

/-- the source text of a range, if there is one -/
def textOf (ctx : Context) (range : TokenRange) : String := (ctx.source.slice? range).getD ""

/-- inside one more exit scope -/
@[simp] def inside (ctx : Context) (scope : ExitScope) : Context :=
  { ctx with exits := scope :: ctx.exits }

end Context

end ScriptMachine
