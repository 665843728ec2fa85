/-!
# Why a program does not compile

* `LoopJump`: the statements that leave one round of a loop;
* `CompileError`: the causes;
* `CompileError.message`: their texts.
-/

namespace ScriptMachine

/-- a function has at most so many parameters -/
def maxParameters : Nat := 127

/-- a call has at most so many arguments -/
def maxArguments : Nat := 255

/-- the statements that leave one round of a loop -/
inductive LoopJump where
  | breakLoop
  | continueLoop
  deriving DecidableEq, Repr

def LoopJump.keyword : LoopJump → String
  | breakLoop => "break"
  | continueLoop => "continue"

inductive CompileError where
  /-- the left side of `=`, given by its text, cannot be assigned to -/
  | invalidTarget (text : String)
  | outsideLoop (jump : LoopJump)
  | returnOutsideFunction
  | tooManyParameters (name : String) (count : Nat)
  | tooManyArguments (callee : String) (count : Nat)
  | unnamedFunction
  | unnamedMethod
  deriving DecidableEq, Repr

namespace CompileError

def hint (text : String) : String := "\n  hint: " ++ text

def limit (what name : String) (count bound : Nat) : String :=
  what ++ " '" ++ name ++ "' has " ++ toString count ++ ", the limit is " ++ toString bound

def detail : CompileError → String
  | invalidTarget text =>
    "invalid assignment target '" ++ text ++ "'"
      ++ hint "only variables, properties and indexed elements can be assigned"
  | outsideLoop jump =>
    "'" ++ jump.keyword ++ "' cannot appear outside a loop"
      ++ hint "a function body starts a new context; loops outside it do not count"
  | returnOutsideFunction => "'return' cannot appear outside a function"
  | tooManyParameters name count => limit "function" name count maxParameters
  | tooManyArguments callee count => limit "call to" callee count maxArguments
  | unnamedFunction => "internal error: function declaration without a name"
  | unnamedMethod => "internal error: class method without a name"

def message (e : CompileError) : String := "compile error: " ++ e.detail

end CompileError

end ScriptMachine
