import ScriptMachine.SyntaxTree

/-!
# Instructions

* `Op`: the operations of the machine;
* `Op.jumpTarget?`: the label that an operation refers to;
* `Op.mnemonic`: the name of an operation in listings;
* `Instruction`: an operation with the tokens that it comes from.
-/

namespace ScriptMachine

/-- a jump target, unique in a whole program -/
abbrev Label := Nat

/-- how a name is resolved when it is fetched -/
inductive Access where
  /-- a variable -/
  | variable
  /-- a property of the object on the stack -/
  | property
  /-- a variable that is called next, with so many arguments -/
  | callVariable (argc : Nat)
  /-- a method of the object on the stack that is called next, with so many arguments -/
  | callProperty (argc : Nat)
  deriving DecidableEq, Repr

inductive Op where
  | nop
  /-- a jump target, which does nothing -/
  | label (label : Label)
  | const (index : Nat)
  | pop
  | dup
  /-- copies the entry `n` below the top -/
  | pick (n : Nat)
  | binary (op : BinaryOp)
  | neg
  | not
  | jump (target : Label)
  | jumpFalse (target : Label)
  | jumpTrue (target : Label)
  | enterScope
  | leaveScope
  | declare (name : String)
  /-- assigns the value on the stack and leaves it there; a property's object stands below it -/
  | store (name : String) (property : Bool)
  | fetch (name : String) (access : Access)
  /-- calls the value on top, with the arguments below it and, if bound, a receiver below them -/
  | call (argc : Nat) (bound : Bool)
  | ret
  | loopStart
  | loopEnd
  /-- unwinds to the innermost loop and jumps -/
  | loopExit (target : Option Label)
  /-- protects what follows: a throw goes on at the label -/
  | enterTry (handler : Label)
  | leaveTry
  | throw
  | createObject (className : String)
  /-- makes an array of so many values from the stack, the first one on top -/
  | makeArray (size : Nat)
  | debugger
  | halt
  deriving DecidableEq, Repr

namespace Op

def jumpTarget? : Op → Option Label
  | jump target => some target
  | jumpFalse target => some target
  | jumpTrue target => some target
  | enterTry handler => some handler
  | loopExit target => target
  | _ => none

def mnemonic : Op → String
  | nop => "NOP"
  | label _ => "LABEL"
  | const _ => "CONST"
  | pop => "POP"
  | dup => "DUP"
  | pick _ => "PICK"
  | binary .add => "ADD"
  | binary .sub => "SUB"
  | binary .mul => "MUL"
  | binary .div => "DIV"
  | binary .mod => "MOD"
  | binary .eq => "EQ"
  | binary .notEq => "NEQ"
  | binary .lt => "LT"
  | binary .ltEq => "LTE"
  | binary .gt => "GT"
  | binary .gtEq => "GTE"
  | neg => "NEG"
  | not => "NOT"
  | jump _ => "JMP"
  | jumpFalse _ => "JMP_FALSE"
  | jumpTrue _ => "JMP_TRUE"
  | enterScope => "ENTER_SCOPE"
  | leaveScope => "LEAVE_SCOPE"
  | declare _ => "DECLARE"
  | store _ _ => "STORE"
  | fetch _ _ => "FETCH"
  | call _ _ => "CALL"
  | ret => "RETURN"
  | loopStart => "LOOP_START"
  | loopEnd => "LOOP_END"
  | loopExit _ => "LOOP_EXIT"
  | enterTry _ => "TRY"
  | leaveTry => "POP_TRY"
  | throw => "THROW"
  | createObject _ => "CREATE_OBJECT"
  | makeArray _ => "MAKE_ARRAY"
  | debugger => "DEBUGGER"
  | halt => "HALT"

end Op

/-- an operation, the tokens of the construct that it comes from, and whether it is the first one of
a statement -/
structure Instruction where
  op : Op
  range : Option TokenRange
  startsStatement : Bool
  deriving DecidableEq, Repr

end ScriptMachine
