import ScriptMachine.Compile.Builder
import ScriptMachine.Heap.ArrayMethod

/-!
# The code of statements and expressions

* `declaredIn`: the functions that a statement declares;
* `startStatement`, `blockCode`, `methodCall`, `whileCode`, `tryCode`, ...: pieces of code;
* `Compile.expr`: leaves the value of an expression on the stack;
* `Compile.statement`: leaves the stack as it was;
* `Compile.leaveExits`: the cleanup before a jump, which runs the finalizers on the way in place;
* `compileProgram`: all sections of a program.

A jump compiles the finalizers that it crosses anew, each under the scopes outside of its own
region.  The size of the statement and the weights of the scopes around it get smaller on the way.
-/

namespace ScriptMachine

/-! ## declared functions -/

mutual

/-- the names of the functions that a statement declares, not counting those inside functions -/
def declaredIn : Stmt → List String
  | .node form _ => declaredInForm form

def declaredInForm : StmtForm → List String
  | .function decl => decl.name?.toList
  | .block body => declaredInAll body
  | .ifElse _ thenBranch elseBranch => declaredIn thenBranch ++ declaredInOption elseBranch
  | .whileLoop _ body => declaredIn body
  | .forLoop _ _ _ body => declaredIn body
  | .tryCatch body handler finalizer =>
    declaredInAll body ++ declaredInHandler handler ++ declaredInFinalizer finalizer
  | _ => []

def declaredInOption : Option Stmt → List String
  | none => []
  | some stmt => declaredIn stmt

def declaredInHandler : Option CatchClause → List String
  | none => []
  | some (.mk _ body _) => declaredInAll body

def declaredInFinalizer : Option (List Stmt) → List String
  | none => []
  | some body => declaredInAll body

def declaredInAll : List Stmt → List String
  | [] => []
  | stmt :: rest => declaredIn stmt ++ declaredInAll rest

end

/-! ## pieces of code -/

/-- one instruction -/
def one (op : Op) (range : TokenRange) : Code := [Emitted.inside op range]

/-- a jump target -/
def place (label : Label) : Code := [Emitted.target label]

/-- code in a scope of its own -/
def blockCode (range : TokenRange) (body : Code) : Code :=
  one .enterScope range ++ body ++ one .leaveScope range

/-- The first instruction of a statement inside `exits` stands for it when a program is stepped
through, and there is always one. -/
def startStatement (exits : List ExitScope) (range : TokenRange) : Code → Code
  | [] => [⟨.nop, some range, some exits⟩]
  | first :: rest => ⟨first.op, some range, some exits⟩ :: rest

/-- calls a method of the object that stands below the arguments -/
def methodCall (method : String) (argc : Nat) (range : TokenRange) : Code :=
  one (.pick argc) range ++ one (.fetch method (.callProperty argc)) range
    ++ one (.call argc true) range

/-- the last operation of a piece of code -/
def endsInReturn (code : Code) : Bool := (code.getLast?.map Emitted.op) == some .ret

def UnaryOp.toOp : UnaryOp → Op
  | .neg => .neg
  | .not => .not

/-- the jump that leaves the right side of an operator unevaluated -/
def LogicalOp.toOp : LogicalOp → Label → Op
  | .and => .jumpFalse
  | .or => .jumpTrue

/-- the value of an operator whose right side is not evaluated -/
def LogicalOp.decided : LogicalOp → Bool
  | .and => false
  | .or => true

def logicalCode (op : LogicalOp) (decided done : Label) (range : TokenRange)
    (left right literal : Code) : Code :=
  left ++ one (op.toOp decided) range ++ right ++ one (.jump done) range ++ place decided
    ++ literal ++ place done

/-- makes an object, calls its constructor and drops the result of that -/
def newCode (className : String) (argc : Nat) (range : TokenRange) (args : Code) : Code :=
  one (.createObject className) range ++ one .dup range ++ args
    ++ one (.fetch (methodName className constructorName) .variable) range
    ++ one (.call argc true) range ++ one .pop range

def ifCode (otherwise : Label) (testRange : TokenRange) (test thenCode : Code) : Code :=
  test ++ one (.jumpFalse otherwise) testRange ++ thenCode ++ place otherwise

def ifElseCode (otherwise done : Label) (testRange range : TokenRange)
    (test thenCode elseCode : Code) : Code :=
  test ++ one (.jumpFalse otherwise) testRange ++ thenCode ++ one (.jump done) range
    ++ place otherwise ++ elseCode ++ place done

def whileCode (start done : Label) (testRange range : TokenRange) (test body : Code) : Code :=
  one .loopStart range ++ place start ++ test ++ one (.jumpFalse done) testRange ++ body
    ++ one (.jump start) range ++ place done ++ one .loopEnd range

def forCode (start next done : Label) (range : TokenRange) (init test body update : Code) : Code :=
  one .enterScope range ++ init ++ one .loopStart range ++ place start ++ test ++ body
    ++ place next ++ update ++ one (.jump start) range ++ place done ++ one .loopEnd range
    ++ one .leaveScope range

/-- the hidden variable that holds a result while finalizers run -/
def returnSlot : String := "@return"

/-- returns a value after some cleanup -/
def returnCode (range : TokenRange) (value cleanup : Code) : Code :=
  value ++ one (.declare returnSlot) range ++ one (.store returnSlot false) range
    ++ one .pop range ++ cleanup ++ one (.fetch returnSlot .variable) range ++ one .ret range

/-- binds a thrown value or drops it -/
def bindingCode (binding : Option String) (range : TokenRange) : Code :=
  (match binding with
    | some name => one (.declare name) range ++ one (.store name false) range
    | none => [])
    ++ one .pop range

/-- the handler of a `try`, whose own faults go on at `uncaught` -/
def catchCode (caught done uncaught : Label) (binding : Option String) (range : TokenRange)
    (body : Code) : Code :=
  place caught ++ one .enterScope range ++ bindingCode binding range
    ++ one (.enterTry uncaught) range ++ body ++ one .leaveTry range ++ one .leaveScope range
    ++ one (.jump done) range

/-- A `try`, laid out as body, handler, finalizer with a thrown value, finalizer without.  Faults of
the body go on at `start`. -/
def tryCode (start done uncaught : Label) (handled : Bool) (range : TokenRange)
    (body handler rethrow final : Code) : Code :=
  one (.enterTry start) range ++ blockCode range body ++ one .leaveTry range
    ++ one (.jump done) range ++ handler ++ place uncaught
    ++ (if handled then one .leaveScope range else []) ++ rethrow ++ one .throw range
    ++ place done ++ final

namespace Compile

/-- the body of a function returns `undefined` at its end -/
def closeBody (closing : TokenRange) (code : Code) : Compile Code := do
  if endsInReturn code then return code
  let value ← constant .undefined closing
  return code ++ value ++ one .ret closing

def checkArguments (callee : String) (count : Nat) : Compile Unit := do
  if maxArguments < count then throw (.tooManyArguments callee count)

/-! ## expressions and statements -/

mutual

/-- the code that leaves the value of an expression on the stack -/
def expr (ctx : Context) (e : Expr) : Compile Code := do
  match e with
  | .node (.number x) range => constant (.number x) range
  | .node (.string s) range => constant (.string s) range
  | .node (.bool b) range => constant (.bool b) range
  | .node .null range => constant .null range
  | .node .undefined range => constant .undefined range
  | .node (.variable name) range => return one (.fetch (ctx.resolve name) .variable) range
  | .node .this range => return one (.fetch "this" .variable) range
  | .node (.assign (.node (.variable name) _) value) range => do
    let value ← expr ctx value
    return value ++ one (.store name false) range
  | .node (.assign (.node (.member object property) _) value) range => do
    let object ← expr ctx object
    let value ← expr ctx value
    return object ++ value ++ one (.store property true) range
  | .node (.assign (.node (.index object key) _) value) range => do
    let object ← expr ctx object
    let value ← expr ctx value
    let key ← expr ctx key
    return object ++ value ++ key ++ methodCall indexerSet 2 range
  | .node (.assign target _) _ => throw (.invalidTarget (ctx.textOf target.range))
  | .node (.binary op left right) range => do
    let left ← expr ctx left
    let right ← expr ctx right
    return left ++ right ++ one (.binary op) range
  | .node (.logical op left right) range => do
    let decided ← newLabel
    let done ← newLabel
    let left ← expr ctx left
    let right ← expr ctx right
    let literal ← constant (.bool op.decided) range
    return logicalCode op decided done range left right literal
  | .node (.unary op operand) range => do
    let operand ← expr ctx operand
    return operand ++ one op.toOp range
  | .node (.call callee args) range => do
    checkArguments (ctx.textOf callee.range) args.length
    let argc := args.length
    match callee with
    | .node (.member object property) _ =>
      let object ← expr ctx object
      let args ← exprsReversed ctx args
      return object ++ args ++ methodCall property argc range
    | .node (.variable name) _ =>
      let args ← exprsReversed ctx args
      return args ++ one (.fetch (ctx.resolve name) (.callVariable argc)) range
        ++ one (.call argc false) range
    | callee =>
      let args ← exprsReversed ctx args
      let callee ← expr ctx callee
      return args ++ callee ++ one (.call argc false) range
  | .node (.member object property) range => do
    let object ← expr ctx object
    return object ++ one (.fetch property .property) range
  | .node (.index object key) range => do
    let object ← expr ctx object
    let key ← expr ctx key
    return object ++ key ++ methodCall indexerGet 1 range
  | .node (.new className args) range => do
    checkArguments className args.length
    let argc := args.length
    let args ← exprsReversed ctx args
    return newCode className argc range args
  | .node (.function decl) range => do
    let name ← match decl.name? with
      | some name => pure name
      | none => anonymousName
    let _ ← function ctx name decl
    return one (.fetch name .variable) range
  | .node (.array elements) range => do
    let items ← exprsReversed ctx elements
    return items ++ one (.makeArray elements.length) range
termination_by 2 * sizeOf e
decreasing_by all_goals (simp; omega)

/-- the values of expressions, the last one first, so that the first one ends on top -/
def exprsReversed (ctx : Context) (es : List Expr) : Compile Code := do
  match es with
  | [] => return []
  | e :: rest =>
    let rest ← exprsReversed ctx rest
    let e ← expr ctx e
    return rest ++ e
termination_by 2 * sizeOf es
decreasing_by all_goals (try simp) <;> omega

/-- the value of an expression, `undefined` if there is none -/
def valueOf (ctx : Context) (range : TokenRange) (e : Option Expr) : Compile Code := do
  match e with
  | some e => expr ctx e
  | none => constant .undefined range
termination_by 2 * sizeOf e
decreasing_by all_goals simp

/-- the value of an expression and an instruction that takes it, nothing if there is none -/
def optionally (ctx : Context) (op : Op) (e : Option Expr) : Compile Code := do
  match e with
  | some e =>
    let value ← expr ctx e
    return value ++ one op e.range
  | none => return []
termination_by 2 * sizeOf e
decreasing_by all_goals simp

/-- a function under the name that it has in the function table -/
def function (ctx : Context) (name : String) (decl : FunctionDecl) : Compile Nat := do
  match decl with
  | .mk _ params body range =>
    if maxParameters < params.length then throw (.tooManyParameters name params.length)
    let inner : Context :=
      { source := ctx.source
        exits := []
        inFunction := true
        enclosing := ⟨name, declaredInAll body⟩ :: ctx.enclosing }
    defineFunction name params do
      let code ← statements inner body
      closeBody ⟨range.last, range.last⟩ code
termination_by 2 * sizeOf decl
decreasing_by all_goals (simp; omega)

/-- the methods of a class, in their order -/
def methods (ctx : Context) (className : String) (decls : List FunctionDecl) :
    Compile (List (String × Nat)) := do
  match decls with
  | [] => return []
  | decl :: rest =>
    match decl.name? with
    | none => throw .unnamedMethod
    | some name =>
      let index ← function ctx (methodName className name) decl
      let rest ← methods ctx className rest
      return (name, index) :: rest
termination_by 2 * sizeOf decls
decreasing_by all_goals (try simp) <;> omega

/-- the code of a statement, which leaves the stack as it was -/
def statement (ctx : Context) (stmt : Stmt) : Compile Code := do
  match stmt with
  | .node (.block body) range => return blockCode range (← statements ctx body)
  | .node form range => return startStatement ctx.exits range (← statementForm ctx range form)
termination_by 2 * sizeOf stmt + ExitScope.weights ctx.exits
decreasing_by all_goals (simp; omega)

def statements (ctx : Context) (body : List Stmt) : Compile Code := do
  match body with
  | [] => return []
  | stmt :: rest =>
    let first ← statement ctx stmt
    let rest ← statements ctx rest
    return first ++ rest
termination_by 2 * sizeOf body + ExitScope.weights ctx.exits
decreasing_by all_goals (try simp) <;> omega

/-- the code of a statement before its first instruction is marked -/
def statementForm (ctx : Context) (range : TokenRange) (form : StmtForm) : Compile Code := do
  match form with
  | .expression e =>
    let value ← expr ctx e
    return value ++ one .pop range
  | .varDecl name init =>
    let value ← valueOf ctx range init
    return one (.declare name) range ++ value ++ one (.store name false) range ++ one .pop range
  | .block body => return blockCode range (← statements ctx body)
  | .ifElse condition thenBranch elseBranch =>
    let otherwise ← newLabel
    let test ← expr ctx condition
    let thenCode ← statement ctx thenBranch
    match elseBranch with
    | none =>
      return ifCode otherwise condition.range test thenCode
    | some elseBranch =>
      let done ← newLabel
      let elseCode ← statement ctx elseBranch
      return ifElseCode otherwise done condition.range range test thenCode elseCode
  | .whileLoop condition body =>
    let start ← newLabel
    let done ← newLabel
    let test ← expr ctx condition
    let body ← statement (ctx.inside (.loop start done)) body
    return whileCode start done condition.range range test body
  | .forLoop init condition update body =>
    let start ← newLabel
    let next ← newLabel
    let done ← newLabel
    let init ← initializer ctx init
    let test ← optionally ctx (.jumpFalse done) condition
    let body ← statement (ctx.inside (.loop next done)) body
    let update ← optionally ctx .pop update
    return forCode start next done range init test body update
  | .breakLoop =>
    match ctx.exits.find? ExitScope.isLoop with
    | some (.loop _ done) =>
      let cleanup ← leaveExits ctx range ctx.exits (ctx.exits.takeWhile (!·.isLoop)).length
      return cleanup ++ one (.loopExit (some done)) range
    | _ => throw (.outsideLoop .breakLoop)
  | .continueLoop =>
    match ctx.exits.find? ExitScope.isLoop with
    | some (.loop next _) =>
      let cleanup ← leaveExits ctx range ctx.exits (ctx.exits.takeWhile (!·.isLoop)).length
      return cleanup ++ one (.loopExit (some next)) range
    | _ => throw (.outsideLoop .continueLoop)
  | .returnValue value =>
    if !ctx.inFunction then throw .returnOutsideFunction
    let value ← valueOf ctx range value
    if ctx.exits.any ExitScope.needsCleanup then
      let cleanup ← leaveExits ctx range ctx.exits ctx.exits.length
      return returnCode range value cleanup
    else return value ++ one .ret range
  | .throwValue value =>
    let value ← expr ctx value
    return value ++ one .throw range
  | .tryCatch body handler finalBody =>
    let caught ← newLabel
    let done ← newLabel
    let uncaught ← newLabel
    let guarded := ctx.inside (.guarded finalBody)
    let body ← statements guarded body
    let start := if handler.isSome then caught else uncaught
    let handlerCode ← catchClause guarded caught done uncaught handler
    let rethrow ← finalizer (ctx.inside .pendingThrow) range finalBody
    let final ← finalizer ctx range finalBody
    return tryCode start done uncaught handler.isSome range body handlerCode rethrow final
  | .function decl =>
    match decl.name? with
    | none => throw .unnamedFunction
    | some name =>
      let _ ← function ctx (ctx.resolve name) decl
      return []
  | .classDecl name decls =>
    let declared ← methods ctx name decls
    if declared.any (·.1 = constructorName) then
      defineClass ⟨name, declared⟩
    else
      let index ← defineFunction (methodName name constructorName) []
        (closeBody ⟨range.last, range.last⟩ [])
      defineClass ⟨name, declared ++ [(constructorName, index)]⟩
    return []
  | .debugger => return one .debugger range
  | .empty => return []
termination_by 2 * sizeOf form + ExitScope.weights ctx.exits
decreasing_by all_goals (try simp) <;> omega

/-- the first part of a `for`, nothing if it is missing -/
def initializer (ctx : Context) (init : Option Stmt) : Compile Code := do
  match init with
  | some stmt => statement ctx stmt
  | none => return []
termination_by 2 * sizeOf init + ExitScope.weights ctx.exits
decreasing_by all_goals simp

/-- the handler of a `try`, nothing if there is none -/
def catchClause (ctx : Context) (caught done uncaught : Label) (handler : Option CatchClause) :
    Compile Code := do
  match handler with
  | some (.mk binding body range) =>
    let body ← statements ctx body
    return catchCode caught done uncaught binding range body
  | none => return []
termination_by 2 * sizeOf handler + ExitScope.weights ctx.exits
decreasing_by all_goals (simp; omega)

/-- the finalizer of a `try`, nothing if there is none -/
def finalizer (ctx : Context) (range : TokenRange) (body : Option (List Stmt)) : Compile Code := do
  match body with
  | some body => return blockCode range (← statements ctx body)
  | none => return []
termination_by 2 * sizeOf body + ExitScope.weights ctx.exits
decreasing_by all_goals simp

/-- The cleanup before a jump out of the innermost `count` scopes.  If no scope on the way needs
any, the jump itself unwinds the stack. -/
def leaveExits (ctx : Context) (range : TokenRange) (exits : List ExitScope) (count : Nat) :
    Compile Code := do
  if (exits.take count).any ExitScope.needsCleanup then crossExits ctx range exits count
  else return []
termination_by ExitScope.weights exits + 1
decreasing_by all_goals simp

/-- leaves the innermost `count` scopes one after another -/
def crossExits (ctx : Context) (range : TokenRange) (exits : List ExitScope) (count : Nat) :
    Compile Code := do
  match exits, count with
  | [], _ => return []
  | _, 0 => return []
  | .loop _ _ :: outer, count + 1 =>
    let rest ← crossExits ctx range outer count
    return one .loopEnd range ++ rest
  | .pendingThrow :: outer, count + 1 =>
    let rest ← crossExits ctx range outer count
    return one .pop range ++ rest
  | .guarded none :: outer, count + 1 =>
    let rest ← crossExits ctx range outer count
    return one .leaveTry range ++ rest
  | .guarded (some body) :: outer, count + 1 =>
    let final ← statements { ctx with exits := outer } body
    let rest ← crossExits ctx range outer count
    return one .leaveTry range ++ blockCode range final ++ rest
termination_by ExitScope.weights exits
decreasing_by all_goals (try simp) <;> omega

end

end Compile

end ScriptMachine
