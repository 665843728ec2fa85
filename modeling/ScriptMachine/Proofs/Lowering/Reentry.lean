import ScriptMachine.Proofs.Lowering.Rules

/-!
# A compiler that keeps the scopes in its state

The scopes that a jump may have to leave can be stacks that the compiler pushes to and pops from.  A jump
then takes the finalizers from the stack and compiles them once more, each with the stack cut down to what
is around its own region; the jumps in them do the same.  Every call here has a size, made of what it
compiles and of the finalizers on the stack, and a compiler with a bound gives up where a call is not
smaller than the one that it comes from.

* `Exit`, `CompilerState`   the stacks, with what was gathered so far;
* `Reentrant`               a step of a compilation, which keeps its state when it fails;
* `Reentrant.within`, `Reentrant.outside`, `Reentrant.alone`   changing the stacks for a while;
* `Reentrant.smaller`       a call, which is smaller than the bound and is the bound of those in it;
* `Reentrant.statement`, `Reentrant.block`, `Reentrant.tryCatch`, `Reentrant.leaveExits`,
  `Reentrant.function`      the compiler.
-/

namespace ScriptMachine

/-! ## the state -/

/-- the labels that `continue` and `break` go to -/
structure LoopLabels where
  next : Label
  done : Label

/-- a construct that a jump may have to leave -/
inductive Exit where
  | loop
  /-- a protected region inside so many loops -/
  | guarded (finalizer : Option (List Stmt)) (loops : Nat)
  | pendingThrow

namespace Exit

def needsCleanup : Exit → Bool
  | loop => false
  | guarded finalizer _ => finalizer.isSome
  | pendingThrow => true

def isLoop : Exit → Bool
  | loop => true
  | _ => false

end Exit

/-- Both stacks have the innermost construct of the function in front. -/
structure CompilerState where
  builder : Builder
  exits : List Exit
  loops : List LoopLabels

/-- the exit scopes, with the labels of the loops among them -/
def scopesOf : List Exit → List LoopLabels → List ExitScope
  | .loop :: outer, labels :: loops => .loop labels.next labels.done :: scopesOf outer loops
  | .guarded finalizer _ :: outer, loops => .guarded finalizer :: scopesOf outer loops
  | .pendingThrow :: outer, loops => .pendingThrow :: scopesOf outer loops
  | _, _ => []

/-- what is around the code that is being made, but for the scopes -/
structure Surroundings where
  source : Source
  inFunction : Bool := false
  enclosing : List LocalFunctions := []

namespace Surroundings

def context (p : Surroundings) (scopes : List ExitScope) : Context :=
  ⟨p.source, scopes, p.inFunction, p.enclosing⟩

def resolve (p : Surroundings) (name : String) : String := (p.context []).resolve name

def textOf (p : Surroundings) (range : TokenRange) : String := (p.context []).textOf range

end Surroundings

/-- A step of a compilation, which keeps its state when it fails.  There is no outcome if it gives up. -/
abbrev Reentrant := ExceptT CompileError (StateT CompilerState Option)

namespace Reentrant

section
variable {α : Type}

/-- what comes of a step, and the state behind it -/
def outcome (m : Reentrant α) (s : CompilerState) : Option (Except CompileError α × CompilerState) :=
  (ExceptT.run m).run s

def giveUp : Reentrant α := ExceptT.mk fun _ => none

/-- a step that knows nothing of the stacks -/
def lift (m : Compile α) : Reentrant α := ExceptT.mk fun s =>
  match m s.builder with
  | .ok (a, builder) => some (.ok a, { s with builder := builder })
  | .error e => some (.error e, s)

def exits : Reentrant (List Exit) := return (← get).exits

def loops : Reentrant (List LoopLabels) := return (← get).loops

def scopes : Reentrant (List ExitScope) := return scopesOf (← exits) (← loops)

/-! ## changes to the stacks -/

/-- Changes the state before a step and again behind it, also if the step fails. -/
def within (enter leave : CompilerState → CompilerState) (m : Reentrant α) : Reentrant α :=
  ExceptT.mk fun s => (m.outcome (enter s)).map fun r => (r.1, leave r.2)

/-- inside one more scope -/
def withExit (exit : Exit) (m : Reentrant α) : Reentrant α :=
  within (fun s => { s with exits := exit :: s.exits }) (fun s => { s with exits := s.exits.tail }) m

/-- inside one more loop -/
def loopBody (labels : LoopLabels) (m : Reentrant α) : Reentrant α :=
  within (fun s => { s with exits := .loop :: s.exits, loops := labels :: s.loops })
    (fun s => { s with exits := s.exits.tail, loops := s.loops.tail }) m

/-- outside of the innermost `depth` scopes, where there are only so many loops -/
def outside (depth count : Nat) (m : Reentrant α) : Reentrant α := do
  let innerExits := (← exits).take depth
  let innerLoops := (← loops).take ((← loops).length - count)
  within
    (fun s => { s with exits := s.exits.drop depth, loops := s.loops.drop (s.loops.length - count) })
    (fun s => { s with exits := innerExits ++ s.exits, loops := innerLoops ++ s.loops }) m

/-- in a function of its own -/
def alone (m : Reentrant α) : Reentrant α := do
  let savedExits ← exits
  let savedLoops ← loops
  within (fun s => { s with exits := [], loops := [] })
    (fun s => { s with exits := savedExits, loops := savedLoops }) m

/-! ## calls -/

/-- A call of a size that the scopes around have a part in.  It has to be below the bound, and the calls
in it have to be below the call. -/
def smaller (bound : Nat) (size : List ExitScope → Nat) (body : { n : Nat // n < bound } → Reentrant α) :
    Reentrant α := do
  let n := size (← scopes)
  if h : n < bound then body ⟨n, h⟩ else giveUp

/-! ## loops -/

/-- the code of expressions, the last one first -/
def reversed (compile : Expr → Reentrant Code) : List Expr → Reentrant Code
  | [] => return []
  | e :: rest => do
    let rest ← reversed compile rest
    let e ← compile e
    return rest ++ e

/-- the code of statements one after another -/
def each (compile : Stmt → Reentrant Code) : List Stmt → Reentrant Code
  | [] => return []
  | stmt :: rest => do
    let first ← compile stmt
    let rest ← each compile rest
    return first ++ rest

/-- the methods of a class one after another -/
def methods (compile : String → FunctionDecl → Reentrant Nat) (className : String) :
    List FunctionDecl → Reentrant (List (String × Nat))
  | [] => return []
  | decl :: rest =>
    match decl.name? with
    | none => throw .unnamedMethod
    | some name => do
      let index ← compile (methodName className name) decl
      let rest ← methods compile className rest
      return (name, index) :: rest

/-- what a part that may be missing comes to, and what stands in its place -/
def optional {β : Type} (compile : β → Reentrant Code) (missing : Reentrant Code) :
    Option β → Reentrant Code
  | some part => compile part
  | none => missing

/-- an expression and an instruction that takes its value -/
def followed (compile : Expr → Reentrant Code) (op : Op) (e : Expr) : Reentrant Code := do
  let value ← compile e
  return value ++ one op e.range

/-- a new function, whose body is compiled on its own -/
def defineFunction (name : String) (params : List String) (body : Reentrant Code) : Reentrant Nat := do
  let index ← lift (modifyGet fun b => (b.functions.size, b.reserve name params))
  let code ← alone body
  lift (modify fun b => b.fill index code)
  return index

/-- The scopes from `depth` on are left one after another, so many of them.  Each finalizer is compiled
outside of its own region. -/
def crossExits (final : List Stmt → Reentrant Code) (range : TokenRange) : Nat → Nat → Reentrant Code
  | _, 0 => return []
  | depth, count + 1 => do
    match (← exits)[depth]? with
    | none => return []
    | some .loop =>
      let rest ← crossExits final range (depth + 1) count
      return one .loopEnd range ++ rest
    | some .pendingThrow =>
      let rest ← crossExits final range (depth + 1) count
      return one .pop range ++ rest
    | some (.guarded none _) =>
      let rest ← crossExits final range (depth + 1) count
      return one .leaveTry range ++ rest
    | some (.guarded (some body) loops) =>
      let cleanup ← outside (depth + 1) loops (final body)
      let rest ← crossExits final range (depth + 1) count
      return one .leaveTry range ++ cleanup ++ rest

end

/-! ## the compiler -/

open ExitScope (weights)

mutual

/-- the code that leaves the value of an expression on the stack -/
noncomputable def expr (bound : Nat) (p : Surroundings) (e : Expr) : Reentrant Code :=
  smaller bound (fun _ => 2 * sizeOf e) fun n => do
    match e with
    | .node (.number x) range => lift (Compile.constant (.number x) range)
    | .node (.string s) range => lift (Compile.constant (.string s) range)
    | .node (.bool b) range => lift (Compile.constant (.bool b) range)
    | .node .null range => lift (Compile.constant .null range)
    | .node .undefined range => lift (Compile.constant .undefined range)
    | .node (.variable name) range => return one (.fetch (p.resolve name) .variable) range
    | .node .this range => return one (.fetch "this" .variable) range
    | .node (.assign (.node (.variable name) _) value) range =>
      let value ← expr n p value
      return value ++ one (.store name false) range
    | .node (.assign (.node (.member object property) _) value) range =>
      let object ← expr n p object
      let value ← expr n p value
      return object ++ value ++ one (.store property true) range
    | .node (.assign (.node (.index object key) _) value) range =>
      let object ← expr n p object
      let value ← expr n p value
      let key ← expr n p key
      return object ++ value ++ key ++ methodCall indexerSet 2 range
    | .node (.assign target _) _ => throw (.invalidTarget (p.textOf target.range))
    | .node (.binary op left right) range =>
      let left ← expr n p left
      let right ← expr n p right
      return left ++ right ++ one (.binary op) range
    | .node (.logical op left right) range =>
      let decided ← lift Compile.newLabel
      let done ← lift Compile.newLabel
      let left ← expr n p left
      let right ← expr n p right
      let literal ← lift (Compile.constant (.bool op.decided) range)
      return logicalCode op decided done range left right literal
    | .node (.unary op operand) range =>
      let operand ← expr n p operand
      return operand ++ one op.toOp range
    | .node (.call callee args) range =>
      lift (Compile.checkArguments (p.textOf callee.range) args.length)
      match callee with
      | .node (.member object property) _ =>
        let object ← expr n p object
        let args' ← reversed (expr n p) args
        return object ++ args' ++ methodCall property args.length range
      | .node (.variable name) _ =>
        let args' ← reversed (expr n p) args
        return args' ++ one (.fetch (p.resolve name) (.callVariable args.length)) range
          ++ one (.call args.length false) range
      | callee =>
        let args' ← reversed (expr n p) args
        let callee ← expr n p callee
        return args' ++ callee ++ one (.call args.length false) range
    | .node (.member object property) range =>
      let object ← expr n p object
      return object ++ one (.fetch property .property) range
    | .node (.index object key) range =>
      let object ← expr n p object
      let key ← expr n p key
      return object ++ key ++ methodCall indexerGet 1 range
    | .node (.new className args) range =>
      lift (Compile.checkArguments className args.length)
      let args' ← reversed (expr n p) args
      return newCode className args.length range args'
    | .node (.function decl) range =>
      let name ← match decl.name? with
        | some name => pure name
        | none => lift Compile.anonymousName
      let _ ← function n p name decl
      return one (.fetch name .variable) range
    | .node (.array elements) range =>
      let items ← reversed (expr n p) elements
      return items ++ one (.makeArray elements.length) range
termination_by bound
decreasing_by all_goals exact n.property

/-- a function under the name that it has in the function table -/
noncomputable def function (bound : Nat) (p : Surroundings) (name : String) (decl : FunctionDecl) :
    Reentrant Nat :=
  smaller bound (fun _ => 2 * sizeOf decl) fun n => do
    match decl with
    | .mk _ params body range =>
      if maxParameters < params.length then throw (.tooManyParameters name params.length)
      let inner : Surroundings := ⟨p.source, true, ⟨name, declaredInAll body⟩ :: p.enclosing⟩
      defineFunction name params do
        let code ← each (statement n inner) body
        lift (Compile.closeBody ⟨range.last, range.last⟩ code)
termination_by bound
decreasing_by all_goals exact n.property

/-- the code of a statement, which leaves the stack as it was -/
noncomputable def statement (bound : Nat) (p : Surroundings) (stmt : Stmt) : Reentrant Code :=
  smaller bound (fun scopes => 2 * sizeOf stmt + weights scopes) fun n => do
    match stmt with
    | .node (.block body) range => block n p range body
    | .node form range => return startStatement (← scopes) range (← statementForm n p range form)
termination_by bound
decreasing_by all_goals exact n.property

/-- statements in a scope of their own -/
noncomputable def block (bound : Nat) (p : Surroundings) (range : TokenRange) (body : List Stmt) :
    Reentrant Code :=
  smaller bound (fun scopes => 2 * sizeOf body + weights scopes) fun n => do
    return blockCode range (← each (statement n p) body)
termination_by bound
decreasing_by all_goals exact n.property

/-- the code of a statement before its first instruction is marked -/
noncomputable def statementForm (bound : Nat) (p : Surroundings) (range : TokenRange) (form : StmtForm) :
    Reentrant Code :=
  smaller bound (fun scopes => 2 * sizeOf form + weights scopes) fun n => do
    match form with
    | .expression e =>
      let value ← expr n p e
      return value ++ one .pop range
    | .varDecl name init =>
      let value ← optional (expr n p) (lift (Compile.constant .undefined range)) init
      return one (.declare name) range ++ value ++ one (.store name false) range ++ one .pop range
    | .block body => block n p range body
    | .ifElse condition thenBranch elseBranch =>
      let otherwise ← lift Compile.newLabel
      let test ← expr n p condition
      let thenCode ← statement n p thenBranch
      match elseBranch with
      | none => return ifCode otherwise condition.range test thenCode
      | some elseBranch =>
        let done ← lift Compile.newLabel
        let elseCode ← statement n p elseBranch
        return ifElseCode otherwise done condition.range range test thenCode elseCode
    | .whileLoop condition body =>
      let start ← lift Compile.newLabel
      let done ← lift Compile.newLabel
      let test ← expr n p condition
      let body ← loopBody ⟨start, done⟩ (statement n p body)
      return whileCode start done condition.range range test body
    | .forLoop init condition update body =>
      let start ← lift Compile.newLabel
      let next ← lift Compile.newLabel
      let done ← lift Compile.newLabel
      let init ← optional (statement n p) (pure []) init
      let test ← optional (followed (expr n p) (.jumpFalse done)) (pure []) condition
      let body ← loopBody ⟨next, done⟩ (statement n p body)
      let update ← optional (followed (expr n p) .pop) (pure []) update
      return forCode start next done range init test body update
    | .breakLoop =>
      match (← loops).head? with
      | some labels =>
        let cleanup ← leaveExits n p range ((← exits).takeWhile (!·.isLoop)).length
        return cleanup ++ one (.loopExit (some labels.done)) range
      | none => throw (.outsideLoop .breakLoop)
    | .continueLoop =>
      match (← loops).head? with
      | some labels =>
        let cleanup ← leaveExits n p range ((← exits).takeWhile (!·.isLoop)).length
        return cleanup ++ one (.loopExit (some labels.next)) range
      | none => throw (.outsideLoop .continueLoop)
    | .returnValue value =>
      if !p.inFunction then throw .returnOutsideFunction
      let value ← optional (expr n p) (lift (Compile.constant .undefined range)) value
      if (← exits).any Exit.needsCleanup then
        let cleanup ← leaveExits n p range (← exits).length
        return returnCode range value cleanup
      else return value ++ one .ret range
    | .throwValue value =>
      let value ← expr n p value
      return value ++ one .throw range
    | .tryCatch body handler finalBody => tryCatch n p range body handler finalBody
    | .function decl =>
      match decl.name? with
      | none => throw .unnamedFunction
      | some name =>
        let _ ← function n p (p.resolve name) decl
        return []
    | .classDecl name decls =>
      let declared ← methods (function n p) name decls
      if declared.any (·.1 = constructorName) then
        lift (Compile.defineClass ⟨name, declared⟩)
      else
        let index ← defineFunction (methodName name constructorName) []
          (lift (Compile.closeBody ⟨range.last, range.last⟩ []))
        lift (Compile.defineClass ⟨name, declared ++ [(constructorName, index)]⟩)
      return []
    | .debugger => return one .debugger range
    | .empty => return []
termination_by bound
decreasing_by all_goals exact n.property

/-- The body and the handler are protected by the finalizer, which is compiled with and without a thrown
value. -/
noncomputable def tryCatch (bound : Nat) (p : Surroundings) (range : TokenRange) (body : List Stmt)
    (handler : Option CatchClause) (finalBody : Option (List Stmt)) : Reentrant Code :=
  smaller bound
      (fun scopes => 2 * (sizeOf body + sizeOf handler + sizeOf finalBody) + weights scopes) fun n => do
    let caught ← lift Compile.newLabel
    let done ← lift Compile.newLabel
    let uncaught ← lift Compile.newLabel
    let region := Exit.guarded finalBody (← loops).length
    let start := if handler.isSome then caught else uncaught
    let protectedCode ← withExit region (each (statement n p) body)
    let handlerCode ← optional (fun
      | .mk binding body r => do
        let body ← withExit region (each (statement n p) body)
        return catchCode caught done uncaught binding r body) (pure []) handler
    let rethrow ← optional (fun body => withExit .pendingThrow (block n p range body)) (pure []) finalBody
    let final ← optional (block n p range) (pure []) finalBody
    return tryCode start done uncaught handler.isSome range protectedCode handlerCode rethrow final
termination_by bound
decreasing_by all_goals exact n.property

/-- the cleanup before a jump out of the innermost `count` scopes -/
noncomputable def leaveExits (bound : Nat) (p : Surroundings) (range : TokenRange) (count : Nat) :
    Reentrant Code :=
  smaller bound (fun scopes => weights scopes + 1) fun n => do
    if ((← exits).take count).any Exit.needsCleanup then crossExits (block n p range) range 0 count
    else return []
termination_by bound
decreasing_by all_goals exact n.property

end

end Reentrant

end ScriptMachine
