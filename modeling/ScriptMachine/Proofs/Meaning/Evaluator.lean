import Mathlib
import ScriptMachine.Machine.Dispatch

/-!
# What structured programs mean

An evaluator on syntax trees, over the same heaps, arrays and values as the machine.  It knows no
stack, no jumps and no code.  Loops and calls use up fuel, and without fuel there is no result.

* `World`           what a script can change;
* `Eval`            the value of an expression or a thrown value, and the world after it;
* `Completion`      how a statement ends;
* `evalExpr`        expressions; arguments and array elements are evaluated from the last to the first;
* `exec`            statements;
* `callFunction`    functions;
* `execProgram`     whole programs.
-/

namespace ScriptMachine

structure World where
  heap : Heap
  /-- what was shown so far, the latest first -/
  events : List Event

/-- a result or a thrown value, and the world after it; nothing if the fuel was used up -/
def Eval (α : Type) : Type := World → Option (Except Value α × World)

namespace Eval

variable {α β : Type}

def pure (a : α) : Eval α := fun w => some (.ok a, w)

def throw (v : Value) : Eval α := fun w => some (.error v, w)

/-- one after the other; a thrown value ends both -/
def bind (x : Eval α) (f : α → Eval β) : Eval β := fun w =>
  match x w with
  | none => none
  | some (.error v, w') => some (.error v, w')
  | some (.ok a, w') => f a w'

instance : Monad Eval where
  pure := Eval.pure
  bind := Eval.bind

end Eval

/-- how a statement ends -/
inductive Completion where
  | normal
  | breaks
  | continues
  | returns (value : Value)
  | throws (value : Value)

/-- the effect of a statement; nothing if the fuel was used up -/
def Effect : Type := World → Option (Completion × World)

namespace Effect

/-- an effect that needs the value of an expression first -/
def ofEval {α : Type} (x : Eval α) (f : α → Effect) : Effect := fun w =>
  match x w with
  | none => none
  | some (.error v, w') => some (.throws v, w')
  | some (.ok a, w') => f a w'

def done : Effect := fun w => some (.normal, w)

/-- the second effect only if the first one ends normally -/
def seq (first second : Effect) : Effect := fun w =>
  match first w with
  | some (.normal, w') => second w'
  | r => r

/-- an effect in a new scope -/
def inScope (env : EnvId) (f : EnvId → Effect) : Effect := fun w =>
  let (scope, heap) := w.heap.newScope env
  f scope { w with heap := heap }

/-- a thrown value goes to the handler -/
def handled (body : Effect) (handler : Value → Effect) : Effect := fun w =>
  match body w with
  | some (.throws v, w') => handler v w'
  | r => r

/-- The finalizer runs whatever the body came to, and matters more if it does not end normally. -/
def finalized (body finalizer : Effect) : Effect := fun w =>
  match body w with
  | none => none
  | some (c, w') =>
    match finalizer w' with
    | some (.normal, w'') => some (c, w'')
    | r => r

/-- a loop of at most so many rounds -/
def loop (test : Eval Value) (body : Effect) (update : Eval Unit) : Nat → Effect
  | 0 => fun _ => none
  | n + 1 =>
    ofEval test fun v =>
      if v.isTruthy then fun w =>
        match body w with
        | some (.normal, w') => ofEval update (fun _ => loop test body update n) w'
        | some (.continues, w') => ofEval update (fun _ => loop test body update n) w'
        | some (.breaks, w') => some (.normal, w')
        | r => r
      else done

end Effect

/-! ## names and calls -/

/-- the place of a declared function; of functions with one name the last one counts -/
def functionPlace? (functions : List FunctionDecl) (name : String) : Option Nat :=
  Program.lastIndex? name (functions.map fun decl => decl.name?.getD "")

/-- a name is looked up in the scopes around, then among the functions -/
def lookupName? (functions : List FunctionDecl) (heap : Heap) (env : EnvId) (name : String) :
    Option Value :=
  (heap.lookup? env name).or ((functionPlace? functions name).map .function)

/-- the value of a variable; a name without one is `undefined` -/
def readName (functions : List FunctionDecl) (env : EnvId) (name : String) : Eval Value := fun w =>
  match lookupName? functions w.heap env name with
  | some v => some (.ok v, w)
  | none => some (.ok (if name = Linked.printName then .native name else .undefined), w)

/-- gives a name a new value where it is bound; a name that is bound nowhere becomes global -/
def World.assign (global env : EnvId) (name : String) (v : Value) (w : World) : World :=
  { w with heap := w.heap.define ((w.heap.owner? env name).getD global) name v }

def assignName (global env : EnvId) (name : String) (v : Value) : Eval Value := fun w =>
  some (.ok v, w.assign global env name v)

/-- shows values in one line -/
def World.print (args : List Value) (w : World) : World :=
  { w with events := .printed (" ".intercalate (args.map w.heap.text)) :: w.events }

/-- `print`; the host has no other functions -/
def callHost (name : String) (args : List Value) : Eval Value := fun w =>
  if name = Linked.printName then some (.ok .undefined, w.print args)
  else some (.error (notAFunction name), w)

section
variable (functions : List FunctionDecl) (global : EnvId) (call : Nat → List Value → Eval Value)

/-- calls a value -/
def callValueWith (v : Value) (args : List Value) : Eval Value :=
  match v with
  | .function index => call index args
  | .native name => callHost name args
  | v => fun w => some (.error (notAFunction (w.heap.text v)), w)

def callName (env : EnvId) (name : String) (args : List Value) : Eval Value := fun w =>
  match lookupName? functions w.heap env name with
  | some v => callValueWith call v args w
  | none => callHost name args w

/-- reads a property -/
def readProperty (target : Value) (name : String) : Eval Value := fun w =>
  some (w.heap.getProperty target name, w)

/-- What indexing a value does, by the name of its indexer.  Structured programs have no objects,
which may have indexers of their own. -/
def indexWith (indexer : String) (target : Value) (args : List Value) : Eval Value := fun w =>
  match w.heap.method target indexer with
  | .immediate run =>
    let (r, heap) := run args w.heap
    some (r, { w with heap := heap })
  | .refusing thrown => some (.error thrown, w)
  | .missing thrown => some (.error thrown, w)
  | .callee _ => some (.error (notAFunction indexer), w)

def makeArray (items : List Value) : Eval Value := fun w =>
  let (id, heap) := w.heap.newArray items.toArray
  some (.ok (.array id), { w with heap := heap })

/-- nothing that structured programs have -/
def noMeaning {α : Type} : Eval α := fun _ => none

/-! ## expressions -/

mutual

def evalExpr (env : EnvId) : Expr → Eval Value
  | .node form _ => evalForm env form

def evalForm (env : EnvId) : ExprForm → Eval Value
  | .number x => pure (.number x)
  | .string s => pure (.string s)
  | .bool b => pure (.bool b)
  | .null => pure .null
  | .undefined => pure .undefined
  | .variable name => readName functions env name
  | .assign (.node (.variable name) _) value => do
    let v ← evalExpr env value
    assignName global env name v
  | .assign (.node (.index object key) _) value => do
    let target ← evalExpr env object
    let v ← evalExpr env value
    let k ← evalExpr env key
    indexWith indexerSet target [k, v]
  | .binary op left right => do
    let a ← evalExpr env left
    let b ← evalExpr env right
    fun w => some (.ok (w.heap.applyBinary op a b), w)
  -- the right value, or else the literal, never the left value
  | .logical .and left right => do
    let a ← evalExpr env left
    if a.isTruthy then evalExpr env right else pure (.bool false)
  | .logical .or left right => do
    let a ← evalExpr env left
    if a.isTruthy then pure (.bool true) else evalExpr env right
  | .unary .neg operand => do
    let v ← evalExpr env operand
    pure v.negate
  | .unary .not operand => do
    let v ← evalExpr env operand
    pure v.invert
  | .call (.node (.variable name) _) args => do
    let vs ← evalArgs env args
    callName functions call env name vs
  | .member object property => do
    let target ← evalExpr env object
    readProperty target property
  | .index object key => do
    let target ← evalExpr env object
    let k ← evalExpr env key
    indexWith indexerGet target [k]
  | .array elements => do
    let vs ← evalArgs env elements
    makeArray vs
  | _ => noMeaning

/-- the last one first -/
def evalArgs (env : EnvId) : List Expr → Eval (List Value)
  | [] => pure []
  | e :: rest => do
    let vs ← evalArgs env rest
    let v ← evalExpr env e
    pure (v :: vs)

end

/-- the value of an expression, `undefined` if there is none -/
def evalOr (env : EnvId) : Option Expr → Eval Value
  | some e => evalExpr functions global call env e
  | none => pure .undefined

/-! ## statements -/

/-- the test of a loop; without one it goes on -/
def evalTest (env : EnvId) : Option Expr → Eval Value
  | some e => evalExpr functions global call env e
  | none => pure (.bool true)

def evalUpdate (env : EnvId) : Option Expr → Eval Unit
  | some e => do
    let _ ← evalExpr functions global call env e
    pure ()
  | none => pure ()

/-- declares a name in a scope and gives it a value -/
def declareWith (env : EnvId) (name : String) (x : Eval Value) : Effect := fun w =>
  Effect.ofEval x (fun v w => some (.normal, w.assign global env name v))
    { w with heap := w.heap.declare env name }

/-- the binding of a thrown value -/
def bindCaught (env : EnvId) : Option String → Value → Effect
  | some name, v => declareWith global env name (pure v)
  | none, _ => Effect.done

variable (fuel : Nat)

mutual

def exec (env : EnvId) : Stmt → Effect
  | .node form _ => execForm env form

def execForm (env : EnvId) : StmtForm → Effect
  | .expression e => Effect.ofEval (evalExpr functions global call env e) fun _ => Effect.done
  | .varDecl name init => declareWith global env name (evalOr functions global call env init)
  | .block body => Effect.inScope env fun scope => execAll scope body
  | .ifElse test thenBranch elseBranch =>
    Effect.ofEval (evalExpr functions global call env test) fun v =>
      if v.isTruthy then exec env thenBranch else execOption env elseBranch
  | .whileLoop test body =>
    Effect.loop (evalExpr functions global call env test) (exec env body) (pure ()) fuel
  | .forLoop init test update body =>
    Effect.inScope env fun scope =>
      Effect.seq (execOption scope init)
        (Effect.loop (evalTest functions global call scope test) (exec scope body)
          (evalUpdate functions global call scope update) fuel)
  | .breakLoop => fun w => some (.breaks, w)
  | .continueLoop => fun w => some (.continues, w)
  | .returnValue value =>
    Effect.ofEval (evalOr functions global call env value) fun v w => some (.returns v, w)
  | .throwValue value =>
    Effect.ofEval (evalExpr functions global call env value) fun v w => some (.throws v, w)
  | .tryCatch body handler finalizer =>
    Effect.finalized
      (Effect.handled (Effect.inScope env fun scope => execAll scope body) (execHandler env handler))
      (execFinalizer env finalizer)
  | .function _ => Effect.done
  | .empty => Effect.done
  | _ => fun _ => none

def execAll (env : EnvId) : List Stmt → Effect
  | [] => Effect.done
  | stmt :: rest => Effect.seq (exec env stmt) (execAll env rest)

def execOption (env : EnvId) : Option Stmt → Effect
  | some stmt => exec env stmt
  | none => Effect.done

/-- the handler of a thrown value, which goes on if there is none -/
def execHandler (env : EnvId) : Option CatchClause → Value → Effect
  | some (.mk binding body _), v =>
    Effect.inScope env fun scope => Effect.seq (bindCaught global scope binding v) (execAll scope body)
  | none, v => fun w => some (.throws v, w)

def execFinalizer (env : EnvId) : Option (List Stmt) → Effect
  | some body => Effect.inScope env fun scope => execAll scope body
  | none => Effect.done

end

end

/-! ## functions and programs -/

/-- what a function gives back when its body has ended -/
def Completion.result : Completion → Except Value Value
  | .returns v => .ok v
  | .throws v => .error v
  | _ => .ok .undefined

/-- Calls a function in a new scope.  Calls inside of it have less fuel. -/
def callFunction (functions : List FunctionDecl) (global : EnvId) : Nat → Nat → List Value → Eval Value
  | 0, _, _ => fun _ => none
  | fuel + 1, index, args => fun w =>
    match functions[index]? with
    | none => none
    | some decl =>
      let (scope, heap) := w.heap.newScope global
      let heap := Exec.bindParameters scope decl.params args heap
      (execAll functions global (callFunction functions global fuel) fuel scope decl.body
        { w with heap := heap }).map fun (c, w') => (c.result, w')

/-- the functions that a program declares -/
def topFunctions (body : List Stmt) : List FunctionDecl :=
  body.filterMap fun stmt =>
    match stmt.form with
    | .function decl => some decl
    | _ => none

/-- a program on a heap with nothing but the global scope -/
def execProgram (fuel : Nat) (body : List Stmt) : Option (Completion × World) :=
  let (global, heap) := Heap.empty.newGlobal
  let functions := topFunctions body
  execAll functions global (callFunction functions global fuel) fuel global body ⟨heap, []⟩

end ScriptMachine
