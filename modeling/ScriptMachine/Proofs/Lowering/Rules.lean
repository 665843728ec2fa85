import Mathlib
import ScriptMachine.Compile

/-!
# The code of a construct as a relation

`Compile` threads a builder through a recursion that also goes into the finalizers around a jump.
Here the same thing is said rule by rule: which code a construct has between two states of the
builder.  Statements about compiled code are proved by induction on these rules.

* `ExprCode ctx e b c b'`   `c` is the code of `e`, made with the builder going from `b` to `b'`;
* `ArgsCode`                the codes of expressions, the last one first;
* `FunctionAdded`, `MethodsAdded`   functions that enter the table;
* `StmtCode`, `BodyCode`, `FormCode`   statements, lists of statements, unmarked statements;
* `CrossCode ctx range crossed outer b c b'`   the cleanup on the way out of the scopes `crossed`,
                            which stand inside the scopes `outer`.
-/

namespace ScriptMachine

/-! ## steps of the builder -/

namespace Builder

/-- the builder after `n` more labels -/
def addLabels (b : Builder) (n : Nat) : Builder := { b with nextLabel := b.nextLabel + n }

def addConstant (b : Builder) (value : Value) : Builder :=
  { b with constants := (internConstant b.constants value).2 }

def constantCode (b : Builder) (value : Value) (range : TokenRange) : Code :=
  one (.const (internConstant b.constants value).1) range

/-- a function takes its place in the table; its code is not known yet -/
def reserve (b : Builder) (name : String) (params : List String) : Builder :=
  { b with functions := b.functions.push ⟨name, params, []⟩ }

def fill (b : Builder) (index : Nat) (code : Code) : Builder :=
  { b with functions := b.functions.modify index fun f => { f with code := code } }

def addClass (b : Builder) (entry : ClassEntry) : Builder :=
  { b with classes := b.classes.push entry }

def addAnonymous (b : Builder) : Builder := { b with anonymous := b.anonymous + 1 }

end Builder

/-! ## parts that may be missing -/

/-- the value of an expression that is written down as such -/
def ExprForm.literal? : ExprForm → Option Value
  | .number x => some (.number x)
  | .string s => some (.string s)
  | .bool b => some (.bool b)
  | .null => some .null
  | .undefined => some .undefined
  | _ => none

/-- a name or a property, which are called in ways of their own -/
def ExprForm.isPath : ExprForm → Bool
  | .variable _ => true
  | .member _ _ => true
  | _ => false

/-- the name that a function expression gets -/
def functionName (b : Builder) (decl : FunctionDecl) : String :=
  decl.name?.getD ("$_anon_" ++ toString b.anonymous)

def Builder.named (b : Builder) (decl : FunctionDecl) : Builder :=
  if decl.name?.isSome then b else b.addAnonymous

/-- where a jump out of the innermost loop goes -/
def loopTarget? (exits : List ExitScope) : StmtForm → Option Label
  | .breakLoop =>
    match exits.find? ExitScope.isLoop with
    | some (.loop _ done) => some done
    | _ => none
  | .continueLoop =>
    match exits.find? ExitScope.isLoop with
    | some (.loop next _) => some next
    | _ => none
  | _ => none

/-- the scopes inside the innermost loop -/
def insideLoop (exits : List ExitScope) : List ExitScope := exits.takeWhile (!·.isLoop)

/-- the innermost loop and what is around it -/
def fromLoop (exits : List ExitScope) : List ExitScope := exits.dropWhile (!·.isLoop)

theorem insideLoop_append_fromLoop (exits : List ExitScope) :
    insideLoop exits ++ fromLoop exits = exits := List.takeWhile_append_dropWhile

/-- an expression that may be missing, and what is done with its value -/
def optionalCode (op : Op) : Option Expr → Code → Code
  | none, _ => []
  | some e, c => c ++ one op e.range

def handlerCode (caught done uncaught : Label) : Option CatchClause → Code → Code
  | none, _ => []
  | some (.mk binding _ range), c => catchCode caught done uncaught binding range c

def finalCode (range : TokenRange) : Option (List Stmt) → Code → Code
  | none, _ => []
  | some _, c => blockCode range c

/-- a function body that does not end in a return gets one -/
inductive Closes (closing : TokenRange) : Code → Builder → Code → Builder → Prop
  | already (h : endsInReturn code = true) : Closes closing code b code b
  | added (h : endsInReturn code = false) :
    Closes closing code b (code ++ b.constantCode .undefined closing ++ one .ret closing)
      (b.addConstant .undefined)

/-! ## the rules -/

mutual

inductive ExprCode : Context → Expr → Builder → Code → Builder → Prop
  | literal (h : form.literal? = some value) :
    ExprCode ctx (.node form range) b (b.constantCode value range) (b.addConstant value)
  | variable :
    ExprCode ctx (.node (.variable name) range) b (one (.fetch (ctx.resolve name) .variable) range) b
  | this : ExprCode ctx (.node .this range) b (one (.fetch "this" .variable) range) b
  | assignVariable (hv : ExprCode ctx value b c b') :
    ExprCode ctx (.node (.assign (.node (.variable name) r) value) range) b
      (c ++ one (.store name false) range) b'
  | assignMember (ho : ExprCode ctx object b c₁ b₁) (hv : ExprCode ctx value b₁ c₂ b₂) :
    ExprCode ctx (.node (.assign (.node (.member object property) r) value) range) b
      (c₁ ++ c₂ ++ one (.store property true) range) b₂
  | assignIndex (ho : ExprCode ctx object b c₁ b₁) (hv : ExprCode ctx value b₁ c₂ b₂)
      (hk : ExprCode ctx key b₂ c₃ b₃) :
    ExprCode ctx (.node (.assign (.node (.index object key) r) value) range) b
      (c₁ ++ c₂ ++ c₃ ++ methodCall indexerSet 2 range) b₃
  | binary (hl : ExprCode ctx left b c₁ b₁) (hr : ExprCode ctx right b₁ c₂ b₂) :
    ExprCode ctx (.node (.binary op left right) range) b (c₁ ++ c₂ ++ one (.binary op) range) b₂
  | logical (hl : ExprCode ctx left (b.addLabels 2) c₁ b₁) (hr : ExprCode ctx right b₁ c₂ b₂) :
    ExprCode ctx (.node (.logical op left right) range) b
      (logicalCode op b.nextLabel (b.nextLabel + 1) range c₁ c₂
        (b₂.constantCode (.bool op.decided) range))
      (b₂.addConstant (.bool op.decided))
  | unary (h : ExprCode ctx operand b c b') :
    ExprCode ctx (.node (.unary op operand) range) b (c ++ one op.toOp range) b'
  | callMember (hn : args.length ≤ maxArguments) (ho : ExprCode ctx object b c₁ b₁)
      (ha : ArgsCode ctx args b₁ c₂ b₂) :
    ExprCode ctx (.node (.call (.node (.member object property) r) args) range) b
      (c₁ ++ c₂ ++ methodCall property args.length range) b₂
  | callVariable (hn : args.length ≤ maxArguments) (ha : ArgsCode ctx args b c b') :
    ExprCode ctx (.node (.call (.node (.variable name) r) args) range) b
      (c ++ one (.fetch (ctx.resolve name) (.callVariable args.length)) range
        ++ one (.call args.length false) range) b'
  | callValue (hn : args.length ≤ maxArguments) (hplain : callee.form.isPath = false)
      (ha : ArgsCode ctx args b c₁ b₁) (hc : ExprCode ctx callee b₁ c₂ b₂) :
    ExprCode ctx (.node (.call callee args) range) b
      (c₁ ++ c₂ ++ one (.call args.length false) range) b₂
  | member (ho : ExprCode ctx object b c b') :
    ExprCode ctx (.node (.member object property) range) b
      (c ++ one (.fetch property .property) range) b'
  | index (ho : ExprCode ctx object b c₁ b₁) (hk : ExprCode ctx key b₁ c₂ b₂) :
    ExprCode ctx (.node (.index object key) range) b
      (c₁ ++ c₂ ++ methodCall indexerGet 1 range) b₂
  | new (hn : args.length ≤ maxArguments) (ha : ArgsCode ctx args b c b') :
    ExprCode ctx (.node (.new className args) range) b (newCode className args.length range c) b'
  | function (hf : FunctionAdded ctx (functionName b decl) decl (b.named decl) index b') :
    ExprCode ctx (.node (.function decl) range) b
      (one (.fetch (functionName b decl) .variable) range) b'
  | array (ha : ArgsCode ctx elements b c b') :
    ExprCode ctx (.node (.array elements) range) b (c ++ one (.makeArray elements.length) range) b'

inductive ArgsCode : Context → List Expr → Builder → Code → Builder → Prop
  | nil : ArgsCode ctx [] b [] b
  | cons (hr : ArgsCode ctx rest b c₁ b₁) (he : ExprCode ctx e b₁ c₂ b₂) :
    ArgsCode ctx (e :: rest) b (c₁ ++ c₂) b₂

inductive FunctionAdded : Context → String → FunctionDecl → Builder → Nat → Builder → Prop
  | mk (hn : params.length ≤ maxParameters)
      (hb : BodyCode ⟨ctx.source, [], true, ⟨name, declaredInAll body⟩ :: ctx.enclosing⟩ body
        (b.reserve name params) c b₁)
      (hc : Closes ⟨range.last, range.last⟩ c b₁ c' b₂) :
    FunctionAdded ctx name (.mk n params body range) b b.functions.size
      (b₂.fill b.functions.size c')

inductive MethodsAdded : Context → String → List FunctionDecl → Builder → List (String × Nat) →
    Builder → Prop
  | nil : MethodsAdded ctx className [] b [] b
  | cons (hname : decl.name? = some name)
      (hf : FunctionAdded ctx (methodName className name) decl b index b₁)
      (hr : MethodsAdded ctx className rest b₁ methods b₂) :
    MethodsAdded ctx className (decl :: rest) b ((name, index) :: methods) b₂

inductive StmtCode : Context → Stmt → Builder → Code → Builder → Prop
  | block (h : BodyCode ctx body b c b') :
    StmtCode ctx (.node (.block body) range) b (blockCode range c) b'
  | form (hform : ∀ body, form ≠ .block body) (h : FormCode ctx range form b c b') :
    StmtCode ctx (.node form range) b (startStatement ctx.exits range c) b'

inductive BodyCode : Context → List Stmt → Builder → Code → Builder → Prop
  | nil : BodyCode ctx [] b [] b
  | cons (hs : StmtCode ctx stmt b c₁ b₁) (hr : BodyCode ctx rest b₁ c₂ b₂) :
    BodyCode ctx (stmt :: rest) b (c₁ ++ c₂) b₂

inductive FormCode : Context → TokenRange → StmtForm → Builder → Code → Builder → Prop
  | expression (h : ExprCode ctx e b c b') :
    FormCode ctx range (.expression e) b (c ++ one .pop range) b'
  | varDecl (hsome : ∀ e, init = some e → ExprCode ctx e b c b')
      (hnone : init = none → c = b.constantCode .undefined range ∧ b' = b.addConstant .undefined) :
    FormCode ctx range (.varDecl name init) b
      (one (.declare name) range ++ c ++ one (.store name false) range ++ one .pop range) b'
  | ifOnly (ht : ExprCode ctx test (b.addLabels 1) c₁ b₁) (hs : StmtCode ctx thenBranch b₁ c₂ b₂) :
    FormCode ctx range (.ifElse test thenBranch none) b (ifCode b.nextLabel test.range c₁ c₂) b₂
  | ifElse (ht : ExprCode ctx test (b.addLabels 1) c₁ b₁) (hs : StmtCode ctx thenBranch b₁ c₂ b₂)
      (he : StmtCode ctx elseBranch (b₂.addLabels 1) c₃ b₃) :
    FormCode ctx range (.ifElse test thenBranch (some elseBranch)) b
      (ifElseCode b.nextLabel b₂.nextLabel test.range range c₁ c₂ c₃) b₃
  | whileLoop (ht : ExprCode ctx test (b.addLabels 2) c₁ b₁)
      (hs : StmtCode (ctx.inside (.loop b.nextLabel (b.nextLabel + 1))) body b₁ c₂ b₂) :
    FormCode ctx range (.whileLoop test body) b
      (whileCode b.nextLabel (b.nextLabel + 1) test.range range c₁ c₂) b₂
  | forLoop (hisome : ∀ s, init = some s → StmtCode ctx s (b.addLabels 3) c₁ b₁)
      (hinone : init = none → c₁ = [] ∧ b₁ = b.addLabels 3)
      (htsome : ∀ e, test = some e → ExprCode ctx e b₁ c₂ b₂) (htnone : test = none → b₂ = b₁)
      (hs : StmtCode (ctx.inside (.loop (b.nextLabel + 1) (b.nextLabel + 2))) body b₂ c₃ b₃)
      (husome : ∀ e, update = some e → ExprCode ctx e b₃ c₄ b₄) (hunone : update = none → b₄ = b₃) :
    FormCode ctx range (.forLoop init test update body) b
      (forCode b.nextLabel (b.nextLabel + 1) (b.nextLabel + 2) range c₁
        (optionalCode (.jumpFalse (b.nextLabel + 2)) test c₂) c₃ (optionalCode .pop update c₄)) b₄
  | jump (ht : loopTarget? ctx.exits form = some label)
      (hclean : (insideLoop ctx.exits).any ExitScope.needsCleanup = false) :
    FormCode ctx range form b (one (.loopExit (some label)) range) b
  | jumpCrossing (ht : loopTarget? ctx.exits form = some label)
      (hneed : (insideLoop ctx.exits).any ExitScope.needsCleanup = true)
      (hc : CrossCode ctx range (insideLoop ctx.exits) (fromLoop ctx.exits) b c b') :
    FormCode ctx range form b (c ++ one (.loopExit (some label)) range) b'
  | returnValue (hfun : ctx.inFunction = true)
      (hsome : ∀ e, value = some e → ExprCode ctx e b c b')
      (hnone : value = none → c = b.constantCode .undefined range ∧ b' = b.addConstant .undefined)
      (hclean : ctx.exits.any ExitScope.needsCleanup = false) :
    FormCode ctx range (.returnValue value) b (c ++ one .ret range) b'
  | returnCrossing (hfun : ctx.inFunction = true)
      (hsome : ∀ e, value = some e → ExprCode ctx e b c₁ b₁)
      (hnone : value = none → c₁ = b.constantCode .undefined range ∧ b₁ = b.addConstant .undefined)
      (hneed : ctx.exits.any ExitScope.needsCleanup = true)
      (hc : CrossCode ctx range ctx.exits [] b₁ c₂ b₂) :
    FormCode ctx range (.returnValue value) b (returnCode range c₁ c₂) b₂
  | throwValue (h : ExprCode ctx e b c b') :
    FormCode ctx range (.throwValue e) b (c ++ one .throw range) b'
  | tryCatch (hb : BodyCode (ctx.inside (.guarded finalizer)) body (b.addLabels 3) c₁ b₁)
      (hhsome : ∀ binding hbody hrange, handler = some (.mk binding hbody hrange) →
        BodyCode (ctx.inside (.guarded finalizer)) hbody b₁ c₂ b₂)
      (hhnone : handler = none → b₂ = b₁)
      (hrsome : ∀ fbody, finalizer = some fbody → BodyCode (ctx.inside .pendingThrow) fbody b₂ c₃ b₃)
      (hrnone : finalizer = none → b₃ = b₂)
      (hfsome : ∀ fbody, finalizer = some fbody → BodyCode ctx fbody b₃ c₄ b₄)
      (hfnone : finalizer = none → b₄ = b₃) :
    FormCode ctx range (.tryCatch body handler finalizer) b
      (tryCode (if handler.isSome then b.nextLabel else b.nextLabel + 2) (b.nextLabel + 1)
        (b.nextLabel + 2) handler.isSome range c₁
        (handlerCode b.nextLabel (b.nextLabel + 1) (b.nextLabel + 2) handler c₂)
        (finalCode range finalizer c₃) (finalCode range finalizer c₄)) b₄
  | function (hname : decl.name? = some name)
      (hf : FunctionAdded ctx (ctx.resolve name) decl b index b') :
    FormCode ctx range (.function decl) b [] b'
  | classDecl (hm : MethodsAdded ctx name decls b methods b')
      (hc : methods.any (·.1 = constructorName) = true) :
    FormCode ctx range (.classDecl name decls) b [] (b'.addClass ⟨name, methods⟩)
  | classPlain (hm : MethodsAdded ctx name decls b methods b₁)
      (hc : methods.any (·.1 = constructorName) = false)
      (hb : Closes ⟨range.last, range.last⟩ []
        (b₁.reserve (methodName name constructorName) []) c b₂) :
    FormCode ctx range (.classDecl name decls) b []
      ((b₂.fill b₁.functions.size c).addClass
        ⟨name, methods ++ [(constructorName, b₁.functions.size)]⟩)
  | debugger : FormCode ctx range .debugger b (one .debugger range) b
  | empty : FormCode ctx range .empty b [] b

inductive CrossCode : Context → TokenRange → List ExitScope → List ExitScope → Builder → Code →
    Builder → Prop
  | nil : CrossCode ctx range [] outer b [] b
  | loop (h : CrossCode ctx range crossed outer b c b') :
    CrossCode ctx range (.loop next done :: crossed) outer b (one .loopEnd range ++ c) b'
  | pendingThrow (h : CrossCode ctx range crossed outer b c b') :
    CrossCode ctx range (.pendingThrow :: crossed) outer b (one .pop range ++ c) b'
  | guarded (h : CrossCode ctx range crossed outer b c b') :
    CrossCode ctx range (.guarded none :: crossed) outer b (one .leaveTry range ++ c) b'
  | finalizer (hb : BodyCode { ctx with exits := crossed ++ outer } body b c₁ b₁)
      (h : CrossCode ctx range crossed outer b₁ c₂ b₂) :
    CrossCode ctx range (.guarded (some body) :: crossed) outer b
      (one .leaveTry range ++ blockCode range c₁ ++ c₂) b₂

end

end ScriptMachine
