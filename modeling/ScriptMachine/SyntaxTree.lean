/-!
# Syntax trees

A program is a list of statements.  Every node knows the tokens that it was read from.

* `TokenRange`: the indices of a node's first and last token;
* `Expr`, `Stmt`: a form with its range;
* `FunctionDecl`, `CatchClause`: what function forms and `try` are made of.
-/

namespace ScriptMachine

/-- the indices of a first and a last token, both included -/
structure TokenRange where
  first : Nat
  last : Nat
  deriving DecidableEq, Repr

/-- the least range that covers both -/
def TokenRange.join (a b : TokenRange) : TokenRange := ⟨min a.first b.first, max a.last b.last⟩

inductive BinaryOp where
  | add | sub | mul | div | mod | eq | notEq | lt | ltEq | gt | gtEq
  deriving DecidableEq, Repr

/-- the operators that may leave their right side unevaluated -/
inductive LogicalOp where
  | and | or
  deriving DecidableEq, Repr

inductive UnaryOp where
  | neg | not
  deriving DecidableEq, Repr

mutual

inductive Expr where
  | node (form : ExprForm) (range : TokenRange)

inductive ExprForm where
  | number (value : Float)
  | string (value : String)
  | bool (value : Bool)
  | null
  | undefined
  | variable (name : String)
  | this
  /-- any expression may stand on the left here -/
  | assign (target value : Expr)
  | binary (op : BinaryOp) (left right : Expr)
  | logical (op : LogicalOp) (left right : Expr)
  | unary (op : UnaryOp) (operand : Expr)
  | call (callee : Expr) (args : List Expr)
  | member (object : Expr) (property : String)
  | index (object key : Expr)
  | new (className : String) (args : List Expr)
  | function (decl : FunctionDecl)
  | array (elements : List Expr)

inductive Stmt where
  | node (form : StmtForm) (range : TokenRange)

inductive StmtForm where
  | expression (expr : Expr)
  | varDecl (name : String) (init : Option Expr)
  | block (body : List Stmt)
  | ifElse (condition : Expr) (thenBranch : Stmt) (elseBranch : Option Stmt)
  | whileLoop (condition : Expr) (body : Stmt)
  | forLoop (init : Option Stmt) (condition update : Option Expr) (body : Stmt)
  | breakLoop
  | continueLoop
  | returnValue (value : Option Expr)
  | throwValue (value : Expr)
  | tryCatch (body : List Stmt) (handler : Option CatchClause) (finalizer : Option (List Stmt))
  | function (decl : FunctionDecl)
  | classDecl (name : String) (methods : List FunctionDecl)
  | debugger
  | empty

/-- what a `try` does with a thrown value, which has a name or is dropped -/
inductive CatchClause where
  | mk (binding : Option String) (body : List Stmt) (range : TokenRange)

/-- a function or a method; only function expressions may have no name -/
inductive FunctionDecl where
  | mk (name : Option String) (params : List String) (body : List Stmt) (range : TokenRange)

end

def Expr.range : Expr → TokenRange
  | .node _ range => range

def Expr.form : Expr → ExprForm
  | .node form _ => form

def Stmt.range : Stmt → TokenRange
  | .node _ range => range

def Stmt.form : Stmt → StmtForm
  | .node form _ => form

namespace FunctionDecl

def name? : FunctionDecl → Option String
  | mk name _ _ _ => name

def params : FunctionDecl → List String
  | mk _ params _ _ => params

def body : FunctionDecl → List Stmt
  | mk _ _ body _ => body

def range : FunctionDecl → TokenRange
  | mk _ _ _ range => range

/-- the same function without its name -/
def anonymous : FunctionDecl → FunctionDecl
  | mk _ params body range => mk none params body range

end FunctionDecl

/-- Top-level functions and the methods of top-level classes lose their names. -/
def Stmt.anonymous : Stmt → Stmt
  | .node (.function decl) range => .node (.function decl.anonymous) range
  | .node (.classDecl name methods) range =>
    .node (.classDecl name (methods.map FunctionDecl.anonymous)) range
  | stmt => stmt

end ScriptMachine
