import ScriptMachine.Proofs.Grammar.Tiling

/-!
# Well-formed programs

What a tree of statements must be like so that it means something.  The code of finalizers that jumps
run on their way plays no part in it: every statement is looked at once, where it stands.

* `ExprForm.isTarget`           what can stand to the left of `=`;
* `Stmt.WellFormed loop func`   a statement, inside a loop of its function or not, inside a function or
                                not;
* `Node.Named`                  what is declared has a name;
* `Grammar.Statements.named`    in a tree that was read it always has one.
-/

namespace ScriptMachine

/-! ## statements and expressions -/

/-- variables, properties and indexed elements -/
def ExprForm.isTarget : ExprForm → Bool
  | .variable _ => true
  | .member _ _ => true
  | .index _ _ => true
  | _ => false

mutual

def Expr.WellFormed : Expr → Prop
  | .node form _ => form.WellFormed

/-- assignments go to targets, and calls have at most 255 arguments -/
def ExprForm.WellFormed : ExprForm → Prop
  | .assign target value => target.form.isTarget = true ∧ target.WellFormed ∧ value.WellFormed
  | .binary _ left right => left.WellFormed ∧ right.WellFormed
  | .logical _ left right => left.WellFormed ∧ right.WellFormed
  | .unary _ operand => operand.WellFormed
  | .call callee args => args.length ≤ 255 ∧ callee.WellFormed ∧ Expr.AllWellFormed args
  | .member object _ => object.WellFormed
  | .index object key => object.WellFormed ∧ key.WellFormed
  | .new _ args => args.length ≤ 255 ∧ Expr.AllWellFormed args
  | .function decl => decl.WellFormed
  | .array elements => Expr.AllWellFormed elements
  | _ => True

def Expr.AllWellFormed : List Expr → Prop
  | [] => True
  | e :: rest => e.WellFormed ∧ Expr.AllWellFormed rest

def Expr.OptionWellFormed : Option Expr → Prop
  | none => True
  | some e => e.WellFormed

/-- a statement, inside the body of a loop of the same function or not, inside a function or not -/
def Stmt.WellFormed (loop func : Bool) : Stmt → Prop
  | .node form _ => form.WellFormed loop func

/-- `break` and `continue` stand inside the body of a loop of their function, `return` stands inside
a function -/
def StmtForm.WellFormed (loop func : Bool) : StmtForm → Prop
  | .expression e => e.WellFormed
  | .varDecl _ init => Expr.OptionWellFormed init
  | .block body => Stmt.AllWellFormed loop func body
  | .ifElse test thenBranch elseBranch =>
    test.WellFormed ∧ thenBranch.WellFormed loop func ∧ Stmt.OptionWellFormed loop func elseBranch
  | .whileLoop test body => test.WellFormed ∧ body.WellFormed true func
  | .forLoop init test update body =>
    Stmt.OptionWellFormed loop func init ∧ Expr.OptionWellFormed test
      ∧ body.WellFormed true func ∧ Expr.OptionWellFormed update
  | .breakLoop => loop = true
  | .continueLoop => loop = true
  | .returnValue value => func = true ∧ Expr.OptionWellFormed value
  | .throwValue value => value.WellFormed
  | .tryCatch body handler finalizer =>
    Stmt.AllWellFormed loop func body ∧ CatchClause.OptionWellFormed loop func handler
      ∧ Stmt.BodyWellFormed loop func finalizer
  | .function decl => decl.WellFormed
  | .classDecl _ methods => FunctionDecl.AllWellFormed methods
  | _ => True

def Stmt.AllWellFormed (loop func : Bool) : List Stmt → Prop
  | [] => True
  | stmt :: rest => stmt.WellFormed loop func ∧ Stmt.AllWellFormed loop func rest

def Stmt.OptionWellFormed (loop func : Bool) : Option Stmt → Prop
  | none => True
  | some stmt => stmt.WellFormed loop func

def Stmt.BodyWellFormed (loop func : Bool) : Option (List Stmt) → Prop
  | none => True
  | some body => Stmt.AllWellFormed loop func body

def CatchClause.OptionWellFormed (loop func : Bool) : Option CatchClause → Prop
  | none => True
  | some (.mk _ body _) => Stmt.AllWellFormed loop func body

/-- A function has at most 127 parameters.  No loop around it counts for its body. -/
def FunctionDecl.WellFormed : FunctionDecl → Prop
  | .mk _ params body _ => params.length ≤ 127 ∧ Stmt.AllWellFormed false true body

def FunctionDecl.AllWellFormed : List FunctionDecl → Prop
  | [] => True
  | decl :: rest => decl.WellFormed ∧ FunctionDecl.AllWellFormed rest

end

/-! ## names of declarations -/

/-- a declared function has a name, and so has every method of a class -/
def Node.Named : Node → Prop
  | .stmt (.node (.function decl) _) => decl.name?.isSome = true
  | .stmt (.node (.classDecl _ methods) _) => ∀ method ∈ methods, method.name?.isSome = true
  | _ => True

namespace Grammar

section
variable {ts : List TokenKind} {i j : Nat}

theorem Callable.named {start : Nat} {name : String} {decl : FunctionDecl}
    (h : Callable ts start (some name) i j decl) : decl.name?.isSome = true := by
  cases h
  rfl

theorem Methods.named {methods : List FunctionDecl} (h : Methods ts i j methods) :
    ∀ method ∈ methods, method.name?.isSome = true := by
  induction methods generalizing i with
  | nil => exact nofun
  | cons decl rest ih =>
    cases h with
    | cons hn h hr =>
      intro method hmethod
      rcases List.mem_cons.mp hmethod with rfl | hmethod
      · exact h.named
      · exact ih hr method hmethod

theorem Declaration.named {stmt : Stmt} (h : Declaration ts i j stmt) : (Node.stmt stmt).Named := by
  cases h <;> trivial

theorem Statement.named {dangling : Bool} {stmt : Stmt} (h : Statement ts dangling i j stmt) :
    (Node.stmt stmt).Named := by
  cases h with
  | varDecl h => exact h.named
  | function hw hn h => exact h.named
  | classDecl hw hn hl h hr => exact h.named
  | _ => trivial

theorem Initializer.named {stmt : Stmt} (h : Initializer ts i j (some stmt)) :
    (Node.stmt stmt).Named := by
  cases h with
  | varDecl h => exact h.named
  | expression _ _ => trivial

/-- a node in its place has its names -/
theorem named_of_placed {n : Node} (h : n.Placed ts) : n.Named := by
  cases n with
  | stmt s =>
    rcases h.phrase with ⟨dangling, hphrase⟩ | hphrase
    · exact hphrase.named
    · exact hphrase.named
  | expr e => trivial
  | function decl => trivial
  | handler clause => trivial

/-- in statements that were read every declaration has its name -/
theorem Statements.named {body : List Stmt} (h : Statements ts i j body) :
    ∀ stmt ∈ body, (Node.stmt stmt).Every Node.Named := by
  intro stmt hstmt
  have hplaced := h.laid.placed (.stmt stmt) (List.mem_map_of_mem hstmt)
  exact hplaced.imp fun _ => named_of_placed

end

end Grammar

end ScriptMachine
