import ScriptMachine.Proofs.Grammar.Phrases

/-!
# The nodes of a tree and where they stand

Statements, expressions, functions and handlers are the nodes of a syntax tree.  Each of them has a
range and other nodes right below it.

* `Node.children`, `Node.blocks`   the nodes below a node, and the lists of statements in braces;
* `Node.Every P n`      `P` holds of `n` and of all nodes below it, at any depth;
* `Tiles i j ranges`    the ranges stand one behind another and fill the tokens from `i` up to `j`;
* `Node.Phrase ts i j n`   the tokens from `i` up to `j` are a phrase that stands for `n`;
* `Node.Placed ts n`    the range of `n` is its phrase, what is below it is inside, in order and apart,
                        and the statements of its blocks fill their braces.
-/

namespace ScriptMachine

/-! ## nodes -/

/-- a part of a syntax tree that has a range of its own -/
inductive Node where
  | expr (e : Expr)
  | stmt (stmt : Stmt)
  | function (decl : FunctionDecl)
  | handler (clause : CatchClause)

namespace Node

def range : Node → TokenRange
  | expr e => e.range
  | stmt s => s.range
  | function decl => decl.range
  | handler (.mk _ _ range) => range

/-- the nodes right below an expression of this form, in the order of their source -/
def ofExprForm : ExprForm → List Node
  | .assign target value => [expr target, expr value]
  | .binary _ left right => [expr left, expr right]
  | .logical _ left right => [expr left, expr right]
  | .unary _ operand => [expr operand]
  | .call callee args => expr callee :: args.map expr
  | .member object _ => [expr object]
  | .index object key => [expr object, expr key]
  | .new _ args => args.map expr
  | .function decl => [function decl]
  | .array elements => elements.map expr
  | _ => []

/-- the nodes right below a statement of this form, in the order of their source -/
def ofStmtForm : StmtForm → List Node
  | .expression e => [expr e]
  | .varDecl _ init => init.toList.map expr
  | .block body => body.map stmt
  | .ifElse test thenBranch elseBranch =>
    expr test :: stmt thenBranch :: elseBranch.toList.map stmt
  | .whileLoop test body => [expr test, stmt body]
  | .forLoop init test update body =>
    init.toList.map stmt ++ (test.toList.map expr ++ (update.toList.map expr ++ [stmt body]))
  | .returnValue value => value.toList.map expr
  | .throwValue value => [expr value]
  | .tryCatch body clause finalizer =>
    body.map stmt ++ (clause.toList.map handler ++ (finalizer.getD []).map stmt)
  | .function decl => [function decl]
  | .classDecl _ methods => methods.map function
  | _ => []

def children : Node → List Node
  | expr e => ofExprForm e.form
  | stmt s => ofStmtForm s.form
  | function decl => decl.body.map stmt
  | handler (.mk _ body _) => body.map stmt

/-- a part that may be missing is a node if it is there -/
theorem mem_of_eq_some {α : Type} {part? : Option α} {part : α} (h : part? = some part)
    (node : α → Node) : node part ∈ part?.toList.map node := by
  rw [h]
  exact List.mem_singleton.mpr rfl

/-- the lists of statements that stand in braces of the node itself -/
def blocks : Node → List (List Stmt)
  | stmt (.node (.block body) _) => [body]
  | stmt (.node (.tryCatch body _ finalizer) _) => body :: finalizer.toList
  | function decl => [decl.body]
  | handler (.mk _ body _) => [body]
  | _ => []

/-- `P` holds of a node and of everything below it -/
inductive Every (P : Node → Prop) : Node → Prop
  | mk (hself : P n) (hbelow : ∀ c ∈ n.children, Every P c) : Every P n

theorem Every.self {P : Node → Prop} {n : Node} (h : Every P n) : P n := by
  cases h with
  | mk hself _ => exact hself

theorem Every.child {P : Node → Prop} {n c : Node} (h : Every P n) (hc : c ∈ n.children) :
    Every P c := by
  cases h with
  | mk _ hbelow => exact hbelow c hc

theorem Every.imp {P Q : Node → Prop} {n : Node} (h : Every P n) (hPQ : ∀ m, P m → Q m) :
    Every Q n := by
  induction h with
  | mk hself _ ih => exact .mk (hPQ _ hself) ih

end Node

/-! ## places -/

/-- ranges that are not empty and fill the tokens from one place up to another one, without gaps -/
inductive Tiles : Nat → Nat → List TokenRange → Prop
  | nil : Tiles i i []
  | cons (hrange : range.first ≤ range.last) (h : Tiles (range.last + 1) j rest) :
    Tiles range.first j (range :: rest)

namespace Node

open Grammar

/-- The tokens from `i` up to `j` are a phrase that stands for the node.  A function may stand behind
the word `function`, with a name or without, or as a method behind its name. -/
def Phrase (ts : List TokenKind) (i j : Nat) : Node → Prop
  | expr e => Expression ts i j e
  | stmt s => (∃ dangling, Statement ts dangling i j s) ∨ Initializer ts i j (some s)
  | function decl =>
    (Word ts i .functionKw ∧ Callable ts i none (i + 1) j decl)
      ∨ (∃ name, Word ts i .functionKw ∧ Name ts (i + 1) name
        ∧ Callable ts i (some name) (i + 2) j decl)
      ∨ ∃ name, Name ts i name ∧ Callable ts i (some name) (i + 1) j decl
  | handler clause => Catch ts i j (some clause)

/-- where a node stands among the tokens, and what is below it -/
structure Placed (ts : List TokenKind) (n : Node) : Prop where
  nonempty : n.range.first ≤ n.range.last
  /-- the range is the phrase of the node -/
  phrase : n.Phrase ts n.range.first (n.range.last + 1)
  inside : ∀ c ∈ n.children, n.range.first ≤ c.range.first ∧ c.range.last ≤ n.range.last
  sorted : n.children.Pairwise fun c d => c.range.last < d.range.first
  /-- the statements of a block fill the tokens between its braces -/
  blocks : ∀ body ∈ n.blocks, ∃ i j, n.range.first ≤ i ∧ j ≤ n.range.last
    ∧ Block ts i (j + 1) body ∧ Tiles (i + 1) j (body.map Stmt.range)

end Node

end ScriptMachine
