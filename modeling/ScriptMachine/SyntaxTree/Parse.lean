import ScriptMachine.SyntaxTree.Cursor

/-!
# From tokens to syntax trees

Every reading function returns the cursor behind what it has read, with a proof that fewer tokens
are ahead, and so the recursion ends.

* `Level`: the levels of binary operators, from the loosest to the tightest;
* `Parse.expression`: assignments, which group to the right, over the binary levels, which group to
  the left, over unary operators, over calls, members and indices;
* `Parse.statement`: one statement;
* `parseProgram`: the statements of a token list.
-/

namespace ScriptMachine

/-! ## binary operators -/

/-- a group of binary operators that bind equally tight -/
inductive Level where
  | or | and | equality | comparison | term | factor
  deriving DecidableEq, Repr

/-- an infix operator, evaluated strictly or not -/
inductive Operator where
  | binary (op : BinaryOp)
  | logical (op : LogicalOp)
  deriving DecidableEq, Repr

namespace Level

/-- all levels, the loosest first -/
def all : List Level := [or, and, equality, comparison, term, factor]

/-- the operator that a symbol stands for on a level -/
def operator? : Level → Symbol → Option Operator
  | or, .orOr => some (.logical .or)
  | and, .andAnd => some (.logical .and)
  | equality, .eq => some (.binary .eq)
  | equality, .notEq => some (.binary .notEq)
  | comparison, .lt => some (.binary .lt)
  | comparison, .ltEq => some (.binary .ltEq)
  | comparison, .gt => some (.binary .gt)
  | comparison, .gtEq => some (.binary .gtEq)
  | term, .plus => some (.binary .add)
  | term, .minus => some (.binary .sub)
  | factor, .star => some (.binary .mul)
  | factor, .slash => some (.binary .div)
  | factor, .percent => some (.binary .mod)
  | _, _ => none

end Level

/-- an operator applied to two sides covers both of them -/
def Operator.apply (op : Operator) (left right : Expr) : Expr :=
  let range := left.range.join right.range
  match op with
  | .binary op => .node (.binary op left right) range
  | .logical op => .node (.logical op left right) range

/-- the operator of a level at the cursor -/
def Cursor.operator? (c : Cursor) (level : Level) : Option (Parsed Operator c.size) :=
  match c.take? with
  | some ⟨.symbol s, next, h⟩ => (level.operator? s).map fun op => ⟨op, next, h⟩
  | _ => none

/-! ## names -/

namespace Parse

/-- names between commas, at least one -/
def names (c : Cursor) : Except ParseError (Parsed (List String) c.size) := do
  let ⟨name, c₁, _⟩ ← c.expectName "for parameter name"
  match c₁.eat? .comma with
  | some ⟨_, c₂, _⟩ =>
    let ⟨more, c₃, _⟩ ← names c₂
    return ⟨name :: more, c₃, by omega⟩
  | none => return ⟨[name], c₁, by omega⟩
termination_by c.size
decreasing_by omega

/-- the parameters of a function and their closing parenthesis -/
def parameters (c : Cursor) : Except ParseError (Parsed (List String) c.size) := do
  if c.atSymbol .rparen then
    let ⟨_, c₁, _⟩ ← c.expect .rparen "after parameters"
    return ⟨[], c₁, by omega⟩
  else
    let ⟨params, c₁, _⟩ ← names c
    let ⟨_, c₂, _⟩ ← c₁.expect .rparen "after parameters"
    return ⟨params, c₂, by omega⟩

/-! ## expressions and statements -/

mutual

/-- an assignment, which groups to the right, or what binds tighter -/
def expression (c : Cursor) : Except ParseError (Parsed Expr c.size) := do
  let ⟨target, c₁, _⟩ ← binary Level.all c
  match c₁.eat? .assign with
  | some ⟨_, c₂, _⟩ =>
    let ⟨value, c₃, _⟩ ← expression c₂
    return ⟨.node (.assign target value) (target.range.join value.range), c₃, by omega⟩
  | none => return ⟨target, c₁, by omega⟩
termination_by c.size * 32 + 10
decreasing_by
  · simp [Level.all]
  · omega

/-- operands of the first level, joined by its operators -/
def binary (levels : List Level) (c : Cursor) : Except ParseError (Parsed Expr c.size) := do
  match levels with
  | [] => unary c
  | level :: tighter =>
    let ⟨left, c₁, _⟩ ← binary tighter c
    let ⟨whole, c₂, _⟩ ← binaryRest level tighter left c₁
    return ⟨whole, c₂, by omega⟩
termination_by c.size * 32 + 3 + levels.length
decreasing_by
  · omega
  all_goals
    rw [List.length_cons]
    omega

/-- operators of a level and their right sides, which group to the left -/
def binaryRest (level : Level) (tighter : List Level) (left : Expr) (c : Cursor) :
    Except ParseError (Parsed Expr (c.size + 1)) := do
  match c.operator? level with
  | some ⟨op, c₁, _⟩ =>
    let ⟨right, c₂, _⟩ ← binary tighter c₁
    let ⟨whole, c₃, _⟩ ← binaryRest level tighter (op.apply left right) c₂
    return ⟨whole, c₃, by omega⟩
  | none => return ⟨left, c, by omega⟩
termination_by c.size * 32 + 3 + tighter.length
decreasing_by all_goals omega

/-- `!` and `-` in front of an operand -/
def unary (c : Cursor) : Except ParseError (Parsed Expr c.size) := do
  match c.take? with
  | some ⟨.symbol .bang, c₁, _⟩ =>
    let ⟨operand, c₂, _⟩ ← unary c₁
    return ⟨.node (.unary .not operand) (c₂.rangeFrom c.index), c₂, by omega⟩
  | some ⟨.symbol .minus, c₁, _⟩ =>
    let ⟨operand, c₂, _⟩ ← unary c₁
    return ⟨.node (.unary .neg operand) (c₂.rangeFrom c.index), c₂, by omega⟩
  | _ =>
    let ⟨first, c₁, _⟩ ← primary c
    let ⟨whole, c₂, _⟩ ← accesses c.index first c₁
    return ⟨whole, c₂, by omega⟩
termination_by c.size * 32 + 2
decreasing_by all_goals omega

/-- the calls, members and indices behind an expression that starts at token `start` -/
def accesses (start : Nat) (expr : Expr) (c : Cursor) :
    Except ParseError (Parsed Expr (c.size + 1)) := do
  match c.take? with
  | some ⟨.symbol .lparen, c₁, _⟩ =>
    let ⟨args, c₂, _⟩ ← elements .rparen "after arguments" c₁
    let call := .node (.call expr args) (c₂.rangeFrom start)
    let ⟨whole, c₃, _⟩ ← accesses start call c₂
    return ⟨whole, c₃, by omega⟩
  | some ⟨.symbol .dot, c₁, _⟩ =>
    let ⟨property, c₂, _⟩ ← c₁.expectName "after '.'"
    let member := .node (.member expr property) (c₂.rangeFrom start)
    let ⟨whole, c₃, _⟩ ← accesses start member c₂
    return ⟨whole, c₃, by omega⟩
  | some ⟨.symbol .lbracket, c₁, _⟩ =>
    let ⟨key, c₂, _⟩ ← expression c₁
    let ⟨_, c₃, _⟩ ← c₂.expect .rbracket "after index"
    let index := .node (.index expr key) (c₃.rangeFrom start)
    let ⟨whole, c₄, _⟩ ← accesses start index c₃
    return ⟨whole, c₄, by omega⟩
  | _ => return ⟨expr, c, by omega⟩
termination_by c.size * 32
decreasing_by all_goals omega

/-- expressions between commas, possibly none, and the symbol that closes them -/
def elements (close : Symbol) (place : String) (c : Cursor) :
    Except ParseError (Parsed (List Expr) c.size) := do
  match c.eat? close with
  | some ⟨_, c₁, _⟩ => return ⟨[], c₁, by omega⟩
  | none =>
    let ⟨list, c₁, _⟩ ← expressions c
    let ⟨_, c₂, _⟩ ← c₁.expect close place
    return ⟨list, c₂, by omega⟩
termination_by c.size * 32 + 12
decreasing_by all_goals omega

/-- expressions between commas, at least one -/
def expressions (c : Cursor) : Except ParseError (Parsed (List Expr) c.size) := do
  let ⟨expr, c₁, _⟩ ← expression c
  match c₁.eat? .comma with
  | some ⟨_, c₂, _⟩ =>
    let ⟨more, c₃, _⟩ ← expressions c₂
    return ⟨expr :: more, c₃, by omega⟩
  | none => return ⟨[expr], c₁, by omega⟩
termination_by c.size * 32 + 11
decreasing_by all_goals omega

/-- literals, names and everything in brackets; a parenthesised expression covers its
parentheses -/
def primary (c : Cursor) : Except ParseError (Parsed Expr c.size) := do
  let leaf (form : ExprForm) (c₁ : Cursor) : Expr := .node form (c₁.rangeFrom c.index)
  match c.take? with
  | some ⟨.number x, c₁, _⟩ => return ⟨leaf (.number x) c₁, c₁, by omega⟩
  | some ⟨.string s, c₁, _⟩ => return ⟨leaf (.string s) c₁, c₁, by omega⟩
  | some ⟨.ident name, c₁, _⟩ => return ⟨leaf (.variable name) c₁, c₁, by omega⟩
  | some ⟨.keyword .trueKw, c₁, _⟩ => return ⟨leaf (.bool true) c₁, c₁, by omega⟩
  | some ⟨.keyword .falseKw, c₁, _⟩ => return ⟨leaf (.bool false) c₁, c₁, by omega⟩
  | some ⟨.keyword .nullKw, c₁, _⟩ => return ⟨leaf .null c₁, c₁, by omega⟩
  | some ⟨.keyword .undefinedKw, c₁, _⟩ => return ⟨leaf .undefined c₁, c₁, by omega⟩
  | some ⟨.keyword .thisKw, c₁, _⟩ => return ⟨leaf .this c₁, c₁, by omega⟩
  | some ⟨.symbol .lparen, c₁, _⟩ =>
    let ⟨inner, c₂, _⟩ ← expression c₁
    let ⟨_, c₃, _⟩ ← c₂.expect .rparen "after expression"
    return ⟨leaf inner.form c₃, c₃, by omega⟩
  | some ⟨.symbol .lbracket, c₁, _⟩ =>
    let ⟨list, c₂, _⟩ ← elements .rbracket "after array elements" c₁
    return ⟨leaf (.array list) c₂, c₂, by omega⟩
  | some ⟨.keyword .functionKw, c₁, _⟩ =>
    let ⟨decl, c₂, _⟩ ← functionRest c.index false c₁
    return ⟨leaf (.function decl) c₂, c₂, by omega⟩
  | some ⟨.keyword .newKw, c₁, _⟩ =>
    let ⟨className, c₂, _⟩ ← c₁.expectName "after 'new'"
    let ⟨_, c₃, _⟩ ← c₂.expect .lparen "after class name"
    let ⟨args, c₄, _⟩ ← elements .rparen "after arguments" c₃
    return ⟨leaf (.new className args) c₄, c₄, by omega⟩
  | _ => throw (c.error .expression)
termination_by c.size * 32 + 1
decreasing_by all_goals omega

/-- a function from its name on; the declaration starts at token `start` -/
def functionRest (start : Nat) (nameRequired : Bool) (c : Cursor) :
    Except ParseError (Parsed FunctionDecl c.size) := do
  match c.take? with
  | some ⟨.ident name, c₁, _⟩ =>
    let ⟨_, c₂, _⟩ ← c₁.expect .lparen "after function name"
    let ⟨params, c₃, _⟩ ← parameters c₂
    let ⟨body, c₄, _⟩ ← block c₃
    return ⟨.mk (some name) params body (c₄.rangeFrom start), c₄, by omega⟩
  | _ =>
    if nameRequired then throw (c.error .functionName)
    let ⟨_, c₁, _⟩ ← c.expect .lparen "after function name"
    let ⟨params, c₂, _⟩ ← parameters c₁
    let ⟨body, c₃, _⟩ ← block c₂
    return ⟨.mk none params body (c₃.rangeFrom start), c₃, by omega⟩
termination_by c.size * 32
decreasing_by all_goals omega

/-- statements between braces -/
def block (c : Cursor) : Except ParseError (Parsed (List Stmt) c.size) := do
  let ⟨_, c₁, _⟩ ← c.expect .lbrace "to open block"
  let ⟨body, c₂, _⟩ ← blockRest c₁
  return ⟨body, c₂, by omega⟩
termination_by c.size * 32
decreasing_by all_goals omega

/-- the statements up to a closing brace -/
def blockRest (c : Cursor) : Except ParseError (Parsed (List Stmt) c.size) := do
  match c.eat? .rbrace with
  | some ⟨_, c₁, _⟩ => return ⟨[], c₁, by omega⟩
  | none =>
    if c.atEnd then throw (c.error (.symbol .rbrace "to close block"))
    let ⟨stmt, c₁, _⟩ ← statement c
    let ⟨more, c₂, _⟩ ← blockRest c₁
    return ⟨stmt :: more, c₂, by omega⟩
termination_by c.size * 32 + 14
decreasing_by all_goals omega

/-- the methods up to a closing brace -/
def methods (c : Cursor) : Except ParseError (Parsed (List FunctionDecl) c.size) := do
  match c.eat? .rbrace with
  | some ⟨_, c₁, _⟩ => return ⟨[], c₁, by omega⟩
  | none =>
    if c.atEnd then throw (c.error (.symbol .rbrace "to close class body"))
    let ⟨method, c₁, _⟩ ← functionRest c.index true c
    let ⟨more, c₂, _⟩ ← methods c₁
    return ⟨method :: more, c₂, by omega⟩
termination_by c.size * 32 + 1
decreasing_by all_goals omega

def statement (c : Cursor) : Except ParseError (Parsed Stmt c.size) := do
  match c.take? with
  | some ⟨.keyword .varKw, c₁, _⟩ =>
    let ⟨stmt, c₂, _⟩ ← varDeclaration c.index c₁
    return ⟨stmt, c₂, by omega⟩
  | some ⟨.keyword .letKw, c₁, _⟩ =>
    let ⟨stmt, c₂, _⟩ ← varDeclaration c.index c₁
    return ⟨stmt, c₂, by omega⟩
  | some ⟨.keyword .constKw, c₁, _⟩ =>
    let ⟨stmt, c₂, _⟩ ← varDeclaration c.index c₁
    return ⟨stmt, c₂, by omega⟩
  | some ⟨.keyword .functionKw, c₁, _⟩ =>
    match c₁.peek? with
    | some (.ident _) =>
      let ⟨decl, c₂, _⟩ ← functionRest c.index true c₁
      return ⟨.node (.function decl) (c₂.rangeFrom c.index), c₂, by omega⟩
    | _ => expressionStatement "after expression" c
  | some ⟨.keyword .classKw, c₁, _⟩ =>
    let ⟨name, c₂, _⟩ ← c₁.expectName "after 'class'"
    let ⟨_, c₃, _⟩ ← c₂.expect .lbrace "before class body"
    let ⟨list, c₄, _⟩ ← methods c₃
    return ⟨.node (.classDecl name list) (c₄.rangeFrom c.index), c₄, by omega⟩
  | some ⟨.keyword .ifKw, c₁, _⟩ =>
    let ⟨_, c₂, _⟩ ← c₁.expect .lparen "after 'if'"
    let ⟨condition, c₃, _⟩ ← expression c₂
    let ⟨_, c₄, _⟩ ← c₃.expect .rparen "after if condition"
    let ⟨thenBranch, c₅, _⟩ ← statement c₄
    match c₅.eatWord? .elseKw with
    | some ⟨_, c₆, _⟩ =>
      let ⟨elseBranch, c₇, _⟩ ← statement c₆
      return ⟨.node (.ifElse condition thenBranch (some elseBranch)) (c₇.rangeFrom c.index), c₇,
        by omega⟩
    | none =>
      return ⟨.node (.ifElse condition thenBranch none) (c₅.rangeFrom c.index), c₅, by omega⟩
  | some ⟨.keyword .whileKw, c₁, _⟩ =>
    let ⟨_, c₂, _⟩ ← c₁.expect .lparen "after 'while'"
    let ⟨condition, c₃, _⟩ ← expression c₂
    let ⟨_, c₄, _⟩ ← c₃.expect .rparen "after while condition"
    let ⟨body, c₅, _⟩ ← statement c₄
    return ⟨.node (.whileLoop condition body) (c₅.rangeFrom c.index), c₅, by omega⟩
  | some ⟨.keyword .forKw, c₁, _⟩ =>
    let ⟨_, c₂, _⟩ ← c₁.expect .lparen "after 'for'"
    let ⟨init, c₃, _⟩ ← forInit c₂
    let ⟨condition, c₄, _⟩ ← clause .semicolon "after for condition" c₃
    let ⟨update, c₅, _⟩ ← clause .rparen "after for clauses" c₄
    let ⟨body, c₆, _⟩ ← statement c₅
    return ⟨.node (.forLoop init condition update body) (c₆.rangeFrom c.index), c₆, by omega⟩
  | some ⟨.keyword .breakKw, c₁, _⟩ =>
    let ⟨_, c₂, _⟩ ← c₁.expect .semicolon "after 'break'"
    return ⟨.node .breakLoop (c₂.rangeFrom c.index), c₂, by omega⟩
  | some ⟨.keyword .continueKw, c₁, _⟩ =>
    let ⟨_, c₂, _⟩ ← c₁.expect .semicolon "after 'continue'"
    return ⟨.node .continueLoop (c₂.rangeFrom c.index), c₂, by omega⟩
  | some ⟨.keyword .returnKw, c₁, _⟩ =>
    let ⟨value, c₂, _⟩ ← clause .semicolon "after return value" c₁
    return ⟨.node (.returnValue value) (c₂.rangeFrom c.index), c₂, by omega⟩
  | some ⟨.keyword .throwKw, c₁, _⟩ =>
    let ⟨value, c₂, _⟩ ← expression c₁
    let ⟨_, c₃, _⟩ ← c₂.expect .semicolon "after thrown value"
    return ⟨.node (.throwValue value) (c₃.rangeFrom c.index), c₃, by omega⟩
  | some ⟨.keyword .tryKw, c₁, _⟩ =>
    let ⟨body, c₂, _⟩ ← block c₁
    let ⟨handler, c₃, _⟩ ← catchClause c₂
    let ⟨finalizer, c₄, _⟩ ← finallyClause c₃
    if handler.isNone && finalizer.isNone then throw (c₄.error .handler)
    return ⟨.node (.tryCatch body handler finalizer) (c₄.rangeFrom c.index), c₄, by omega⟩
  | some ⟨.keyword .debuggerKw, c₁, _⟩ =>
    let ⟨_, c₂, _⟩ ← c₁.expect .semicolon "after 'debugger'"
    return ⟨.node .debugger (c₂.rangeFrom c.index), c₂, by omega⟩
  | some ⟨.symbol .lbrace, _, _⟩ =>
    let ⟨body, c₁, _⟩ ← block c
    return ⟨.node (.block body) (c₁.rangeFrom c.index), c₁, by omega⟩
  | some ⟨.symbol .semicolon, c₁, _⟩ =>
    return ⟨.node .empty (c₁.rangeFrom c.index), c₁, by omega⟩
  | _ => expressionStatement "after expression" c
termination_by c.size * 32 + 13
decreasing_by all_goals omega

/-- an expression and its semicolon -/
def expressionStatement (place : String) (c : Cursor) :
    Except ParseError (Parsed Stmt c.size) := do
  let ⟨expr, c₁, _⟩ ← expression c
  let ⟨_, c₂, _⟩ ← c₁.expect .semicolon place
  return ⟨.node (.expression expr) (c₂.rangeFrom c.index), c₂, by omega⟩
termination_by c.size * 32 + 12
decreasing_by all_goals omega

/-- a declaration behind its first word, which is token `start` -/
def varDeclaration (start : Nat) (c : Cursor) : Except ParseError (Parsed Stmt c.size) := do
  let ⟨name, c₁, _⟩ ← c.expectName "after 'var'"
  match c₁.eat? .assign with
  | some ⟨_, c₂, _⟩ =>
    let ⟨init, c₃, _⟩ ← expression c₂
    let ⟨_, c₄, _⟩ ← c₃.expect .semicolon "after variable declaration"
    return ⟨.node (.varDecl name (some init)) (c₄.rangeFrom start), c₄, by omega⟩
  | none =>
    let ⟨_, c₂, _⟩ ← c₁.expect .semicolon "after variable declaration"
    return ⟨.node (.varDecl name none) (c₂.rangeFrom start), c₂, by omega⟩
termination_by c.size * 32
decreasing_by all_goals omega

/-- the first part of a `for`, with its semicolon -/
def forInit (c : Cursor) : Except ParseError (Parsed (Option Stmt) c.size) := do
  match c.take? with
  | some ⟨.symbol .semicolon, c₁, _⟩ => return ⟨none, c₁, by omega⟩
  | some ⟨.keyword .varKw, c₁, _⟩ =>
    let ⟨stmt, c₂, _⟩ ← varDeclaration c.index c₁
    return ⟨some stmt, c₂, by omega⟩
  | some ⟨.keyword .letKw, c₁, _⟩ =>
    let ⟨stmt, c₂, _⟩ ← varDeclaration c.index c₁
    return ⟨some stmt, c₂, by omega⟩
  | some ⟨.keyword .constKw, c₁, _⟩ =>
    let ⟨stmt, c₂, _⟩ ← varDeclaration c.index c₁
    return ⟨some stmt, c₂, by omega⟩
  | _ =>
    let ⟨stmt, c₁, _⟩ ← expressionStatement "after for initializer" c
    return ⟨some stmt, c₁, by omega⟩
termination_by c.size * 32 + 13
decreasing_by all_goals omega

/-- an expression that may be left out, and the symbol that closes it -/
def clause (close : Symbol) (place : String) (c : Cursor) :
    Except ParseError (Parsed (Option Expr) c.size) := do
  match c.eat? close with
  | some ⟨_, c₁, _⟩ => return ⟨none, c₁, by omega⟩
  | none =>
    let ⟨expr, c₁, _⟩ ← expression c
    let ⟨_, c₂, _⟩ ← c₁.expect close place
    return ⟨some expr, c₂, by omega⟩
termination_by c.size * 32 + 11
decreasing_by all_goals omega

/-- the `catch` of a `try`, which may be left out -/
def catchClause (c : Cursor) :
    Except ParseError (Parsed (Option CatchClause) (c.size + 1)) := do
  match c.eatWord? .catchKw with
  | none => return ⟨none, c, by omega⟩
  | some ⟨_, c₁, _⟩ =>
    match c₁.eat? .lparen with
    | some ⟨_, c₂, _⟩ =>
      let ⟨name, c₃, _⟩ ← c₂.expectName "for catch binding"
      let ⟨_, c₄, _⟩ ← c₃.expect .rparen "after catch binding"
      let ⟨body, c₅, _⟩ ← block c₄
      return ⟨some (.mk (some name) body (c₅.rangeFrom c.index)), c₅, by omega⟩
    | none =>
      let ⟨body, c₂, _⟩ ← block c₁
      return ⟨some (.mk none body (c₂.rangeFrom c.index)), c₂, by omega⟩
termination_by c.size * 32
decreasing_by all_goals omega

/-- the `finally` of a `try`, which may be left out -/
def finallyClause (c : Cursor) :
    Except ParseError (Parsed (Option (List Stmt)) (c.size + 1)) := do
  match c.eatWord? .finallyKw with
  | none => return ⟨none, c, by omega⟩
  | some ⟨_, c₁, _⟩ =>
    let ⟨body, c₂, _⟩ ← block c₁
    return ⟨some body, c₂, by omega⟩
termination_by c.size * 32
decreasing_by all_goals omega

end

/-- statements up to the end of the input -/
def program (c : Cursor) : Except ParseError (List Stmt) := do
  if c.atEnd then return []
  let ⟨stmt, c₁, _⟩ ← statement c
  let more ← program c₁
  return stmt :: more
termination_by c.size
decreasing_by omega

end Parse

/-- the program that a token list spells -/
def parseProgram (tokens : List Token) : Except ParseError (List Stmt) :=
  Parse.program (Cursor.start tokens)

/-- the expression at the front of a token list, whatever follows it -/
def parseExpression (tokens : List Token) : Except ParseError Expr :=
  (Parse.expression (Cursor.start tokens)).map Parsed.value

end ScriptMachine
