import ScriptMachine.SyntaxTree
import ScriptMachine.Token

/-!
# The grammar of programs

A phrase is a part of a token list: the tokens from one place up to another one, which is not part
of it.  The grammar says what is a phrase of which kind, and which tree it stands for.  Of the tokens
it looks at the kinds only.  The range of a node is its phrase, parentheses and semicolons included.

* `Operates n s form`       the symbol `s` is an operator that binds with strength `n`;
* `Expression`, `Joined`, `Signed`, `Chain`, `Primary`   expressions, from the loosest to the tightest;
* `Listed`, `Clause`, `Block`, `Callable`, `Methods`   the parts of other phrases;
* `Statement dangling`      statements; `dangling` ones end in an `if` without `else`, so that an
                            `else` behind them would be their own;
* `Statements`              statements one after another, and so programs.
-/

namespace ScriptMachine.Grammar

/-! ## tokens -/

section
variable (ts : List TokenKind)

/-- the token at `i` is a symbol -/
abbrev Sym (i : Nat) (s : Symbol) : Prop := ts[i]? = some (.symbol s)

/-- the token at `i` is a reserved word -/
abbrev Word (i : Nat) (w : Keyword) : Prop := ts[i]? = some (.keyword w)

/-- the token at `i` is a name -/
abbrev Name (i : Nat) (name : String) : Prop := ts[i]? = some (.ident name)

end

/-- the tokens from `i` up to `j`, as a range -/
def span (i j : Nat) : TokenRange := ⟨i, j - 1⟩

/-! ## operators -/

/-- the infix operators with their strength; those of one strength group to the left -/
inductive Operates : Nat → Symbol → (Expr → Expr → ExprForm) → Prop
  | or : Operates 0 .orOr (.logical .or)
  | and : Operates 1 .andAnd (.logical .and)
  | eq : Operates 2 .eq (.binary .eq)
  | notEq : Operates 2 .notEq (.binary .notEq)
  | lt : Operates 3 .lt (.binary .lt)
  | ltEq : Operates 3 .ltEq (.binary .ltEq)
  | gt : Operates 3 .gt (.binary .gt)
  | gtEq : Operates 3 .gtEq (.binary .gtEq)
  | add : Operates 4 .plus (.binary .add)
  | sub : Operates 4 .minus (.binary .sub)
  | mul : Operates 5 .star (.binary .mul)
  | div : Operates 5 .slash (.binary .div)
  | mod : Operates 5 .percent (.binary .mod)

/-! ## parameters -/

section
variable (ts : List TokenKind)

/-- names between commas, at least one -/
inductive Names : Nat → Nat → List String → Prop
  | one (hn : Name ts i name) : Names i (i + 1) [name]
  | more (hn : Name ts i name) (hc : Sym ts (i + 1) .comma) (h : Names (i + 2) j names) :
    Names i j (name :: names)

/-- the parameters of a function, with the parenthesis behind them -/
inductive Parameters : Nat → Nat → List String → Prop
  | none (hr : Sym ts i .rparen) : Parameters i (i + 1) []
  | some (h : Names ts i m names) (hr : Sym ts m .rparen) : Parameters i (m + 1) names

/-! ## expressions and statements -/

mutual

/-- an assignment, which groups to the right and takes whatever stands on its left, or what binds
tighter -/
inductive Expression : Nat → Nat → Expr → Prop
  | joined (h : Joined 0 i j e) : Expression i j e
  | assign (ht : Joined 0 i m target) (hs : Sym ts m .assign) (hv : Expression (m + 1) j value) :
    Expression i j (.node (.assign target value) (span i j))

/-- operands joined by operators of a strength or a greater one; there are six strengths -/
inductive Joined : Nat → Nat → Nat → Expr → Prop
  | signed (h : Signed i j e) : Joined 6 i j e
  | tighter (h : Joined (n + 1) i j e) : Joined n i j e
  | join (hl : Joined n i m left) (hs : Sym ts m s) (ho : Operates n s form)
      (hr : Joined (n + 1) (m + 1) j right) :
    Joined n i j (.node (form left right) (span i j))

/-- an operand with the signs in front of it -/
inductive Signed : Nat → Nat → Expr → Prop
  | chain (h : Chain i j e) : Signed i j e
  | not (hs : Sym ts i .bang) (h : Signed (i + 1) j e) :
    Signed i j (.node (.unary .not e) (span i j))
  | neg (hs : Sym ts i .minus) (h : Signed (i + 1) j e) :
    Signed i j (.node (.unary .neg e) (span i j))

/-- calls, members and indices, one behind another -/
inductive Chain : Nat → Nat → Expr → Prop
  | primary (h : Primary i j e) : Chain i j e
  | call (h : Chain i m e) (hl : Sym ts m .lparen) (ha : Listed .rparen (m + 1) j args) :
    Chain i j (.node (.call e args) (span i j))
  | member (h : Chain i m e) (hd : Sym ts m .dot) (hn : Name ts (m + 1) name) :
    Chain i (m + 2) (.node (.member e name) (span i (m + 2)))
  | index (h : Chain i m e) (hl : Sym ts m .lbracket) (hk : Expression (m + 1) j key)
      (hr : Sym ts j .rbracket) :
    Chain i (j + 1) (.node (.index e key) (span i (j + 1)))

/-- literals, names and what stands in brackets -/
inductive Primary : Nat → Nat → Expr → Prop
  | number (h : ts[i]? = some (.number x)) : Primary i (i + 1) (.node (.number x) (span i (i + 1)))
  | string (h : ts[i]? = some (.string s)) : Primary i (i + 1) (.node (.string s) (span i (i + 1)))
  | name (h : Name ts i name) : Primary i (i + 1) (.node (.variable name) (span i (i + 1)))
  | true (h : Word ts i .trueKw) : Primary i (i + 1) (.node (.bool true) (span i (i + 1)))
  | false (h : Word ts i .falseKw) : Primary i (i + 1) (.node (.bool false) (span i (i + 1)))
  | null (h : Word ts i .nullKw) : Primary i (i + 1) (.node .null (span i (i + 1)))
  | undefined (h : Word ts i .undefinedKw) : Primary i (i + 1) (.node .undefined (span i (i + 1)))
  | this (h : Word ts i .thisKw) : Primary i (i + 1) (.node .this (span i (i + 1)))
  | parens (hl : Sym ts i .lparen) (h : Expression (i + 1) j e) (hr : Sym ts j .rparen) :
    Primary i (j + 1) (.node e.form (span i (j + 1)))
  | array (hl : Sym ts i .lbracket) (h : Listed .rbracket (i + 1) j elements) :
    Primary i j (.node (.array elements) (span i j))
  | anonymous (hw : Word ts i .functionKw) (h : Callable i Option.none (i + 1) j decl) :
    Primary i j (.node (.function decl) (span i j))
  | named (hw : Word ts i .functionKw) (hn : Name ts (i + 1) name)
      (h : Callable i (Option.some name) (i + 2) j decl) :
    Primary i j (.node (.function decl) (span i j))
  | new (hw : Word ts i .newKw) (hn : Name ts (i + 1) className) (hl : Sym ts (i + 2) .lparen)
      (ha : Listed .rparen (i + 3) j args) :
    Primary i j (.node (.new className args) (span i j))

/-- expressions between commas, possibly none, and the symbol that closes them -/
inductive Listed : Symbol → Nat → Nat → List Expr → Prop
  | none (hc : Sym ts i close) : Listed close i (i + 1) []
  | some (h : Several i m es) (hc : Sym ts m close) : Listed close i (m + 1) es

/-- expressions between commas, at least one -/
inductive Several : Nat → Nat → List Expr → Prop
  | one (h : Expression i j e) : Several i j [e]
  | more (h : Expression i m e) (hc : Sym ts m .comma) (hr : Several (m + 1) j es) :
    Several i j (e :: es)

/-- an expression that may be left out, and the symbol that closes it -/
inductive Clause : Symbol → Nat → Nat → Option Expr → Prop
  | none (hc : Sym ts i close) : Clause close i (i + 1) none
  | some (h : Expression i m e) (hc : Sym ts m close) : Clause close i (m + 1) (some e)

/-- the parameters and the body of a function that starts at `start`, where its name may stand -/
inductive Callable : Nat → Option String → Nat → Nat → FunctionDecl → Prop
  | mk (hl : Sym ts i .lparen) (hp : Parameters ts (i + 1) m params) (hb : Block m j body) :
    Callable start name i j (.mk name params body (span start j))

/-- functions that have a name and no word in front of it, one behind another -/
inductive Methods : Nat → Nat → List FunctionDecl → Prop
  | nil : Methods i i []
  | cons (hn : Name ts i name) (h : Callable i (some name) (i + 1) m decl)
      (hr : Methods m j methods) :
    Methods i j (decl :: methods)

/-- statements between braces -/
inductive Block : Nat → Nat → List Stmt → Prop
  | mk (hl : Sym ts i .lbrace) (h : Statements (i + 1) j body) (hr : Sym ts j .rbrace) :
    Block i (j + 1) body

inductive Statements : Nat → Nat → List Stmt → Prop
  | nil : Statements i i []
  | cons (h : Statement dangling i m stmt) (hr : Statements m j rest) :
    Statements i j (stmt :: rest)

/-- A statement.  An `else` belongs to the nearest `if`, so the first branch of an `if` with `else`
is not dangling.  A word `function` with a name behind it starts a declaration. -/
inductive Statement : Bool → Nat → Nat → Stmt → Prop
  | varDecl (h : Declaration i j stmt) : Statement false i j stmt
  | function (hw : Word ts i .functionKw) (hn : Name ts (i + 1) name)
      (h : Callable i (some name) (i + 2) j decl) :
    Statement false i j (.node (.function decl) (span i j))
  | classDecl (hw : Word ts i .classKw) (hn : Name ts (i + 1) name) (hl : Sym ts (i + 2) .lbrace)
      (h : Methods (i + 3) j methods) (hr : Sym ts j .rbrace) :
    Statement false i (j + 1) (.node (.classDecl name methods) (span i (j + 1)))
  | ifOnly (hw : Word ts i .ifKw) (hl : Sym ts (i + 1) .lparen) (hc : Expression (i + 2) m test)
      (hr : Sym ts m .rparen) (ht : Statement dangling (m + 1) j thenBranch) :
    Statement true i j (.node (.ifElse test thenBranch none) (span i j))
  | ifElse (hw : Word ts i .ifKw) (hl : Sym ts (i + 1) .lparen) (hc : Expression (i + 2) m test)
      (hr : Sym ts m .rparen) (ht : Statement false (m + 1) k thenBranch)
      (he : Word ts k .elseKw) (hs : Statement dangling (k + 1) j elseBranch) :
    Statement dangling i j (.node (.ifElse test thenBranch (some elseBranch)) (span i j))
  | whileLoop (hw : Word ts i .whileKw) (hl : Sym ts (i + 1) .lparen)
      (hc : Expression (i + 2) m test) (hr : Sym ts m .rparen)
      (hb : Statement dangling (m + 1) j body) :
    Statement dangling i j (.node (.whileLoop test body) (span i j))
  | forLoop (hw : Word ts i .forKw) (hl : Sym ts (i + 1) .lparen) (hi : Initializer (i + 2) k init)
      (ht : Clause .semicolon k l test) (hu : Clause .rparen l m update)
      (hb : Statement dangling m j body) :
    Statement dangling i j (.node (.forLoop init test update body) (span i j))
  | breakLoop (hw : Word ts i .breakKw) (hs : Sym ts (i + 1) .semicolon) :
    Statement false i (i + 2) (.node .breakLoop (span i (i + 2)))
  | continueLoop (hw : Word ts i .continueKw) (hs : Sym ts (i + 1) .semicolon) :
    Statement false i (i + 2) (.node .continueLoop (span i (i + 2)))
  | returnValue (hw : Word ts i .returnKw) (h : Clause .semicolon (i + 1) j value) :
    Statement false i j (.node (.returnValue value) (span i j))
  | throwValue (hw : Word ts i .throwKw) (h : Expression (i + 1) j e) (hs : Sym ts j .semicolon) :
    Statement false i (j + 1) (.node (.throwValue e) (span i (j + 1)))
  | tryCatch (hw : Word ts i .tryKw) (hb : Block (i + 1) k body) (hc : Catch k m handler)
      (hf : Finally m j finalizer) (hsome : handler.isSome ∨ finalizer.isSome) :
    Statement false i j (.node (.tryCatch body handler finalizer) (span i j))
  | debugger (hw : Word ts i .debuggerKw) (hs : Sym ts (i + 1) .semicolon) :
    Statement false i (i + 2) (.node .debugger (span i (i + 2)))
  | block (h : Block i j body) : Statement false i j (.node (.block body) (span i j))
  | empty (hs : Sym ts i .semicolon) : Statement false i (i + 1) (.node .empty (span i (i + 1)))
  | expression (hd : ¬ (Word ts i .functionKw ∧ ∃ name, Name ts (i + 1) name))
      (h : Expression i j e) (hs : Sym ts j .semicolon) :
    Statement false i (j + 1) (.node (.expression e) (span i (j + 1)))

/-- a declaration of a variable by one of its three words -/
inductive Declaration : Nat → Nat → Stmt → Prop
  | bare (hw : w ∈ [Keyword.varKw, .letKw, .constKw]) (h : Word ts i w) (hn : Name ts (i + 1) name)
      (hs : Sym ts (i + 2) .semicolon) :
    Declaration i (i + 3) (.node (.varDecl name none) (span i (i + 3)))
  | init (hw : w ∈ [Keyword.varKw, .letKw, .constKw]) (h : Word ts i w) (hn : Name ts (i + 1) name)
      (ha : Sym ts (i + 2) .assign) (he : Expression (i + 3) j e) (hs : Sym ts j .semicolon) :
    Declaration i (j + 1) (.node (.varDecl name (some e)) (span i (j + 1)))

/-- the first part of a `for`, with its semicolon -/
inductive Initializer : Nat → Nat → Option Stmt → Prop
  | none (hs : Sym ts i .semicolon) : Initializer i (i + 1) none
  | varDecl (h : Declaration i j stmt) : Initializer i j (some stmt)
  | expression (h : Expression i j e) (hs : Sym ts j .semicolon) :
    Initializer i (j + 1) (some (.node (.expression e) (span i (j + 1))))

/-- the handler of a `try`, which may be left out -/
inductive Catch : Nat → Nat → Option CatchClause → Prop
  | none : Catch i i none
  | plain (hw : Word ts i .catchKw) (hb : Block (i + 1) j body) :
    Catch i j (some (.mk none body (span i j)))
  | binding (hw : Word ts i .catchKw) (hl : Sym ts (i + 1) .lparen) (hn : Name ts (i + 2) name)
      (hr : Sym ts (i + 3) .rparen) (hb : Block (i + 4) j body) :
    Catch i j (some (.mk (some name) body (span i j)))

/-- the finalizer of a `try`, which may be left out -/
inductive Finally : Nat → Nat → Option (List Stmt) → Prop
  | none : Finally i i none
  | some (hw : Word ts i .finallyKw) (hb : Block (i + 1) j body) : Finally i j (some body)

end

end

end ScriptMachine.Grammar
