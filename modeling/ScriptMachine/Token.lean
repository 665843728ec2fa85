import ScriptMachine.Number.Text

/-!
# Tokens

* `Keyword`, `Symbol`: the reserved words and the punctuation, each with its text;
* `TokenKind`: what a token is;
* `Position`: line and column in characters, offset in bytes of UTF-8;
* `Token`: a kind with its source characters and where they stand.
-/

namespace ScriptMachine

/-! ## reserved words -/

inductive Keyword where
  | varKw | letKw | constKw | functionKw | classKw | newKw | returnKw | ifKw | elseKw | whileKw
  | forKw | breakKw | continueKw | tryKw | catchKw | finallyKw | throwKw | thisKw | trueKw
  | falseKw | nullKw | undefinedKw | debuggerKw
  deriving DecidableEq, Repr

namespace Keyword

def text : Keyword → String
  | varKw => "var"
  | letKw => "let"
  | constKw => "const"
  | functionKw => "function"
  | classKw => "class"
  | newKw => "new"
  | returnKw => "return"
  | ifKw => "if"
  | elseKw => "else"
  | whileKw => "while"
  | forKw => "for"
  | breakKw => "break"
  | continueKw => "continue"
  | tryKw => "try"
  | catchKw => "catch"
  | finallyKw => "finally"
  | throwKw => "throw"
  | thisKw => "this"
  | trueKw => "true"
  | falseKw => "false"
  | nullKw => "null"
  | undefinedKw => "undefined"
  | debuggerKw => "debugger"

def all : List Keyword :=
  [varKw, letKw, constKw, functionKw, classKw, newKw, returnKw, ifKw, elseKw, whileKw, forKw,
   breakKw, continueKw, tryKw, catchKw, finallyKw, throwKw, thisKw, trueKw, falseKw, nullKw,
   undefinedKw, debuggerKw]

/-- the reserved word with this text -/
def ofText? (name : String) : Option Keyword := all.find? fun k => k.text == name

end Keyword

/-! ## punctuation -/

inductive Symbol where
  | lparen | rparen | lbrace | rbrace | lbracket | rbracket | comma | semicolon | dot
  | assign | eq | notEq | lt | ltEq | gt | gtEq
  | plus | minus | star | slash | percent | bang | andAnd | orOr
  deriving DecidableEq, Repr

namespace Symbol

def text : Symbol → String
  | lparen => "("
  | rparen => ")"
  | lbrace => "\x7b"
  | rbrace => "\x7d"
  | lbracket => "["
  | rbracket => "]"
  | comma => ","
  | semicolon => ";"
  | dot => "."
  | assign => "="
  | eq => "=="
  | notEq => "!="
  | lt => "<"
  | ltEq => "<="
  | gt => ">"
  | gtEq => ">="
  | plus => "+"
  | minus => "-"
  | star => "*"
  | slash => "/"
  | percent => "%"
  | bang => "!"
  | andAnd => "&&"
  | orOr => "||"

end Symbol

/-! ## tokens -/

inductive TokenKind where
  | number (value : Float)
  | string (value : String)
  | ident (name : String)
  | keyword (word : Keyword)
  | symbol (symbol : Symbol)
  | eof
  deriving DecidableEq

namespace TokenKind

/-- the text of a kind: numbers in the plain style, strings in quotes as they are -/
def text : TokenKind → String
  | number x => NumberStyle.plain.write x
  | string s => "\"" ++ s ++ "\""
  | ident name => name
  | keyword word => word.text
  | symbol s => s.text
  | eof => "EOF"

end TokenKind

/-- a place in a source text: lines and columns count from one, columns in characters, the offset
in bytes -/
structure Position where
  line : Nat := 1
  column : Nat := 1
  offset : Nat := 0
  deriving DecidableEq, Repr

namespace Position

/-- the place after one more character -/
def next (p : Position) (c : Char) : Position :=
  if c = '\n' then ⟨p.line + 1, 1, p.offset + c.utf8Size⟩
  else ⟨p.line, p.column + 1, p.offset + c.utf8Size⟩

/-- the place after more characters -/
def after (p : Position) (text : List Char) : Position := text.foldl next p

@[simp] theorem after_nil (p : Position) : p.after [] = p := rfl

@[simp] theorem after_cons (p : Position) (c : Char) (text : List Char) :
    p.after (c :: text) = (p.next c).after text := rfl

theorem after_append (p : Position) (a b : List Char) : p.after (a ++ b) = (p.after a).after b := by
  unfold after
  rw [List.foldl_append]

end Position

structure Token where
  kind : TokenKind
  /-- the characters of the token in the source -/
  lexeme : String
  start : Position
  /-- the offset of the first byte after the token -/
  stop : Nat
  deriving DecidableEq

end ScriptMachine
