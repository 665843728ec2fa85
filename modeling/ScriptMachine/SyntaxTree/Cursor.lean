import ScriptMachine.SyntaxTree
import ScriptMachine.Token

/-!
# Walking through a token list

* `ParseError`: what was expected, what was found and where, with its message;
* `Cursor`: the tokens ahead and the index of the first of them;
* `Parsed`: a result and the cursor behind it, which has fewer tokens ahead;
* `Cursor.expect`, `Cursor.expectName`: the steps that can fail.
-/

namespace ScriptMachine

/-! ## errors -/

/-- what the grammar asks for at a place -/
inductive Expected where
  | symbol (symbol : Symbol) (place : String)
  | name (place : String)
  | functionName
  | handler
  | expression
  deriving DecidableEq, Repr

def Expected.message : Expected → String
  | symbol s place => "expected '" ++ s.text ++ "' " ++ place
  | name place => "expected identifier " ++ place
  | functionName => "expected function name"
  | handler => "expected 'catch' or 'finally' after try block"
  | expression => "expected expression"

/-- what stands there instead; a list without tokens has nothing to show -/
inductive Found where
  | token (lexeme : String)
  | endOfInput
  | nothing
  deriving DecidableEq, Repr

def Found.message : Found → String
  | token lexeme => ", found '" ++ lexeme ++ "'"
  | endOfInput => ", found end of input"
  | nothing => ""

structure ParseError where
  expected : Expected
  found : Found
  line : Nat
  column : Nat
  deriving DecidableEq, Repr

def ParseError.message (e : ParseError) : String :=
  toString e.line ++ ":" ++ toString e.column ++ ": " ++ e.expected.message ++ e.found.message

/-! ## the cursor -/

structure Cursor where
  /-- the index of the first token ahead -/
  index : Nat
  ahead : List Token
  /-- the last token of the whole list -/
  final : Option Token

/-- the number of tokens ahead -/
def Cursor.size (c : Cursor) : Nat := c.ahead.length

/-- A result with the cursor behind it, where fewer than `bound` tokens are ahead. -/
structure Parsed (α : Type) (bound : Nat) where
  value : α
  next : Cursor
  shorter : next.size < bound

namespace Cursor

/-- at the first of a list of tokens -/
def start (tokens : List Token) : Cursor := ⟨0, tokens, tokens.getLast?⟩

def peek? (c : Cursor) : Option TokenKind := c.ahead.head?.map Token.kind

def atSymbol (c : Cursor) (s : Symbol) : Bool :=
  match c.peek? with
  | some (.symbol t) => t = s
  | _ => false

/-- Are all tokens read?  The mark for the end of the input does not count. -/
def atEnd (c : Cursor) : Bool :=
  match c.peek? with
  | none => true
  | some .eof => true
  | _ => false

/-- the next token, whatever it is -/
def take? (c : Cursor) : Option (Parsed TokenKind c.size) :=
  match h : c.ahead with
  | [] => none
  | token :: rest => some ⟨token.kind, ⟨c.index + 1, rest, c.final⟩, by simp [size, h]⟩

/-- the next token, if it is the symbol `s` -/
def eat? (c : Cursor) (s : Symbol) : Option (Parsed Unit c.size) :=
  match c.take? with
  | some ⟨.symbol t, next, h⟩ => if t = s then some ⟨(), next, h⟩ else none
  | _ => none

/-- the next token, if it is the word `w` -/
def eatWord? (c : Cursor) (w : Keyword) : Option (Parsed Unit c.size) :=
  match c.take? with
  | some ⟨.keyword v, next, h⟩ => if v = w then some ⟨(), next, h⟩ else none
  | _ => none

/-- The error at the next token.  Behind the last one it is reported at the last one. -/
def error (c : Cursor) (expected : Expected) : ParseError :=
  match c.ahead.head?.or c.final with
  | some token =>
    let found := if token.kind = .eof then .endOfInput else .token token.lexeme
    ⟨expected, found, token.start.line, token.start.column⟩
  | none => ⟨expected, .nothing, 1, 1⟩

def expect (c : Cursor) (s : Symbol) (place : String) : Except ParseError (Parsed Unit c.size) :=
  match c.eat? s with
  | some p => .ok p
  | none => .error (c.error (.symbol s place))

def expectName (c : Cursor) (place : String) : Except ParseError (Parsed String c.size) :=
  match c.take? with
  | some ⟨.ident name, next, h⟩ => .ok ⟨name, next, h⟩
  | _ => .error (c.error (.name place))

/-- the tokens from `first` to the one before the cursor -/
def rangeFrom (c : Cursor) (first : Nat) : TokenRange := ⟨first, max (c.index - 1) first⟩

end Cursor

end ScriptMachine
