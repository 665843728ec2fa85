import ScriptMachine.Text.Blank
import ScriptMachine.Text.Letter
import ScriptMachine.Text.Numeral
import ScriptMachine.Number.Reading
import ScriptMachine.Token

/-!
# From characters to tokens

* `LexError`: what is wrong with a text and where, with its message;
* `Piece`: a text cut in two, what was taken and the rest;
* `Scan.gap`: the blanks and comments before a token;
* `Scan.word`: the token at the front of a text;
* `tokenize`: all tokens of a source; the last one, and only that, is the end of the input.
-/

namespace ScriptMachine

/-! ## errors -/

inductive LexCause where
  | unterminatedComment
  | unknownEscape (c : Char)
  | escapeAtEnd
  | newlineInString
  | unterminatedString
  | noHexDigits
  | hexTooLarge (digits : String)
  | unexpected (c : Char)
  deriving DecidableEq, Repr

def LexCause.message : LexCause → String
  | unterminatedComment => "unterminated block comment"
  | unknownEscape c => "unknown escape sequence: \\" ++ c.toString
  | escapeAtEnd => "unexpected EOF in escape sequence"
  | newlineInString => "unterminated string (newline before closing quote)"
  | unterminatedString => "unterminated string literal"
  | noHexDigits => "expected hex digits after 0x"
  | hexTooLarge digits => "invalid hex number: 0x" ++ digits
  | unexpected c => "unexpected character '" ++ c.toString ++ "'"

structure LexError where
  cause : LexCause
  line : Nat
  column : Nat
  deriving DecidableEq, Repr

namespace LexError

def atPosition (p : Position) (cause : LexCause) : LexError := ⟨cause, p.line, p.column⟩

def message (e : LexError) : String :=
  toString e.line ++ ":" ++ toString e.column ++ ": " ++ e.cause.message

end LexError

/-! ## pieces of a text -/

/-- A text cut in two, with what the first part stands for. -/
structure Piece (α : Type) (input : List Char) where
  value : α
  taken : List Char
  rest : List Char
  whole : taken ++ rest = input

namespace Piece

variable {α β : Type} {input : List Char}

/-- nothing taken -/
def none (value : α) (input : List Char) : Piece α input := ⟨value, [], input, rfl⟩

def map (f : α → β) (p : Piece α input) : Piece β input := ⟨f p.value, p.taken, p.rest, p.whole⟩

/-- one more character in front -/
def cons (c : Char) (p : Piece α input) : Piece α (c :: input) :=
  ⟨p.value, c :: p.taken, p.rest, by simp [p.whole]⟩

/-- a piece and then one of its rest -/
def append (p : Piece α input) (q : Piece β p.rest) : Piece β input :=
  ⟨q.value, p.taken ++ q.taken, q.rest, by rw [List.append_assoc, q.whole, p.whole]⟩

/-- the longest front part of the text whose characters pass a test -/
def span (test : Char → Bool) (input : List Char) : Piece Unit input :=
  ⟨(), input.takeWhile test, input.dropWhile test, List.takeWhile_append_dropWhile⟩

theorem length_rest (p : Piece α input) : p.taken.length + p.rest.length = input.length := by
  rw [← List.length_append, p.whole]

theorem rest_le (p : Piece α input) : p.rest.length ≤ input.length := by
  have := p.length_rest
  omega

end Piece

namespace Scan

/-! ## blanks and comments -/

/-- a block comment after its opening, up to and with its closing -/
def blockComment? : (input : List Char) → Option (Piece Unit input)
  | [] => none
  | '*' :: '/' :: rest => some ⟨(), ['*', '/'], rest, rfl⟩
  | c :: rest => (blockComment? rest).map (Piece.cons c)

/-- a line comment after its opening, up to the end of the line -/
def lineComment (input : List Char) : Piece Unit input := Piece.span (· ≠ '\n') input

/-- the blanks, line comments and block comments at the front of a text -/
def gap (p : Position) (input : List Char) : Except LexError (Piece Unit input) :=
  match input with
  | [] => .ok (Piece.none () [])
  | '/' :: '/' :: rest =>
    let comment := lineComment rest
    (gap (p.after ('/' :: '/' :: comment.taken)) comment.rest).map fun more =>
      (comment.append more).cons '/' |>.cons '/'
  | '/' :: '*' :: rest =>
    match blockComment? rest with
    | none => .error (LexError.atPosition p .unterminatedComment)
    | some comment =>
      (gap (p.after ('/' :: '*' :: comment.taken)) comment.rest).map fun more =>
        (comment.append more).cons '*' |>.cons '/'
  | c :: rest =>
    if Text.isBlank c then (gap (p.next c) rest).map (Piece.cons c)
    else .ok (Piece.none () (c :: rest))
termination_by input.length
decreasing_by
  · have h := (lineComment rest).rest_le
    rw [List.length_cons, List.length_cons]
    omega
  · have h := comment.rest_le
    rw [List.length_cons, List.length_cons]
    omega
  · rw [List.length_cons]
    omega

/-! ## strings -/

/-- the character that an escape letter stands for -/
def escaped? : Char → Option Char
  | 'n' => some '\n'
  | 't' => some '\t'
  | 'r' => some '\r'
  | '\\' => some '\\'
  | '"' => some '"'
  | '\x27' => some '\x27'
  | '0' => some '\x00'
  | _ => none

/-- The inside of a string and its closing quote.  Faults in an escape are reported at the
backslash, all others at the opening quote `start`. -/
def stringBody (quote : Char) (start p : Position) :
    (input : List Char) → Except LexError (Piece (List Char) input)
  | [] => .error (LexError.atPosition start .unterminatedString)
  | c :: rest =>
    if c = quote then .ok ⟨[], [c], rest, rfl⟩
    else if c = '\\' then
      match rest with
      | [] => .error (LexError.atPosition p .escapeAtEnd)
      | e :: rest =>
        match escaped? e with
        | none => .error (LexError.atPosition p (.unknownEscape e))
        | some value =>
          (stringBody quote start ((p.next c).next e) rest).map fun body =>
            ((body.map (value :: ·)).cons e).cons c
    else if c = '\n' then .error (LexError.atPosition start .newlineInString)
    else (stringBody quote start (p.next c) rest).map fun body => (body.map (c :: ·)).cons c

/-! ## numbers -/

/-- hexadecimal digits after `0x`; a number must fit into 64 bits -/
def hexNumber (start : Position) (input : List Char) : Except LexError (Piece Float input) :=
  let digits := Piece.span isHexDigit input
  if digits.taken = [] then .error (LexError.atPosition start .noHexDigits)
  else
    let n := natOfDigits 16 digits.taken
    if n < UInt64.size then .ok (digits.map fun _ => Float.ofNat n)
    else .error (LexError.atPosition start (.hexTooLarge (String.ofList digits.taken)))

/-- Digits after the first digit `c`, and a point with more digits.  A point without a digit after
it is not part of the number. -/
def decimalNumber (c : Char) (input : List Char) : Piece Float input :=
  let whole := Piece.span isDecimalDigit input
  let fraction : Piece (List Char) whole.rest :=
    match whole.rest with
    | '.' :: d :: rest =>
      if isDecimalDigit d then
        let digits := Piece.span isDecimalDigit (d :: rest)
        (digits.map fun _ => digits.taken).cons '.'
      else Piece.none [] ('.' :: d :: rest)
    | rest => Piece.none [] rest
  (whole.append fraction).map fun digits =>
    decimalToFloat (natOfDigits 10 (c :: whole.taken ++ digits)) (-digits.length)

/-! ## names and symbols -/

def isNameStart (c : Char) : Bool := Text.isLetter c || c = '_' || c = '$'

def isNamePart (c : Char) : Bool := Text.isLetter c || Text.isNumeral c || c = '_' || c = '$'

/-- a reserved word or a name -/
def nameKind (name : String) : TokenKind :=
  match Keyword.ofText? name with
  | some word => .keyword word
  | none => .ident name

/-- the symbol that starts with `c`, the longer one first, and what it takes of the rest -/
def symbol? : Char → (input : List Char) → Option (Piece Symbol input)
  | '=', '=' :: rest => some ⟨.eq, ['='], rest, rfl⟩
  | '!', '=' :: rest => some ⟨.notEq, ['='], rest, rfl⟩
  | '<', '=' :: rest => some ⟨.ltEq, ['='], rest, rfl⟩
  | '>', '=' :: rest => some ⟨.gtEq, ['='], rest, rfl⟩
  | '&', '&' :: rest => some ⟨.andAnd, ['&'], rest, rfl⟩
  | '|', '|' :: rest => some ⟨.orOr, ['|'], rest, rfl⟩
  | '=', rest => some (Piece.none .assign rest)
  | '!', rest => some (Piece.none .bang rest)
  | '<', rest => some (Piece.none .lt rest)
  | '>', rest => some (Piece.none .gt rest)
  | '+', rest => some (Piece.none .plus rest)
  | '-', rest => some (Piece.none .minus rest)
  | '*', rest => some (Piece.none .star rest)
  | '/', rest => some (Piece.none .slash rest)
  | '%', rest => some (Piece.none .percent rest)
  | '(', rest => some (Piece.none .lparen rest)
  | ')', rest => some (Piece.none .rparen rest)
  | '\x7b', rest => some (Piece.none .lbrace rest)
  | '\x7d', rest => some (Piece.none .rbrace rest)
  | '[', rest => some (Piece.none .lbracket rest)
  | ']', rest => some (Piece.none .rbracket rest)
  | ',', rest => some (Piece.none .comma rest)
  | ';', rest => some (Piece.none .semicolon rest)
  | '.', rest => some (Piece.none .dot rest)
  | _, _ => none

/-! ## tokens -/

/-- a number that starts with the digit `c`; hexadecimal after `0x` and `0X` -/
def number (start : Position) : Char → (input : List Char) → Except LexError (Piece Float input)
  | '0', 'x' :: digits => (hexNumber start digits).map (Piece.cons 'x')
  | '0', 'X' :: digits => (hexNumber start digits).map (Piece.cons 'X')
  | c, rest => .ok (decimalNumber c rest)

/-- the kind of the token that starts with `c`, and what it takes of the rest -/
def word (start : Position) (c : Char) (rest : List Char) :
    Except LexError (Piece TokenKind rest) :=
  if c = '"' ∨ c = '\x27' then
    (stringBody c start (start.next c) rest).map
      (Piece.map fun value => .string (String.ofList value))
  else if isDecimalDigit c then (number start c rest).map (Piece.map .number)
  else if isNameStart c then
    let name := Piece.span isNamePart rest
    .ok (name.map fun _ => nameKind (String.ofList (c :: name.taken)))
  else
    match symbol? c rest with
    | some p => .ok (p.map .symbol)
    | none => .error (LexError.atPosition start (.unexpected c))

/-- the tokens of a text that starts at `p` -/
def tokensFrom (p : Position) (input : List Char) : Except LexError (List Token) :=
  match gap p input with
  | .error e => .error e
  | .ok skipped =>
    let start := p.after skipped.taken
    match h : skipped.rest with
    | [] => .ok [⟨.eof, "", start, start.offset⟩]
    | c :: rest =>
      match word start c rest with
      | .error e => .error e
      | .ok piece =>
        let stop := start.after (c :: piece.taken)
        let token : Token := ⟨piece.value, String.ofList (c :: piece.taken), start, stop.offset⟩
        have : piece.rest.length < input.length := by
          have h₁ := piece.rest_le
          have h₂ := skipped.rest_le
          rw [h, List.length_cons] at h₂
          omega
        (tokensFrom stop piece.rest).map (token :: ·)
termination_by input.length
decreasing_by omega

end Scan

/-- the tokens of a source text -/
def tokenize (source : String) : Except LexError (List Token) := Scan.tokensFrom {} source.toList

end ScriptMachine
