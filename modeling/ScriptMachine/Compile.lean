import ScriptMachine.Compile.Code
import ScriptMachine.SyntaxTree.Parse
import ScriptMachine.Token.Scan

/-!
# From source text to programs

* `compileProgram`: the program of a list of statements;
* `SourceError`: why a text is no program;
* `compileSource`: the program of a text.
-/

namespace ScriptMachine

/-- the name of the first section, which is run first -/
def mainName : String := "main"

/-- the last token, where the main code ends -/
def Source.endRange? (source : Source) : Option TokenRange :=
  if source.tokens.isEmpty then none
  else some ⟨source.tokens.size - 1, source.tokens.size - 1⟩

/-- The main code is section 0, and the body of function `i` is section `i + 1`. -/
def Builder.toProgram (b : Builder) (main : Code) (source : Source) : Program where
  constants := b.constants
  sections :=
    #[Section.ofCode mainName main] ++ b.functions.map fun f => Section.ofCode f.name f.code
  functions := b.functions.mapIdx fun i f => ⟨f.name, i + 1, f.params⟩
  classes := b.classes.toList
  source := source
  functionNames := (b.functions.map FunctionCode.name).toList

/-- the program of a list of statements; tokens and text are kept to map code back to its source -/
def compileProgram (body : List Stmt) (source : Source) : Except CompileError Program := do
  let (code, builder) ← (Compile.statements { source := source } body).run {}
  return builder.toProgram (code ++ [⟨.halt, source.endRange?, none⟩]) source

inductive SourceError where
  | lexical (error : LexError)
  | syntactic (error : ParseError)
  | compile (error : CompileError)
  deriving DecidableEq, Repr

def SourceError.message : SourceError → String
  | lexical e => "lexer error: " ++ e.message
  | syntactic e => "parser error: " ++ e.message
  | compile e => e.message

/-- the tokens and the statements of a text -/
def readSource (text : String) : Except SourceError (List Token × List Stmt) := do
  let tokens ← (tokenize text).mapError .lexical
  let body ← (parseProgram tokens).mapError .syntactic
  return (tokens, body)

/-- the program of a text -/
def compileSource (text : String) : Except SourceError Program := do
  let (tokens, body) ← readSource text
  (compileProgram body ⟨tokens.toArray, text⟩).mapError .compile

end ScriptMachine
