import ScriptMachine.Heap.Text
import ScriptMachine.Program.Verify

/-!
# Listings of programs

* `padRight`, `padZeros`: columns;
* `Instruction.listing`: one instruction with its constants and targets resolved;
* `Program.listing`: all sections and the function table, as lines;
* `Program.opCounts`: how often each operation is there.
-/

namespace ScriptMachine

/-- fills a text up with spaces to a number of characters -/
def padRight (width : Nat) (text : String) : String :=
  text ++ String.ofList (List.replicate (width - text.length) ' ')

/-- a number with at least four digits -/
def padZeros (n : Nat) : String :=
  let digits := toString n
  String.ofList (List.replicate (4 - digits.length) '0') ++ digits

/-- a name in plain quotes, nothing escaped -/
def inQuotes (name : String) : String := "\"" ++ name ++ "\""

/-- the first line of a text; a carriage return before the end of the line belongs to the end -/
def firstLine (text : String) : String :=
  let chars := text.toList
  let line := chars.takeWhile (· ≠ '\n')
  if line.length < chars.length ∧ line.getLast? = some '\r' then String.ofList line.dropLast
  else String.ofList line

/-- where a label stands in its section -/
def LabelTable.describe (table : LabelTable) (label : Label) : String :=
  match table.resolve? label with
  | some target => labelName label ++ " (→ " ++ padZeros target.pc ++ ")"
  | none => labelName label ++ " (unresolved)"

/-- the operands of an operation -/
def Op.operands (program : Program) (table : LabelTable) : Op → String
  | .label name => labelName name ++ ":"
  | .const index =>
    match program.constants[index]? with
    | some value => "#" ++ toString index ++ " " ++ Heap.empty.inspect value
    | none => "#" ++ toString index ++ " <invalid>"
  | .pick n => toString n
  | .jump target => table.describe target
  | .jumpFalse target => table.describe target
  | .jumpTrue target => table.describe target
  | .enterTry handler => table.describe handler
  | .loopExit (some target) => table.describe target
  | .declare name => inQuotes name
  | .createObject name => inQuotes name
  | .store name property => if property then "." ++ inQuotes name else inQuotes name
  | .fetch name .variable => inQuotes name
  | .fetch name .property => "." ++ inQuotes name
  | .fetch name (.callVariable argc) => inQuotes name ++ " argc=" ++ toString argc
  | .fetch name (.callProperty argc) => "." ++ inQuotes name ++ " argc=" ++ toString argc
  | .call argc bound => "argc=" ++ toString argc ++ (if bound then " bound" else "")
  | .makeArray size => toString size
  | _ => ""

/-- an operation with its operands in a second column -/
def Op.listing (program : Program) (table : LabelTable) (op : Op) : String :=
  let operands := op.operands program table
  if operands = "" then op.mnemonic else padRight 13 op.mnemonic ++ " " ++ operands

namespace Program

/-- The lines of an instruction.  A label has a rule above it, and the first instruction of a
statement shows the first line of its source. -/
def instructionLines (program : Program) (table : LabelTable) (pc : Nat)
    (instruction : Instruction) : List String :=
  let isLabel := match instruction.op with
    | .label _ => true
    | _ => false
  let rule := if isLabel then ["      ┌──────────────────────────────────"] else []
  let mark := if isLabel then "►" else " "
  let step := if instruction.startsStatement then "*" else " "
  let source := if instruction.startsStatement then instruction.range.bind program.sourceFor?
    else none
  let comment := match source with
    | some text => "  ; " ++ firstLine text
    | none => ""
  rule ++ [padZeros pc ++ " " ++ mark ++ step ++ " " ++ instruction.op.listing program table
    ++ comment]

def doubleRule : String := "════════════════════════════════════════"

def sectionLines (program : Program) (table : LabelTable) (sectionIndex : Nat) (s : Section) :
    List String :=
  [doubleRule, " " ++ s.name ++ " [" ++ toString sectionIndex ++ "]",
    " " ++ toString s.code.size ++ " instructions", doubleRule]
  ++ s.code.toList.zipIdx.flatMap (fun (i, pc) => program.instructionLines table pc i) ++ [""]

def functionLine (index : Nat) (f : FunctionEntry) : String :=
  "  #" ++ padRight 3 (toString index) ++ " " ++ padRight 24 f.name ++ " section "
    ++ padRight 3 (toString f.body) ++ " (" ++ ", ".intercalate f.params ++ ")"

/-- The listing of a program.  If a label is there twice, no label is resolved. -/
def listing (program : Program) : List String :=
  let table := match program.labelTable with
    | .ok table => table
    | .error _ => {}
  let functions := program.functions.toList
  program.sections.toList.zipIdx.flatMap (fun (s, i) => program.sectionLines table i s)
    ++ (if functions.isEmpty then []
      else "── functions ──" :: functions.zipIdx.map fun (f, i) => functionLine i f)

/-- the text of the listing, every line ended -/
def listingText (program : Program) : String :=
  String.join (program.listing.map (· ++ "\n"))

/-- counts one more of a name -/
def countName (name : String) : List (String × Nat) → List (String × Nat)
  | [] => [(name, 1)]
  | (n, count) :: rest =>
    if n = name then (n, count + 1) :: rest else (n, count) :: countName name rest

/-- how often each operation occurs, by its mnemonic -/
def opCounts (program : Program) : List (String × Nat) :=
  (program.sections.toList.flatMap fun s => s.code.toList).foldl
    (fun counts i => countName i.op.mnemonic counts) []

end Program

end ScriptMachine
