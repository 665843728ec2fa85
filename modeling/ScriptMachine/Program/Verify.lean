import ScriptMachine.Program.Labels

/-!
# Checking programs

A program is accepted if its labels are different, every jump stays in its section, every constant
exists, every section ends where control does not go on, and wherever control meets there are as
many values on the stack.  Control markers do not count as values.

* `VerifyError`: why a program is refused;
* `Op.effect`: how many values an operation takes and leaves, in 32-bit arithmetic;
* `Op.successors`: where control can go, and with how many values;
* `spreadHeights`: the number of values before each instruction that is reached;
* `Program.verify`: the whole check.
-/

namespace ScriptMachine

inductive VerifyError where
  | duplicateLabel (label : Label)
  | undefinedLabel (inSection : String) (pc : Nat) (label : Label)
  | foreignLabel (inSection : String) (pc : Nat) (label : Label)
  | badConstant (inSection : String) (pc : Nat) (index : Nat)
  | unterminated (inSection : String)
  | underflow (inSection : String) (pc : Nat)
  | heightMismatch (inSection : String) (pc : Nat) (expected found : Int32)
  deriving DecidableEq

def labelName (label : Label) : String := "L" ++ toString label

namespace VerifyError

/-- an instruction in a section -/
def place (name : String) (pc : Nat) : String :=
  "section '" ++ name ++ "' pc " ++ toString pc ++ ": "

def detail : VerifyError → String
  | duplicateLabel label => "label " ++ labelName label ++ " is defined more than once"
  | undefinedLabel name pc label =>
    place name pc ++ "label " ++ labelName label ++ " is not defined"
  | foreignLabel name pc label =>
    place name pc ++ "label " ++ labelName label ++ " belongs to another section"
  | badConstant name pc index => place name pc ++ "constant #" ++ toString index ++ " out of range"
  | unterminated name => "section '" ++ name ++ "' does not end in RETURN or HALT"
  | underflow name pc => place name pc ++ "stack underflow"
  | heightMismatch name pc expected found =>
    place name pc ++ "stack height " ++ toString found.toInt ++ " does not match "
      ++ toString expected.toInt

def message (e : VerifyError) : String := "verify error: " ++ e.detail

end VerifyError

namespace Op

/-- how many values an operation takes from the stack and how many it leaves there -/
def effect : Op → Int32 × Int32
  | const _ => (0, 1)
  | pop => (1, 0)
  | dup => (1, 2)
  | pick n => (Int32.ofNat n + 1, Int32.ofNat n + 2)
  | binary _ => (2, 1)
  | neg => (1, 1)
  | not => (1, 1)
  | jumpFalse _ => (1, 0)
  | jumpTrue _ => (1, 0)
  | store _ property => if property then (2, 1) else (1, 1)
  | fetch _ .variable => (0, 1)
  | fetch _ (.callVariable _) => (0, 1)
  | fetch _ .property => (1, 1)
  | fetch _ (.callProperty _) => (1, 1)
  | call argc bound => (Int32.ofNat argc + 1 + (if bound then 1 else 0), 1)
  | ret => (1, 0)
  | throw => (1, 0)
  | createObject _ => (0, 1)
  | makeArray size => (Int32.ofNat size, 1)
  | _ => (0, 0)

/-- Does control never go on to the next instruction? -/
def isTerminator : Op → Bool
  | jump _ => true
  | ret => true
  | throw => true
  | halt => true
  | loopExit (some _) => true
  | _ => false

/-- the operations that a section may end in -/
def endsSection : Op → Bool
  | ret => true
  | halt => true
  | throw => true
  | jump _ => true
  | _ => false

/-- Where control goes from `pc` with `after` values on the stack, the next instruction first.  A
handler starts with the thrown value.  What a loop exit leaves on the stack depends on the loop, so
its way is not followed. -/
def successors (op : Op) (table : LabelTable) (pc : Nat) (after : Int32) : List (Nat × Int32) :=
  let next := if op.isTerminator then [] else [(pc + 1, after)]
  let jumps (label : Label) (height : Int32) : List (Nat × Int32) :=
    ((table.resolve? label).map fun target => (target.pc, height)).toList
  match op with
  | jump target => next ++ jumps target after
  | jumpFalse target => next ++ jumps target after
  | jumpTrue target => next ++ jumps target after
  | enterTry handler => next ++ jumps handler (after + 1)
  | _ => next

theorem length_successors_le (op : Op) (table : LabelTable) (pc : Nat) (after : Int32) :
    (op.successors table pc after).length ≤ 2 := by
  have h₁ : (if op.isTerminator then [] else [(pc + 1, after)]).length ≤ 1 := by split <;> simp
  have h₂ (label : Label) (height : Int32) :
      ((table.resolve? label).map fun target => (target.pc, height)).toList.length ≤ 1 := by
    cases table.resolve? label <;> simp
  unfold successors
  cases op <;> simp only [List.length_append] <;>
    first
    | exact Nat.add_le_add h₁ (h₂ _ _)
    | exact Nat.le_succ_of_le h₁

end Op

/-! ## heights -/

/-- the number of values before each instruction; nothing is known of those not yet reached -/
abbrev Heights (n : Nat) := Vector (Option Int32) n

/-- Follows the places of a work list, the last one found first, until all that can be reached
have a height. -/
def spreadHeights (table : LabelTable) (name : String) (code : Array Instruction)
    (heights : Heights code.size) (work : List (Nat × Int32)) :
    Except VerifyError (Heights code.size) :=
  match work with
  | [] => .ok heights
  | (pc, height) :: work =>
    if h : pc < code.size then
      match hpc : heights[pc] with
      | some expected =>
        if expected = height then spreadHeights table name code heights work
        else .error (.heightMismatch name pc expected height)
      | none =>
        let (pops, pushes) := code[pc].op.effect
        if height < pops then .error (.underflow name pc)
        else
          have : (heights.set pc (some height)).countP Option.isNone + 1
              = heights.countP Option.isNone := by
            have hpos : 0 < heights.countP Option.isNone := by
              rw [Vector.countP_pos_iff]
              exact ⟨heights[pc], Vector.getElem_mem h, by simp [hpc]⟩
            rw [Vector.countP_set]
            simp [hpc]
            omega
          have := code[pc].op.length_successors_le table pc (height - pops + pushes)
          spreadHeights table name code (heights.set pc (some height))
            (code[pc].op.successors table pc (height - pops + pushes) ++ work)
    else spreadHeights table name code heights work
termination_by 3 * heights.countP Option.isNone + work.length
decreasing_by
  · simp
  · simp only [List.length_append, List.length_cons]
    omega
  · simp

/-- a section starts without values -/
def Section.heights (s : Section) (table : LabelTable) :
    Except VerifyError (Heights s.code.size) :=
  spreadHeights table s.name s.code (Vector.replicate s.code.size none) [(0, 0)]

namespace Program

/-- Constants exist and jumps stay in their section; of two faults the first one counts. -/
def checkOperands (program : Program) (table : LabelTable) (sectionIndex : Nat) (name : String) :
    Nat → List Instruction → Except VerifyError Unit
  | _, [] => .ok ()
  | pc, instruction :: rest => do
    match instruction.op with
    | .const index =>
      if program.constants.size ≤ index then throw (.badConstant name pc index)
    | _ => pure ()
    match instruction.op.jumpTarget? with
    | none => pure ()
    | some label =>
      match table.resolve? label with
      | none => throw (.undefinedLabel name pc label)
      | some target =>
        if target.sectionIndex ≠ sectionIndex then throw (.foreignLabel name pc label)
    checkOperands program table sectionIndex name (pc + 1) rest

def verifySection (program : Program) (table : LabelTable) (sectionIndex : Nat) (s : Section) :
    Except VerifyError Unit := do
  match s.code.back? with
  | some last => if !last.op.endsSection then throw (.unterminated s.name)
  | none => throw (.unterminated s.name)
  program.checkOperands table sectionIndex s.name 0 s.code.toList
  let _ ← s.heights table

/-- the sections from `sectionIndex` on -/
def verifySections (program : Program) (table : LabelTable) :
    Nat → List Section → Except VerifyError Unit
  | _, [] => .ok ()
  | sectionIndex, s :: rest => do
    program.verifySection table sectionIndex s
    program.verifySections table (sectionIndex + 1) rest

/-- the label table of a program with its labels all different -/
def checkedLabels (program : Program) : Except VerifyError LabelTable :=
  program.labelTable.mapError .duplicateLabel

def verify (program : Program) : Except VerifyError Unit := do
  let table ← program.checkedLabels
  program.verifySections table 0 program.sections.toList

/-- the number of values before each instruction of a section, where it is reached -/
def stackHeights (program : Program) (s : Section) : Except VerifyError (List (Option Int32)) := do
  let table ← program.checkedLabels
  let heights ← s.heights table
  return heights.toList

end Program

end ScriptMachine
