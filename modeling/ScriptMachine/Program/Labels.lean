import Std.Data.TreeMap
import ScriptMachine.Program

/-!
# Where labels stand

* `Location`: a place in a program;
* `Program.labels`: all labels of a program with their places, in the order of the code;
* `LabelTable.ofLabels`: the table of a list of labels, or the first label that comes again;
* `LabelTable.resolve?`: the place of a label.
-/

namespace ScriptMachine

structure Location where
  sectionIndex : Nat
  pc : Nat
  deriving DecidableEq, Repr

/-- the labels of a list of instructions of one section, from `pc` on -/
def labelsFrom (sectionIndex : Nat) : Nat → List Instruction → List (Label × Location)
  | _, [] => []
  | pc, ⟨.label label, _, _⟩ :: rest =>
    (label, ⟨sectionIndex, pc⟩) :: labelsFrom sectionIndex (pc + 1) rest
  | pc, _ :: rest => labelsFrom sectionIndex (pc + 1) rest

def Program.labels (program : Program) : List (Label × Location) :=
  program.sections.toList.zipIdx.flatMap fun (s, i) => labelsFrom i 0 s.code.toList

structure LabelTable where
  targets : Std.TreeMap Label Location := ∅

namespace LabelTable

def resolve? (table : LabelTable) (label : Label) : Option Location := table.targets[label]?

/-- adds labels that must be new -/
def insertAll (table : LabelTable) : List (Label × Location) → Except Label LabelTable
  | [] => .ok table
  | (label, target) :: rest =>
    match table.resolve? label with
    | some _ => .error label
    | none => insertAll ⟨table.targets.insert label target⟩ rest

def ofLabels (labels : List (Label × Location)) : Except Label LabelTable := insertAll {} labels

end LabelTable

/-- the table of all labels of a program, which must be different -/
def Program.labelTable (program : Program) : Except Label LabelTable :=
  LabelTable.ofLabels program.labels

end ScriptMachine
