import ScriptMachine.Proofs.Machine.Heights

/-!
# Programs that the check can count

A program that passes the check need not be compiled.  The check counts right if it sees all that
changes the number of values: operands within 32 bits, calls that follow the instruction that fetches
their callee, and loop exits that go where as many values are counted as at the start of their loop.

* `Around`              the heights at which the loops around a place started;
* `Program.Countable`   a program of which the check sees all that matters;
* `Meets`               a place with its height and the loops around it;
* `Due`                 an instruction that is next, with the values that it finds;
* `Due.next`, `Due.jump`, `Due.loopExit`, `Due.callBehind`   what it meets where it goes on.
-/

namespace ScriptMachine

/-! ## loops around a place -/

/-- where a loop exit goes on, `behind` if it has no label -/
def exitTo? (table : LabelTable) (behind : Location) : Option Label → Option Location
  | none => some behind
  | some l => table.resolve? l

section
variable (program : Program) (table : LabelTable)

/-- The heights at which the loops around a place of section `i` started, the innermost first, on some
way through the section.  Loop exits are ways like any other. -/
inductive Around (i : Nat) : Nat → List Nat → Prop
  | start : Around i 0 []
  | next (h : Around i pc loops) (hins : program.instruction? i pc = some ins)
      (hgo : ins.op.isTerminator = false) (hstart : ins.op ≠ .loopStart)
      (hend : ins.op ≠ .loopEnd) : Around i (pc + 1) loops
  | enter (h : Around i pc loops) (hins : program.instruction? i pc = some ins)
      (hop : ins.op = .loopStart) (hn : Counts program ⟨i, pc⟩ n) : Around i (pc + 1) (n :: loops)
  | leave (h : Around i pc (n :: loops)) (hins : program.instruction? i pc = some ins)
      (hop : ins.op = .loopEnd) : Around i (pc + 1) loops
  | jump (h : Around i pc loops) (hins : program.instruction? i pc = some ins)
      (hl : ins.op.jumpTarget? = some l) (hpc : table.resolve? l = some ⟨i, pc'⟩) :
    Around i pc' loops

/-- A program of which the check sees all that changes the number of values, wherever it gets to. -/
structure Program.Countable : Prop where
  fits : ∀ i, program.FitsCount i
  calls : ∀ i pc (ins : Instruction) argc, program.instruction? i pc = some ins →
    (program.heightAt? ⟨i, pc⟩).isSome → ins.op.calleeArgc? = some argc →
    ∃ ins' bound, program.instruction? i (pc + 1) = some ins' ∧ ins'.op = .call argc bound
  exits : ∀ i pc (ins : Instruction) target loc n loops, program.instruction? i pc = some ins →
    ins.op = .loopExit target → exitTo? table ⟨i, pc + 1⟩ target = some loc →
    Around program table i pc (n :: loops) → Counts program loc n

/-- the check counts `n` values at a place with these loops around it -/
structure Meets (loc : Location) (loops : List Nat) (n : Nat) : Prop where
  around : Around program table loc.sectionIndex loc.pc loops
  counts : Counts program loc n

end

/-- if all loops of a section start at one height, this is the height of all loops around a place -/
theorem Around.level {program : Program} {table : LabelTable} {i pc height : Nat} {loops : List Nat}
    (h : Around program table i pc loops)
    (hstarts : ∀ pc (ins : Instruction), program.instruction? i pc = some ins →
      ins.op = .loopStart → Counts program ⟨i, pc⟩ height) : ∀ n ∈ loops, n = height := by
  induction h with
  | start => nofun
  | next _ _ _ _ _ ih => exact ih
  | enter _ hins hop hn ih =>
    exact List.forall_mem_cons.mpr ⟨hn.unique (hstarts _ _ hins hop), ih⟩
  | leave _ _ _ ih => exact (List.forall_mem_cons.mp ih).2
  | jump _ _ _ _ ih => exact ih

/-! ## places -/

namespace Meets

variable {program : Program} {table : LabelTable} {i pc n : Nat} {loops : List Nat}
  {ins : Instruction}

theorem start (acc : Accepted program table) (hi : i < program.sections.size) :
    Meets program table ⟨i, 0⟩ [] 0 := ⟨.start, .start acc hi⟩

theorem has {loc : Location} (h : Meets program table loc loops n) (acc : Accepted program table) :
    program.Has loc := by
  have hheight := h.counts.height
  obtain ⟨i, pc⟩ := loc
  cases hs : program.sections[i]? with
  | none =>
    unfold Program.heightAt? at hheight
    rw [hs] at hheight
    cases hheight
  | some s =>
    obtain ⟨known, hknown⟩ := acc.heights i s hs
    obtain ⟨hpc, -⟩ := (acc.heightAt?_iff hs hknown).mp hheight
    unfold Program.Has Program.instruction?
    rw [hs]
    exact Option.isSome_iff_exists.mpr ⟨_, Array.getElem?_eq_getElem hpc⟩

end Meets

/-- The instruction `op` at a place is next.  The check counts `k` values there beside those that it
takes. -/
structure Due (linked : Linked) (program : Program) (table : LabelTable) (i pc : Nat) (op : Op)
    (loops : List Nat) (k : Nat) : Prop where
  entered : program.Entered table
  countable : program.Countable table
  linked : linked.Of program table
  stands : ∃ ins, program.instruction? i pc = some ins ∧ ins.op = op
  meets : Meets program table ⟨i, pc⟩ loops (k + op.takes)

/-- an instruction finds the values that it takes -/
theorem Meets.due {program : Program} {table : LabelTable} {linked : Linked} {i pc n : Nat}
    {loops : List Nat} {ins : Instruction} (h : Meets program table ⟨i, pc⟩ loops n)
    (hentered : program.Entered table) (hcount : program.Countable table)
    (hlinked : linked.Of program table) (hins : program.instruction? i pc = some ins) :
    ∃ k, n = k + ins.op.takes ∧ Due linked program table i pc ins.op loops k := by
  have htakes := h.counts.takes_le hentered.accepted (hcount.fits i) hins
  obtain ⟨k, rfl⟩ := Nat.exists_eq_add_of_le' htakes
  exact ⟨k, rfl, hentered, hcount, hlinked, ⟨ins, hins, rfl⟩, h⟩

namespace Due

variable {linked : Linked} {program : Program} {table : LabelTable} {i pc k : Nat} {op : Op}
  {loops : List Nat}

theorem next (h : Due linked program table i pc op loops k) (hgo : op.isTerminator = false)
    (hstart : op ≠ .loopStart) (hend : op ≠ .loopEnd) :
    Meets program table ⟨i, pc + 1⟩ loops (k + op.leaves) := by
  obtain ⟨hentered, hcount, -, ⟨ins, hins, rfl⟩, hmeets⟩ := h
  have hcounts := hmeets.counts.next hentered.accepted (hcount.fits i) hins hgo
  rw [Nat.add_sub_cancel] at hcounts
  exact ⟨.next hmeets.around hins hgo hstart hend, hcounts⟩

/-- the label of a jump stands in the same section -/
theorem lands (h : Due linked program table i pc op loops k) {l : Label}
    (hl : op.jumpTarget? = some l) : ∃ pc', linked.labels.resolve? l = some ⟨i, pc'⟩ := by
  obtain ⟨hentered, -, hlinked, ⟨ins, hins, rfl⟩, -⟩ := h
  obtain ⟨pc', hl, -⟩ := hentered.accepted.lands hins hl
  exact ⟨pc', by rw [hlinked.labels, hl]⟩

theorem jump (h : Due linked program table i pc op loops k) {l : Label} {more pc' : Nat}
    (hjump : op.jump? = some (l, more)) (hl : linked.labels.resolve? l = some ⟨i, pc'⟩) :
    Meets program table ⟨i, pc'⟩ loops (k + op.leaves + more) := by
  obtain ⟨hentered, hcount, hlinked, ⟨ins, hins, rfl⟩, hmeets⟩ := h
  rw [hlinked.labels] at hl
  have hcounts := hmeets.counts.jump hentered.accepted (hcount.fits i) hins hjump hl
  rw [Nat.add_sub_cancel] at hcounts
  exact ⟨.jump hmeets.around hins (Op.jumpTarget?_of_jump? hjump) hl, hcounts⟩

theorem loopStart (h : Due linked program table i pc .loopStart loops k) :
    Meets program table ⟨i, pc + 1⟩ (k :: loops) k := by
  obtain ⟨hentered, hcount, -, ⟨ins, hins, hop⟩, hmeets⟩ := h
  have hcounts := hmeets.counts.next hentered.accepted (hcount.fits i) hins (by rw [hop]; rfl)
  rw [hop] at hcounts
  exact ⟨.enter hmeets.around hins hop hmeets.counts, hcounts⟩

theorem loopEnd {n : Nat} (h : Due linked program table i pc .loopEnd (n :: loops) k) :
    Meets program table ⟨i, pc + 1⟩ loops k := by
  obtain ⟨hentered, hcount, -, ⟨ins, hins, hop⟩, hmeets⟩ := h
  have hcounts := hmeets.counts.next hentered.accepted (hcount.fits i) hins (by rw [hop]; rfl)
  rw [hop] at hcounts
  exact ⟨.leave hmeets.around hins hop, hcounts⟩

/-- a loop exit goes where as many values are counted as at the start of the loop -/
theorem loopExit {target : Option Label} {n pc' : Nat}
    (h : Due linked program table i pc (.loopExit target) (n :: loops) k)
    (htarget : exitTo? linked.labels ⟨i, pc + 1⟩ target = some ⟨i, pc'⟩) :
    Meets program table ⟨i, pc'⟩ (n :: loops) n := by
  obtain ⟨-, hcount, hlinked, ⟨ins, hins, hop⟩, hmeets⟩ := h
  rw [hlinked.labels] at htarget
  refine ⟨?_, hcount.exits i pc ins target _ n loops hins hop htarget hmeets.around⟩
  cases target with
  | none =>
    cases htarget
    exact .next hmeets.around hins (by rw [hop]; rfl) (by rw [hop]; nofun) (by rw [hop]; nofun)
  | some l => exact .jump hmeets.around hins (by rw [hop]; rfl) htarget

/-- the call that an instruction prepares is next, and its arguments are there -/
theorem callBehind {argc : Nat} (h : Due linked program table i pc op loops k)
    (hfetch : op.calleeArgc? = some argc) :
    CallBehind program ⟨i, pc + 1⟩ argc ∧ Meets program table ⟨i, pc + 1⟩ loops (k + 1)
      ∧ argc ≤ k := by
  have hnext : Meets program table ⟨i, pc + 1⟩ loops (k + 1) := by
    cases op with
    | fetch _ _ => exact h.next rfl nofun nofun
    | _ => cases hfetch
  obtain ⟨hentered, hcount, -, ⟨ins, hins, rfl⟩, hmeets⟩ := h
  obtain ⟨ins', bound, hins', hcall⟩ :=
    hcount.calls i pc ins argc hins (by rw [hmeets.counts.height]; rfl) hfetch
  have hle := hnext.counts.takes_le hentered.accepted (hcount.fits i) hins'
  rw [hcall, show (Op.call argc bound).takes = argc + 1 + (if bound then 1 else 0) from rfl] at hle
  exact ⟨⟨⟨ins', bound, hins', hcall⟩, ins, pc, rfl, hins, hfetch⟩, hnext, by omega⟩

end Due

end ScriptMachine
