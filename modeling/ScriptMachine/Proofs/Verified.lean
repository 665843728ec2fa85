import ScriptMachine.Machine
import ScriptMachine.Proofs.Shape.Sections

/-!
# Compiled programs pass the check

The check counts values in 32-bit arithmetic and gives every instruction that it reaches a height.
In a program with shapes this is the number of values of the shape.  It is never above the number of
instructions that already have a height, so sections of less than `2 ^ 31` instructions are counted
without overflow.

* `Op.takes`, `Op.leaves`   the numbers of values as natural numbers;
* `OpTyped.takes_le`, `OpTyped.successors`   typed operations find the values that they take, and
                        their successors have the heights of their shapes;
* `spreadHeights_keeps`   what each place of the work list preserves, all of them do;
* `spreadHeights_ok`    the work list never meets two heights;
* `verifySection_of`, `verify_of_sections`   the parts of the check put together;
* `verify_of_wellShaped`   the whole check;
* `compileProgram_verify`  the main statement.
-/

namespace ScriptMachine

/-! ## effects -/

namespace Op

/-- how many values an operation takes -/
def takes : Op → Nat
  | pop => 1
  | dup => 1
  | pick n => n + 1
  | binary _ => 2
  | neg => 1
  | not => 1
  | jumpFalse _ => 1
  | jumpTrue _ => 1
  | store _ property => if property then 2 else 1
  | fetch _ .property => 1
  | fetch _ (.callProperty _) => 1
  | call argc bound => argc + 1 + (if bound then 1 else 0)
  | ret => 1
  | throw => 1
  | makeArray size => size
  | _ => 0

/-- how many values an operation leaves -/
def leaves : Op → Nat
  | const _ => 1
  | dup => 2
  | pick n => n + 2
  | binary _ => 1
  | neg => 1
  | not => 1
  | store _ _ => 1
  | fetch _ _ => 1
  | call _ _ => 1
  | createObject _ => 1
  | makeArray _ => 1
  | _ => 0

theorem effect_eq (op : Op) : op.effect = (Int32.ofNat op.takes, Int32.ofNat op.leaves) := by
  cases op with
  | pick n => simp [effect, takes, leaves]
  | fetch name access => cases access <;> rfl
  | store name property => cases property <;> rfl
  | call argc bound => cases bound <;> simp [effect, takes, leaves]
  | _ => rfl

/-- the label that control can go to beside the next instruction, and how many values more there
are then -/
def jump? : Op → Option (Label × Nat)
  | jump target => some (target, 0)
  | jumpFalse target => some (target, 0)
  | jumpTrue target => some (target, 0)
  | enterTry handler => some (handler, 1)
  | _ => none

theorem mem_successors {op : Op} {table : LabelTable} {pc pc' : Nat} {after height : Int32}
    (h : (pc', height) ∈ op.successors table pc after) :
    (op.isTerminator = false ∧ pc' = pc + 1 ∧ height = after)
      ∨ ∃ l k target, op.jump? = some (l, k) ∧ table.resolve? l = some target ∧ pc' = target.pc
        ∧ height = after + Int32.ofNat k := by
  have hnext (h : (pc', height) ∈ if op.isTerminator then [] else [(pc + 1, after)]) :
      op.isTerminator = false ∧ pc' = pc + 1 ∧ height = after := by
    cases hop : op.isTerminator with
    | true =>
      rw [hop] at h
      cases h
    | false =>
      rw [hop] at h
      simpa using h
  have hjump {l : Label} {there : Int32}
      (h : (pc', height) ∈ ((table.resolve? l).map fun target => (target.pc, there)).toList) :
      ∃ target, table.resolve? l = some target ∧ pc' = target.pc ∧ height = there := by
    obtain ⟨target, htarget, heq⟩ := Option.map_eq_some_iff.mp (Option.mem_toList.mp h)
    cases heq
    exact ⟨target, htarget, rfl, rfl⟩
  unfold successors at h
  cases op with
  | jump l | jumpFalse l | jumpTrue l =>
    rcases List.mem_append.mp h with h | h
    · exact .inl (hnext h)
    · obtain ⟨target, htarget, hpc, hheight⟩ := hjump h
      exact .inr ⟨l, 0, target, rfl, htarget, hpc, hheight.trans (Int32.add_zero _).symm⟩
  | enterTry l =>
    rcases List.mem_append.mp h with h | h
    · exact .inl (hnext h)
    · obtain ⟨target, htarget, hpc, hheight⟩ := hjump h
      exact .inr ⟨l, 1, target, rfl, htarget, hpc, hheight⟩
  | _ => exact .inl (hnext h)

theorem leaves_le (op : Op) : op.leaves ≤ op.takes + 1 := by
  cases op with
  | fetch name access => cases access <;> simp [takes, leaves]
  | _ => simp [takes, leaves]

end Op

/-! ## heights of shapes -/

@[simp] theorem Shape.height_mk (es : List Entry) (d : Nat) : Shape.height ⟨es, d⟩ = heights es := rfl

@[simp] theorem heights_cons (e : Entry) (es : List Entry) :
    heights (e :: es) = e.height + heights es := rfl

@[simp] theorem heights_append (es es' : List Entry) :
    heights (es ++ es') = heights es + heights es' := by
  unfold heights
  rw [List.map_append, List.sum_append]

@[simp] theorem heights_values (n : Nat) : heights (values n) = n := by
  induction n with
  | zero => rfl
  | succ n ih =>
    show 1 + heights (values n) = n + 1
    omega

theorem Ready.heights_eq {argc : Nat} {es es' : List Entry} (h : Ready argc es es') :
    heights es = argc + 1 + heights es' := by
  cases h with
  | prepared => rfl
  | value =>
    simp [Entry.height]
    omega

namespace OpTyped

variable {env : TypeEnv} {has : Label → Shape → Prop} {op : Op} {σ τ : Shape}

theorem takes_le (h : OpTyped env has op σ τ) : op.takes ≤ σ.height := by
  cases h with
  | call h =>
    have hheight := h.heights_eq
    rw [heights_append, heights_values] at hheight
    simp only [Op.takes, Shape.height_mk]
    omega
  | _ => simp [Op.takes, Entry.height] <;> omega

/-- where control goes on behind an operation, the height is what the operation leaves -/
theorem height_next (h : OpTyped env has op σ τ) (hgo : op.isTerminator = false) :
    τ.height = σ.height - op.takes + op.leaves := by
  cases h with
  | call h =>
    have hheight := h.heights_eq
    rw [heights_append, heights_values] at hheight
    simp only [Op.takes, Op.leaves, Shape.height_mk, heights_cons, Entry.height]
    omega
  | jump _ => cases hgo
  | ret _ => cases hgo
  | throw => cases hgo
  | halt _ => cases hgo
  | loopExit _ _ => cases hgo
  | _ => simp [Op.takes, Op.leaves, Entry.height] <;> omega

/-- where an operation jumps to, the height is what it leaves, and a handler gets one value more -/
theorem height_jump (h : OpTyped env has op σ τ) {l : Label} {k : Nat}
    (hjump : op.jump? = some (l, k)) :
    ∃ ρ, has l ρ ∧ ρ.height = σ.height - op.takes + (op.leaves + k)
      ∧ op.leaves + k ≤ op.takes + 1 := by
  cases h with
  | jump h =>
    cases hjump
    exact ⟨_, h, by simp [Op.takes, Op.leaves], by simp [Op.takes, Op.leaves]⟩
  | jumpFalse h =>
    cases hjump
    exact ⟨_, h, by simp [Op.takes, Op.leaves, Entry.height], by simp [Op.takes, Op.leaves]⟩
  | jumpTrue h =>
    cases hjump
    exact ⟨_, h, by simp [Op.takes, Op.leaves, Entry.height], by simp [Op.takes, Op.leaves]⟩
  | enterTry h =>
    cases hjump
    refine ⟨_, h, ?_, by simp [Op.takes, Op.leaves]⟩
    simp only [Op.takes, Op.leaves, Shape.height_mk, heights_cons, Entry.height]
    omega
  | _ => cases hjump

/-- the successors of a typed operation have the heights of their shapes -/
theorem successors {program : Program} {table : LabelTable} {T : Location → Shape} {i pc : Nat}
    (h : OpTyped env (Lands program table T i) op (T ⟨i, pc⟩) (T ⟨i, pc + 1⟩)) {pc' : Nat}
    {height : Int32} (hmem : (pc', height) ∈ op.successors table pc
      (Int32.ofNat (T ⟨i, pc⟩).height - Int32.ofNat op.takes + Int32.ofNat op.leaves)) :
    height = Int32.ofNat (T ⟨i, pc'⟩).height ∧ (T ⟨i, pc'⟩).height ≤ (T ⟨i, pc⟩).height + 1 := by
  have htakes := h.takes_le
  have hleaves := op.leaves_le
  rcases Op.mem_successors hmem with ⟨hgo, rfl, rfl⟩ | ⟨l, k, target, hjump, htarget, rfl, rfl⟩
  · have hnext := h.height_next hgo
    rw [hnext, Int32.ofNat_add, Int32.ofNat_sub _ _ htakes]
    exact ⟨rfl, by omega⟩
  · obtain ⟨ρ, ⟨pc, hpc, -, rfl⟩, hρ, hk⟩ := h.height_jump hjump
    rw [htarget] at hpc
    cases hpc
    rw [hρ, Int32.ofNat_add, Int32.ofNat_sub _ _ htakes, Int32.ofNat_add, Int32.add_assoc]
    exact ⟨rfl, by omega⟩

end OpTyped

/-! ## the work list -/

/-- the number of instructions without a height -/
def unknown {n : Nat} (known : Heights n) : Nat := known.countP Option.isNone

/-- A work list and the heights so far agree with the shapes of section `i`.  A height is at most
the number of instructions that have one already. -/
structure Agrees (T : Location → Shape) (i : Nat) {n : Nat} (known : Heights n)
    (work : List (Nat × Int32)) : Prop where
  heights : ∀ (pc : Nat) (h : pc < n) (height : Int32), known[pc] = some height →
    height = Int32.ofNat (T ⟨i, pc⟩).height
  pending : ∀ pc height, (pc, height) ∈ work →
    height = Int32.ofNat (T ⟨i, pc⟩).height ∧ (T ⟨i, pc⟩).height + unknown known ≤ n

theorem Agrees.tail {T : Location → Shape} {i n : Nat} {known : Heights n} {first : Nat × Int32}
    {work : List (Nat × Int32)} (h : Agrees T i known (first :: work)) : Agrees T i known work :=
  ⟨h.heights, fun pc height hmem => h.pending pc height (List.mem_cons_of_mem _ hmem)⟩

theorem unknown_set {n : Nat} (known : Heights n) (pc : Nat) (h : pc < n) (height : Int32)
    (hpc : known[pc] = none) : unknown (known.set pc (some height)) + 1 = unknown known := by
  have hpos : 0 < unknown known := by
    unfold unknown
    rw [Vector.countP_pos_iff]
    exact ⟨known[pc], Vector.getElem_mem h, by rw [hpc]; rfl⟩
  unfold unknown at *
  rw [Vector.countP_set, hpc]
  simp
  omega

/-- an instruction gets its height, and its successors come onto the work list -/
theorem Agrees.visit {program : Program} {table : LabelTable} {T : Location → Shape} {env : TypeEnv}
    {i pc n : Nat} {known : Heights n} {height : Int32} {work : List (Nat × Int32)} {op : Op}
    (h : Agrees T i known ((pc, height) :: work)) (hlt : pc < n) (hpc : known[pc] = none)
    (hop : OpTyped env (Lands program table T i) op (T ⟨i, pc⟩) (T ⟨i, pc + 1⟩)) :
    Agrees T i (known.set pc (some height)) (op.successors table pc
      (height - Int32.ofNat op.takes + Int32.ofNat op.leaves) ++ work) := by
  obtain ⟨rfl, hle⟩ := h.pending pc height List.mem_cons_self
  have hset := unknown_set known pc hlt (Int32.ofNat (T ⟨i, pc⟩).height) hpc
  constructor
  · intro pc' hlt' height' hget
    by_cases heq : pc = pc'
    · subst heq
      rw [Vector.getElem_set_self] at hget
      cases hget
      rfl
    · rw [Vector.getElem_set_ne hlt hlt' heq] at hget
      exact h.heights pc' hlt' height' hget
  · intro pc' height' hmem
    rcases List.mem_append.mp hmem with hmem | hmem
    · obtain ⟨heq, hbound⟩ := hop.successors hmem
      exact ⟨heq, by omega⟩
    · obtain ⟨heq, hbound⟩ := h.pending pc' height' (List.mem_cons_of_mem _ hmem)
      exact ⟨heq, by omega⟩

/-- What holds of the heights and the work list at the start, and again after each place that is taken
from it, holds at the end.  There is an end if it rules out both errors. -/
theorem spreadHeights_keeps {table : LabelTable} {name : String} {code : Array Instruction}
    {J : Heights code.size → List (Nat × Int32) → Prop}
    (hdrop : ∀ known first work, J known (first :: work) → J known work)
    (hagree : ∀ known pc height work (hlt : pc < code.size) expected,
      J known ((pc, height) :: work) → known[pc] = some expected → expected = height)
    (henough : ∀ known pc height work (hlt : pc < code.size), J known ((pc, height) :: work) →
      known[pc] = none → ¬height < Int32.ofNat code[pc].op.takes)
    (hvisit : ∀ known pc height work (hlt : pc < code.size), J known ((pc, height) :: work) →
      known[pc] = none → J (known.set pc (some height)) (code[pc].op.successors table pc
        (height - Int32.ofNat code[pc].op.takes + Int32.ofNat code[pc].op.leaves) ++ work))
    (known : Heights code.size) (work : List (Nat × Int32)) (h : J known work) :
    ∃ known', spreadHeights table name code known work = .ok known' ∧ J known' [] := by
  fun_induction spreadHeights table name code known work with
  | case1 known => exact ⟨known, rfl, h⟩
  | case2 known pc work hlt expected hpc ih => exact ih (hdrop _ _ _ h)
  | case3 known pc height work hlt expected hpc hne =>
    exact absurd (hagree known pc height work hlt expected h hpc) hne
  | case4 known pc height work hlt hpc pops pushes heffect hunder =>
    rw [Op.effect_eq] at heffect
    cases heffect
    exact absurd hunder (henough known pc height work hlt h hpc)
  | case5 known pc height work hlt hpc pops pushes heffect hunder hcount hlen ih =>
    rw [Op.effect_eq] at heffect
    cases heffect
    exact ih (hvisit known pc height work hlt h hpc)
  | case6 known pc height work hge ih => exact ih (hdrop _ _ _ h)

theorem spreadHeights_ok {program : Program} {table : LabelTable} {T : Location → Shape}
    {env : TypeEnv} {i : Nat} {code : Array Instruction} (name : String)
    (hsize : code.size < 2 ^ 31)
    (htyped : ∀ (pc : Nat) (h : pc < code.size),
      OpTyped env (Lands program table T i) code[pc].op (T ⟨i, pc⟩) (T ⟨i, pc + 1⟩))
    (known : Heights code.size) (work : List (Nat × Int32)) (h : Agrees T i known work) :
    ∃ known', spreadHeights table name code known work = .ok known' := by
  obtain ⟨known', hknown', -⟩ := spreadHeights_keeps (J := Agrees T i)
    (fun _ _ _ h => h.tail)
    (fun known pc height work hlt expected h hpc => by
      have hexpected := h.heights pc hlt expected hpc
      exact hexpected.trans (h.pending pc height List.mem_cons_self).1.symm)
    (fun known pc height work hlt h hpc => by
      obtain ⟨hheight, hbound⟩ := h.pending pc height List.mem_cons_self
      have htakes := (htyped pc hlt).takes_le
      rw [hheight, Int32.ofNat_lt_iff_lt (by omega) (by omega)]
      omega)
    (fun known pc height work hlt h hpc => h.visit hlt hpc (htyped pc hlt))
    known work h
  exact ⟨known', hknown'⟩

/-! ## the whole check -/

/-- what is checked of one instruction -/
structure OperandsOk (program : Program) (table : LabelTable) (i : Nat) (op : Op) : Prop where
  constant : ∀ index, op = .const index → index < program.constants.size
  target : ∀ l, op.jumpTarget? = some l →
    ∃ target, table.resolve? l = some target ∧ target.sectionIndex = i

theorem checkOperands_ok {program : Program} {table : LabelTable} (name : String) {i : Nat}
    (code : List Instruction) (pc : Nat) (h : ∀ ins ∈ code, OperandsOk program table i ins.op) :
    program.checkOperands table i name pc code = .ok () := by
  induction code generalizing pc with
  | nil => rfl
  | cons ins rest ih =>
    have hop := h ins List.mem_cons_self
    have hrest := ih (pc + 1) fun ins' hmem => h ins' (List.mem_cons_of_mem _ hmem)
    rw [Program.checkOperands, hrest]
    split
    · rename_i index heq
      rw [heq]
      rw [if_neg (Nat.not_le.mpr (hop.constant index heq))]
      rfl
    · cases hl : ins.op.jumpTarget? with
      | none => rfl
      | some l =>
        obtain ⟨target, htarget, hi⟩ := hop.target l hl
        simp only [htarget, hi, ne_eq, not_true_eq_false, if_false]

/-- the parts of the check of a section -/
theorem verifySection_of {program : Program} {table : LabelTable} {i : Nat} {s : Section}
    {last : Instruction} (hlast : s.code.back? = some last) (hends : last.op.endsSection = true)
    (hoperands : ∀ (pc : Nat) (ins : Instruction), s.code[pc]? = some ins →
      OperandsOk program table i ins.op)
    {known : Heights s.code.size} (hheights : s.heights table = .ok known) :
    program.verifySection table i s = .ok () := by
  have hcheck : program.checkOperands table i s.name 0 s.code.toList = .ok () := by
    refine checkOperands_ok s.name s.code.toList 0 fun ins hmem => ?_
    obtain ⟨pc, hpc, hget⟩ := List.mem_iff_getElem.mp hmem
    refine hoperands pc ins ?_
    rw [← Array.getElem?_toList, List.getElem?_eq_getElem hpc, hget]
  unfold Program.verifySection
  rw [hlast, hcheck, hheights]
  simp only [hends, Bool.not_true, Bool.false_eq_true, if_false]
  rfl

theorem verifySections_ok {program : Program} {table : LabelTable} (i : Nat) (sections : List Section)
    (h : ∀ k s, sections[k]? = some s → program.verifySection table (i + k) s = .ok ()) :
    program.verifySections table i sections = .ok () := by
  induction sections generalizing i with
  | nil => rfl
  | cons s sections ih =>
    have hfirst : program.verifySection table i s = .ok () := h 0 s rfl
    rw [Program.verifySections, hfirst]
    refine ih (i + 1) fun k s' hs' => ?_
    rw [Nat.add_assoc, Nat.add_comm 1 k]
    exact h (k + 1) s' hs'

/-- a program with different labels passes if each of its sections does -/
theorem verify_of_sections {program : Program} {table : LabelTable}
    (htable : program.labelTable = .ok table)
    (h : ∀ (i : Nat) s, program.sections[i]? = some s → program.verifySection table i s = .ok ()) :
    program.verify = .ok () := by
  unfold Program.verify Program.checkedLabels
  rw [htable]
  refine verifySections_ok 0 program.sections.toList fun k s hs => ?_
  rw [Nat.zero_add]
  exact h k s (Array.getElem?_toList.symm.trans hs)

/-- typed instructions have constants that exist and jump inside their section -/
theorem OpTyped.operandsOk {program : Program} {table : LabelTable} {T : Location → Shape} {i : Nat}
    {inFunction : Bool} {op : Op} {σ τ : Shape}
    (h : OpTyped ⟨program.constants.size, inFunction⟩ (Lands program table T i) op σ τ) :
    OperandsOk program table i op := by
  have hlands {l : Label} {ρ : Shape} (h : Lands program table T i l ρ) :
      ∃ target, table.resolve? l = some target ∧ target.sectionIndex = i := by
    obtain ⟨pc, hpc, -, -⟩ := h
    exact ⟨⟨i, pc⟩, hpc, rfl⟩
  cases h with
  | const h => exact ⟨fun index heq => by cases heq; exact h, nofun⟩
  | jump h => exact ⟨nofun, fun l hl => by cases hl; exact hlands h⟩
  | jumpFalse h => exact ⟨nofun, fun l hl => by cases hl; exact hlands h⟩
  | jumpTrue h => exact ⟨nofun, fun l hl => by cases hl; exact hlands h⟩
  | enterTry h => exact ⟨nofun, fun l hl => by cases hl; exact hlands h⟩
  | loopExit _ h => exact ⟨nofun, fun l hl => by cases hl; exact hlands h⟩
  | _ => exact ⟨nofun, nofun⟩

section
variable {program : Program} {table : LabelTable} {T : Location → Shape}

theorem WellShaped.typed_at (h : WellShaped program table T) {i : Nat} {s : Section}
    (hs : program.sections[i]? = some s) {pc : Nat} {ins : Instruction}
    (hins : s.code[pc]? = some ins) :
    OpTyped ⟨program.constants.size, i != 0⟩ (Lands program table T i) ins.op (T ⟨i, pc⟩)
      (T ⟨i, pc + 1⟩) := by
  refine h.typed i pc ins ?_
  rw [Program.instruction?, hs]
  exact hins

theorem verifySection_ok (h : WellShaped program table T) {i : Nat} {s : Section}
    (hs : program.sections[i]? = some s) (hsize : s.code.size < 2 ^ 31) :
    program.verifySection table i s = .ok () := by
  obtain ⟨last, hlast, hop⟩ := h.ends i s hs
  have hends : last.op.endsSection = true := by
    rcases hop with hop | hop <;> rw [hop] <;> rfl
  have hagrees : Agrees T i (Vector.replicate s.code.size none) [(0, 0)] := by
    constructor
    · intro pc hpc height hget
      rw [Vector.getElem_replicate] at hget
      cases hget
    · intro pc height hmem
      cases List.mem_singleton.mp hmem
      rw [h.start i]
      refine ⟨rfl, ?_⟩
      show 0 + unknown _ ≤ _
      rw [Nat.zero_add]
      exact Vector.countP_le_size
  obtain ⟨heights, hheights⟩ := spreadHeights_ok s.name hsize
    (fun pc hpc => h.typed_at hs (Array.getElem?_eq_getElem hpc)) _ _ hagrees
  exact verifySection_of hlast hends (fun pc ins hins => (h.typed_at hs hins).operandsOk) hheights

theorem verify_of_wellShaped (h : WellShaped program table T)
    (hsize : ∀ s ∈ program.sections.toList, s.code.size < 2 ^ 31) :
    program.checkedLabels = .ok table ∧ program.verify = .ok () := by
  refine ⟨?_, verify_of_sections h.labels fun i s hs => verifySection_ok h hs (hsize s ?_)⟩
  · unfold Program.checkedLabels
    rw [h.labels]
    rfl
  · exact Array.mem_toList_iff.mpr (Array.mem_of_getElem? hs)

/-- a checked program makes a machine before its first instruction -/
theorem load_of_wellShaped (h : WellShaped program table T)
    (hsize : ∀ s ∈ program.sections.toList, s.code.size < 2 ^ 31) (limits : Limits) :
    Machine.load program limits = .ok {
      linked := ⟨program, table, ⟨0⟩, []⟩
      limits := limits
      state := ⟨⟨0, 0⟩, ⟨0⟩, Stack.empty, (Heap.empty.newGlobal).2, []⟩
      mode := .paused
      moved := false } := by
  obtain ⟨hlabels, hverify⟩ := verify_of_wellShaped h hsize
  unfold Machine.load
  rw [hverify, hlabels]
  rfl

end

/-- **Compiled programs pass the check.**  Their labels are different although finalizers are compiled
several times, section `i + 1` is the body of function `i`, every class has a constructor, and so
there always is a machine for them. -/
theorem compileProgram_verify (body : List Stmt) (source : Source) (program : Program)
    (h : compileProgram body source = .ok program)
    (hsize : ∀ s ∈ program.sections.toList, s.code.size < 2 ^ 31) :
    program.verify = .ok ()
      ∧ (program.labels.map Prod.fst).Nodup
      ∧ program.sections.size = program.functions.size + 1
      ∧ (∀ i f, program.functions[i]? = some f →
        f.body = i + 1 ∧ program.sections[i + 1]?.map Section.name = some f.name)
      ∧ (∀ k ∈ program.classes, (∃ index, (constructorName, index) ∈ k.methods)
        ∧ ∀ m ∈ k.methods, m.2 < program.functions.size)
      ∧ ∀ limits, ∃ m, Machine.load program limits = .ok m := by
  obtain ⟨code, b, hcode, rfl⟩ := compileProgram_ok h
  obtain ⟨table, T, hshaped, -⟩ := wellShaped_of_compiled hcode rfl rfl source
  have htabled := tabled_of_compiled hcode source
  exact ⟨(verify_of_wellShaped hshaped hsize).2, htabled.labels, htabled.sections,
    htabled.functions, htabled.classes, fun limits => ⟨_, load_of_wellShaped hshaped hsize limits⟩⟩

/-- a program is small if a list of sizes says so -/
theorem small_of_sizes {ε : Type} {r : Except ε Program} (sizes : List Nat)
    (h : r.map (fun p => p.sections.toList.map fun s => s.code.size) = .ok sizes)
    (hsizes : ∀ n ∈ sizes, n < 2 ^ 31) :
    ∃ p, r = .ok p ∧ ∀ s ∈ p.sections.toList, s.code.size < 2 ^ 31 := by
  cases r with
  | error e => cases h
  | ok p =>
    refine ⟨p, rfl, fun s hs => hsizes _ ?_⟩
    cases h
    exact List.mem_map_of_mem hs

/-- `while (true) { try { break; } finally { if (true) ; } }  class Point { }` -/
def leavingLoop : List Stmt :=
  let at_ : TokenRange := ⟨0, 0⟩
  let always : Expr := .node (.bool true) at_
  let final : Stmt := .node (.ifElse always (.node .empty at_) none) at_
  let guarded : Stmt := .node (.tryCatch [.node .breakLoop at_] none (some [final])) at_
  [.node (.whileLoop always (.node (.block [guarded]) at_)) at_, .node (.classDecl "Point" []) at_]

/-- the finalizer with its label is there three times -/
theorem verify_leavingLoop :
    ∃ program, compileProgram leavingLoop ⟨#[], ""⟩ = .ok program
      ∧ (program.labels.map Prod.fst) = [0, 5, 4, 6, 3, 7, 1] ∧ program.verify = .ok () := by
  obtain ⟨program, hok, hsize⟩ : ∃ program, compileProgram leavingLoop ⟨#[], ""⟩ = .ok program
      ∧ ∀ s ∈ program.sections.toList, s.code.size < 2 ^ 31 :=
    small_of_sizes [39, 2] (by cbv) (by decide)
  have hlabels : (compileProgram leavingLoop ⟨#[], ""⟩).map (fun p => p.labels.map Prod.fst)
      = .ok [0, 5, 4, 6, 3, 7, 1] := by cbv
  rw [hok] at hlabels
  exact ⟨program, hok, Except.ok.inj hlabels, (compileProgram_verify _ _ _ hok hsize).1⟩

end ScriptMachine
