import ScriptMachine.Proofs.Verified

/-!
# What the check promises

A program that passes the check may be written by hand.  Its labels stand in the section that jumps to
them, its constants exist, no section can be left at its end, and the heights that were found are a
fixed point: whoever follows the instructions along the ways of the check counts the same values.

* `Op.calleeArgc?`          a call is split over two instructions;
* `spreadHeights_spec`      the heights that the work list ends with agree with each other;
* `Program.heightAt?`       the height that the check finds at a place;
* `Accepted`                all that the check finds out about a program;
* `accepted_of_verify`      it holds of every program that passes;
* `Accepted.next`, `Accepted.lands`   where control goes on, there is an instruction;
* `Counts`                  the height of a place as a natural number;
* `Counts.takes_le`, `Counts.next`, `Counts.jump`   heights before and behind an instruction, if
                            no operand is beyond the 32 bits that the check counts in.
-/

namespace ScriptMachine

/-! ## calls -/

namespace Op

/-- the number of arguments of the call that an instruction prepares -/
def calleeArgc? : Op → Option Nat
  | fetch _ (.callVariable argc) => some argc
  | fetch _ (.callProperty argc) => some argc
  | _ => none

def isCall : Op → Bool
  | call _ _ => true
  | _ => false

end Op

/-! ## labels -/

theorem LabelTable.of_insertAll {table table' : LabelTable} {labels : List (Label × Location)}
    (h : insertAll table labels = .ok table') {l : Label} {loc : Location}
    (hl : table'.resolve? l = some loc) : table.resolve? l = some loc ∨ (l, loc) ∈ labels := by
  induction labels generalizing table with
  | nil =>
    cases h
    exact .inl hl
  | cons first rest ih =>
    obtain ⟨l', loc'⟩ := first
    rw [insertAll] at h
    split at h
    · cases h
    · rcases ih h with hold | hmem
      · rw [resolve?_insert] at hold
        split at hold
        · next heq =>
          subst heq
          cases hold
          exact .inr List.mem_cons_self
        · exact .inl hold
      · exact .inr (List.mem_cons_of_mem _ hmem)

theorem of_mem_labelsFrom {i pc : Nat} {code : List Instruction} {l : Label} {loc : Location}
    (h : (l, loc) ∈ labelsFrom i pc code) :
    ∃ k ins, loc = ⟨i, pc + k⟩ ∧ code[k]? = some ins ∧ ins.op = .label l := by
  induction code generalizing pc with
  | nil => cases h
  | cons first rest ih =>
    have hrest (h : (l, loc) ∈ labelsFrom i (pc + 1) rest) :
        ∃ k ins, loc = ⟨i, pc + k⟩ ∧ (first :: rest)[k]? = some ins ∧ ins.op = .label l := by
      obtain ⟨k, ins, hloc, hins, hop⟩ := ih h
      refine ⟨k + 1, ins, ?_, hins, hop⟩
      rw [hloc, Nat.add_assoc, Nat.add_comm 1 k]
    obtain ⟨op, range, starts⟩ := first
    cases op with
    | label l' =>
      rcases List.mem_cons.mp h with heq | h
      · cases heq
        exact ⟨0, _, rfl, rfl, rfl⟩
      · exact hrest h
    | _ => exact hrest h

theorem label_of_mem {program : Program} {l : Label} {loc : Location}
    (h : (l, loc) ∈ program.labels) :
    ∃ ins, program.instruction? loc.sectionIndex loc.pc = some ins ∧ ins.op = .label l := by
  obtain ⟨⟨s, i⟩, hs, hmem⟩ := List.mem_flatMap.mp h
  obtain ⟨k, ins, rfl, hins, hop⟩ := of_mem_labelsFrom hmem
  rw [List.mem_zipIdx_iff_getElem?, Array.getElem?_toList] at hs
  refine ⟨ins, ?_, hop⟩
  rw [Program.instruction?, hs, Nat.zero_add, Option.bind_some, ← Array.getElem?_toList]
  exact hins

/-- a label that is found stands where it is found -/
theorem label_of_resolve {program : Program} {table : LabelTable}
    (htable : program.labelTable = .ok table) {l : Label} {loc : Location}
    (hl : table.resolve? l = some loc) :
    ∃ ins, program.instruction? loc.sectionIndex loc.pc = some ins ∧ ins.op = .label l := by
  rcases LabelTable.of_insertAll htable hl with hold | hmem
  · have hempty : (∅ : Std.TreeMap Label Location)[l]? = some loc := hold
    rw [Std.TreeMap.getElem?_emptyc] at hempty
    cases hempty
  · exact label_of_mem hmem

/-! ## operands -/

theorem checkOperands_cons {program : Program} {table : LabelTable} {i : Nat} {name : String}
    {pc : Nat} {ins : Instruction} {rest : List Instruction}
    (h : program.checkOperands table i name pc (ins :: rest) = .ok ()) :
    OperandsOk program table i ins.op
      ∧ program.checkOperands table i name (pc + 1) rest = .ok () := by
  rw [Program.checkOperands] at h
  split at h
  · next index hop =>
    rw [hop] at h ⊢
    split at h
    · cases h
    · next hsize =>
      refine ⟨⟨fun index' heq => ?_, fun l hl => absurd hl (Option.some_ne_none l).symm⟩, h⟩
      cases heq
      exact Nat.not_le.mp hsize
  · next hop =>
    cases htarget : ins.op.jumpTarget? with
    | none =>
      rw [htarget] at h
      exact ⟨⟨fun index heq => absurd heq (hop index), fun l hl => by rw [htarget] at hl; cases hl⟩, h⟩
    | some l =>
      rw [htarget] at h
      dsimp only at h
      cases hl : table.resolve? l with
      | none =>
        rw [hl] at h
        cases h
      | some target =>
        rw [hl] at h
        dsimp only at h
        split at h
        · cases h
        · next hsection =>
          refine ⟨⟨fun index heq => absurd heq (hop index), fun l' hl' => ?_⟩, h⟩
          rw [htarget] at hl'
          cases hl'
          exact ⟨target, hl, Decidable.not_not.mp hsection⟩

theorem operandsOk_of_check {program : Program} {table : LabelTable} {i : Nat} {name : String}
    {pc : Nat} {code : List Instruction}
    (h : program.checkOperands table i name pc code = .ok ()) {ins : Instruction}
    (hins : ins ∈ code) : OperandsOk program table i ins.op := by
  induction code generalizing pc with
  | nil => cases hins
  | cons first rest ih =>
    obtain ⟨hfirst, hrest⟩ := checkOperands_cons h
    rcases List.mem_cons.mp hins with rfl | hins
    · exact hfirst
    · exact ih hrest hins

/-! ## heights -/

/-- The height of an instruction agrees with the heights of those where control goes on. -/
structure Agreed (table : LabelTable) (code : Array Instruction) (known : Heights code.size)
    (pc : Nat) (hpc : pc < code.size) (height : Int32) : Prop where
  enough : ¬height < code[pc].op.effect.1
  behind : ∀ pc' height', (pc', height') ∈ code[pc].op.successors table pc
      (height - code[pc].op.effect.1 + code[pc].op.effect.2) →
    ∀ hpc' : pc' < code.size, known[pc'] = some height'

/-- what a work list leads to -/
structure Spread (table : LabelTable) (code : Array Instruction) (known : Heights code.size)
    (work : List (Nat × Int32)) (known' : Heights code.size) : Prop where
  kept : ∀ (pc : Nat) (hpc : pc < code.size) height, known[pc] = some height →
    known'[pc] = some height
  reached : ∀ pc height, (pc, height) ∈ work → ∀ hpc : pc < code.size, known'[pc] = some height
  agreed : ∀ (pc : Nat) (hpc : pc < code.size) height, known[pc] = none →
    known'[pc] = some height → Agreed table code known' pc hpc height

theorem spreadHeights_spec {table : LabelTable} {name : String} {code : Array Instruction}
    {known known' : Heights code.size} {work : List (Nat × Int32)}
    (h : spreadHeights table name code known work = .ok known') :
    Spread table code known work known' := by
  fun_induction spreadHeights table name code known work with
  | case1 known =>
    cases h
    refine ⟨fun _ _ _ hpc => hpc, fun _ _ hmem => absurd hmem List.not_mem_nil, fun pc hpc height hnone hsome => ?_⟩
    rw [hnone] at hsome
    cases hsome
  | case2 known pc work hlt expected hpc ih =>
    have hrest := ih h
    refine ⟨hrest.kept, fun pc' height hmem hlt' => ?_, hrest.agreed⟩
    rcases List.mem_cons.mp hmem with heq | hmem
    · cases heq
      exact hrest.kept pc hlt expected hpc
    · exact hrest.reached pc' height hmem hlt'
  | case3 => cases h
  | case4 => cases h
  | case5 known pc height work hlt hpc pops pushes heffect hunder hcount hlen ih =>
    have hrest := ih h
    have hself : known'[pc] = some height := by
      refine hrest.kept pc hlt height ?_
      exact Vector.getElem_set_self hlt
    refine ⟨fun pc' hlt' height' hknown => ?_, fun pc' height' hmem hlt' => ?_,
      fun pc' hlt' height' hnone hsome => ?_⟩
    · refine hrest.kept pc' hlt' height' ?_
      have hne : pc ≠ pc' := by
        rintro rfl
        rw [hpc] at hknown
        cases hknown
      rwa [Vector.getElem_set_ne hlt hlt' hne]
    · rcases List.mem_cons.mp hmem with heq | hmem
      · cases heq
        exact hself
      · exact hrest.reached pc' height' (List.mem_append_right _ hmem) hlt'
    · by_cases heq : pc = pc'
      · subst heq
        rw [hself] at hsome
        cases hsome
        refine ⟨?_, fun pc' height' hmem hlt' => ?_⟩
        · rw [heffect]
          exact hunder
        · rw [heffect] at hmem
          exact hrest.reached pc' height' (List.mem_append_left _ hmem) hlt'
      · refine hrest.agreed pc' hlt' height' ?_ hsome
        rwa [Vector.getElem_set_ne hlt hlt' heq]
  | case6 known pc height work hge ih =>
    have hrest := ih h
    refine ⟨hrest.kept, fun pc' height' hmem hlt => ?_, hrest.agreed⟩
    rcases List.mem_cons.mp hmem with heq | hmem
    · cases heq
      exact absurd hlt hge
    · exact hrest.reached pc' height' hmem hlt

/-! ## the whole check -/

/-- the number of values that the check finds before the instruction at a place -/
def Program.heightAt? (program : Program) (loc : Location) : Option Int32 :=
  match program.sections[loc.sectionIndex]?.map program.stackHeights with
  | some (.ok heights) => heights[loc.pc]?.join
  | _ => none

/-- what the check finds out about a program -/
structure Accepted (program : Program) (table : LabelTable) : Prop where
  labels : program.labelTable = .ok table
  ends : ∀ (i : Nat) (s : Section), program.sections[i]? = some s →
    ∃ last, s.code.back? = some last ∧ last.op.endsSection = true
  operands : ∀ i pc (ins : Instruction), program.instruction? i pc = some ins →
    OperandsOk program table i ins.op
  heights : ∀ (i : Nat) (s : Section), program.sections[i]? = some s →
    ∃ known, s.heights table = .ok known

theorem of_verifySection {program : Program} {table : LabelTable} {i : Nat} {s : Section}
    (h : program.verifySection table i s = .ok ()) :
    (∃ last, s.code.back? = some last ∧ last.op.endsSection = true)
      ∧ program.checkOperands table i s.name 0 s.code.toList = .ok ()
      ∧ ∃ known, s.heights table = .ok known := by
  unfold Program.verifySection at h
  cases hback : s.code.back? with
  | none =>
    rw [hback] at h
    cases h
  | some last =>
    rw [hback] at h
    dsimp only at h
    cases hends : last.op.endsSection with
    | false =>
      rw [hends] at h
      cases h
    | true =>
      rw [hends] at h
      cases hoperands : program.checkOperands table i s.name 0 s.code.toList with
      | error e =>
        rw [hoperands] at h
        cases h
      | ok u =>
        rw [hoperands] at h
        cases hheights : s.heights table with
        | error e =>
          rw [hheights] at h
          cases h
        | ok known => exact ⟨⟨last, rfl, hends⟩, rfl, known, rfl⟩

theorem of_verifySections {program : Program} {table : LabelTable} {i : Nat}
    {sections : List Section} (h : program.verifySections table i sections = .ok ()) {k : Nat}
    {s : Section} (hs : sections[k]? = some s) : program.verifySection table (i + k) s = .ok () := by
  induction sections generalizing i k with
  | nil => cases hs
  | cons first rest ih =>
    rw [Program.verifySections] at h
    cases hfirst : program.verifySection table i first with
    | error e =>
      rw [hfirst] at h
      cases h
    | ok u =>
      rw [hfirst] at h
      cases k with
      | zero =>
        cases hs
        exact hfirst
      | succ k =>
        have hrest := ih h hs
        rwa [Nat.add_assoc, Nat.add_comm 1 k] at hrest

/-- the check finds the label table -/
theorem labelTable_of_verify {program : Program} (h : program.verify = .ok ()) :
    ∃ table, program.labelTable = .ok table := by
  unfold Program.verify Program.checkedLabels at h
  cases htable : program.labelTable with
  | error l =>
    rw [htable] at h
    cases h
  | ok table => exact ⟨table, rfl⟩

/-- a program that passes the check -/
theorem accepted_of_verify {program : Program} {table : LabelTable}
    (htable : program.labelTable = .ok table) (h : program.verify = .ok ()) :
    Accepted program table := by
  have hsections : program.verifySections table 0 program.sections.toList = .ok () := by
    unfold Program.verify Program.checkedLabels at h
    rwa [htable] at h
  have hsection (i : Nat) (s : Section) (hs : program.sections[i]? = some s) :
      program.verifySection table i s = .ok () := by
    have hone := of_verifySections hsections (Array.getElem?_toList.trans hs)
    rwa [Nat.zero_add] at hone
  refine ⟨htable, fun i s hs => (of_verifySection (hsection i s hs)).1, fun i pc ins hins => ?_,
    fun i s hs => (of_verifySection (hsection i s hs)).2.2⟩
  obtain ⟨s, hs, hpc⟩ := Option.bind_eq_some_iff.mp hins
  exact operandsOk_of_check (of_verifySection (hsection i s hs)).2.1
    (Array.mem_toList_iff.mpr (Array.mem_of_getElem? hpc))

namespace Accepted

variable {program : Program} {table : LabelTable}

/-! ### instructions that exist -/

/-- a section is not empty -/
theorem first (acc : Accepted program table) {i : Nat} (hi : i < program.sections.size) :
    (program.instruction? i 0).isSome := by
  obtain ⟨last, hlast, -⟩ := acc.ends i _ (Array.getElem?_eq_getElem hi)
  have hpos := Array.size_pos_of_mem (Array.mem_of_back? hlast)
  rw [Program.instruction?, Array.getElem?_eq_getElem hi]
  exact Option.isSome_iff_exists.mpr ⟨_, Array.getElem?_eq_getElem hpos⟩

/-- behind an instruction that control can go on from there is another one -/
theorem next (acc : Accepted program table) {i pc : Nat} {ins : Instruction}
    (hins : program.instruction? i pc = some ins) (hgo : ins.op.isTerminator = false) :
    (program.instruction? i (pc + 1)).isSome := by
  obtain ⟨s, hs, hpc⟩ := Option.bind_eq_some_iff.mp hins
  obtain ⟨last, hlast, hends⟩ := acc.ends i s hs
  have hlt : pc < s.code.size := (Array.getElem?_eq_some_iff.mp hpc).1
  have hnext : pc + 1 < s.code.size := by
    rcases Nat.lt_or_eq_of_le (Nat.succ_le_of_lt hlt) with hlt | heq
    · exact hlt
    · -- the last instruction of a section does not go on
      have hback : s.code.back? = s.code[pc]? := by
        rw [Array.back?_eq_getElem?, ← heq]
        rfl
      rw [hback, hpc] at hlast
      cases hlast
      cases hop : ins.op with
      | ret | halt | throw | jump _ =>
        rw [hop] at hgo
        cases hgo
      | _ =>
        rw [hop] at hends
        cases hends
  rw [Program.instruction?, hs]
  exact Option.isSome_iff_exists.mpr ⟨_, Array.getElem?_eq_getElem hnext⟩

/-- a jump stays in its section and leads to an instruction -/
theorem lands (acc : Accepted program table) {i pc : Nat} {ins : Instruction} {l : Label}
    (hins : program.instruction? i pc = some ins) (hl : ins.op.jumpTarget? = some l) :
    ∃ pc', table.resolve? l = some ⟨i, pc'⟩ ∧ (program.instruction? i pc').isSome := by
  obtain ⟨⟨i', pc'⟩, hresolve, rfl⟩ := (acc.operands i pc ins hins).target l hl
  obtain ⟨ins', hins', -⟩ := label_of_resolve acc.labels hresolve
  exact ⟨pc', hresolve, Option.isSome_iff_exists.mpr ⟨ins', hins'⟩⟩

/-! ### heights -/

theorem heightAt?_iff (acc : Accepted program table) {i : Nat} {s : Section}
    (hs : program.sections[i]? = some s) {known : Heights s.code.size}
    (hknown : s.heights table = .ok known) {pc : Nat} {height : Int32} :
    program.heightAt? ⟨i, pc⟩ = some height ↔ ∃ hpc : pc < s.code.size, known[pc] = some height := by
  have hheights : program.stackHeights s = .ok known.toList := by
    unfold Program.stackHeights Program.checkedLabels
    rw [acc.labels]
    show (s.heights table >>= _) = _
    rw [hknown]
    rfl
  unfold Program.heightAt?
  rw [hs, Option.map_some, hheights]
  dsimp only
  rw [Option.join_eq_some_iff, Vector.getElem?_toList, Vector.getElem?_eq_some_iff]

/-- a section starts without values -/
theorem height_start (acc : Accepted program table) {i : Nat} (hi : i < program.sections.size) :
    program.heightAt? ⟨i, 0⟩ = some 0 := by
  have hs := Array.getElem?_eq_getElem hi
  obtain ⟨known, hknown⟩ := acc.heights i _ hs
  obtain ⟨last, hlast, -⟩ := acc.ends i _ hs
  have hpos := Array.size_pos_of_mem (Array.mem_of_back? hlast)
  refine (acc.heightAt?_iff hs hknown).mpr ⟨hpos, ?_⟩
  exact (spreadHeights_spec hknown).reached 0 0 List.mem_cons_self hpos

/-- An instruction with a height finds the values that it takes, and where control goes on the height
is what it leaves. -/
theorem height_agreed (acc : Accepted program table) {i pc : Nat} {ins : Instruction} {height : Int32}
    (hins : program.instruction? i pc = some ins)
    (hheight : program.heightAt? ⟨i, pc⟩ = some height) :
    ¬height < ins.op.effect.1
      ∧ ∀ pc' height', (pc', height') ∈ ins.op.successors table pc
          (height - ins.op.effect.1 + ins.op.effect.2) →
        (program.instruction? i pc').isSome → program.heightAt? ⟨i, pc'⟩ = some height' := by
  obtain ⟨s, hs, hpc⟩ := Option.bind_eq_some_iff.mp hins
  obtain ⟨known, hknown⟩ := acc.heights i s hs
  obtain ⟨hlt, hget⟩ := (acc.heightAt?_iff hs hknown).mp hheight
  obtain ⟨-, rfl⟩ := Array.getElem?_eq_some_iff.mp hpc
  obtain ⟨henough, hbehind⟩ := (spreadHeights_spec hknown).agreed pc hlt height
    (Vector.getElem_replicate hlt) hget
  refine ⟨henough, fun pc' height' hmem hexists => ?_⟩
  rw [Program.instruction?, hs] at hexists
  obtain ⟨ins', hins'⟩ := Option.isSome_iff_exists.mp hexists
  have hlt' := (Array.getElem?_eq_some_iff.mp hins').1
  exact (acc.heightAt?_iff hs hknown).mpr ⟨hlt', hbehind pc' height' hmem hlt'⟩

end Accepted

/-! ## heights as natural numbers -/

namespace Op

theorem next_mem_successors {op : Op} (table : LabelTable) (pc : Nat) (after : Int32)
    (h : op.isTerminator = false) : (pc + 1, after) ∈ op.successors table pc after := by
  have hnext : (pc + 1, after) ∈ if op.isTerminator then [] else [(pc + 1, after)] := by
    rw [h]
    exact List.mem_cons_self
  unfold successors
  cases op with
  | jump _ | jumpFalse _ | jumpTrue _ | enterTry _ => exact List.mem_append_left _ hnext
  | _ => exact hnext

theorem jump_mem_successors {op : Op} {table : LabelTable} (pc : Nat) (after : Int32) {l : Label}
    {k : Nat} {target : Location} (h : op.jump? = some (l, k))
    (hl : table.resolve? l = some target) :
    (target.pc, after + Int32.ofNat k) ∈ op.successors table pc after := by
  have hjump (height : Int32) :
      (target.pc, height) ∈ ((table.resolve? l).map fun target => (target.pc, height)).toList := by
    rw [hl]
    exact List.mem_cons_self
  unfold successors
  cases op with
  | jump _ | jumpFalse _ | jumpTrue _ =>
    cases h
    refine List.mem_append_right _ ?_
    rw [show after + Int32.ofNat 0 = after from Int32.add_zero after]
    exact hjump after
  | enterTry _ =>
    cases h
    exact List.mem_append_right _ (hjump _)
  | _ => cases h

theorem leaves_jump_le {op : Op} {l : Label} {k : Nat} (h : op.jump? = some (l, k)) :
    op.leaves + k ≤ op.takes + 1 := by
  cases op with
  | jump _ | jumpFalse _ | jumpTrue _ | enterTry _ =>
    cases h
    simp [takes, leaves]
  | _ => cases h

/-- the labels that the check follows are among the targets of jumps -/
theorem jumpTarget?_of_jump? {op : Op} {l : Label} {k : Nat} (h : op.jump? = some (l, k)) :
    op.jumpTarget? = some l := by
  cases op with
  | jump _ | jumpFalse _ | jumpTrue _ | enterTry _ =>
    cases h
    rfl
  | _ => cases h

end Op

theorem Int32.eq_of_ofNat {m n : Nat} (hm : m ≤ 2 ^ 31) (hn : n < 2 ^ 31)
    (h : Int32.ofNat m = Int32.ofNat n) : m = n := by
  have hbits := congrArg (BitVec.toNat ∘ Int32.toBitVec) h
  simp at hbits
  omega

/-- what is not below a natural number is one -/
theorem Int32.exists_ofNat {height : Int32} {k : Nat} (hk : k < 2 ^ 31)
    (h : ¬height < Int32.ofNat k) : ∃ n, height = Int32.ofNat n ∧ n < 2 ^ 31 ∧ k ≤ n := by
  rw [Int32.lt_iff_toInt_lt, Int32.toInt_ofNat_of_lt hk] at h
  have hlt := height.toInt_lt
  refine ⟨height.toInt.toNat, Int32.toInt_inj.mp ?_, by omega, by omega⟩
  rw [Int32.toInt_ofNat_of_lt (by omega)]
  omega

/-- no instruction of section `i` that the check reaches takes more values than it can count -/
def Program.FitsCount (program : Program) (i : Nat) : Prop :=
  ∀ pc (ins : Instruction), program.instruction? i pc = some ins →
    (program.heightAt? ⟨i, pc⟩).isSome → ins.op.takes < 2 ^ 31

/-- the check counts `n` values before the instruction at a place -/
structure Counts (program : Program) (loc : Location) (n : Nat) : Prop where
  height : program.heightAt? loc = some (Int32.ofNat n)
  small : n < 2 ^ 31

namespace Counts

variable {program : Program} {table : LabelTable} {i pc n : Nat} {ins : Instruction}

theorem start (acc : Accepted program table) (hi : i < program.sections.size) :
    Counts program ⟨i, 0⟩ 0 := ⟨acc.height_start hi, Nat.two_pow_pos 31⟩

/-- heights are natural numbers, and there are as many values as the instruction takes -/
theorem ofHeight (acc : Accepted program table) (hfits : program.FitsCount i)
    (hins : program.instruction? i pc = some ins) {height : Int32}
    (h : program.heightAt? ⟨i, pc⟩ = some height) :
    ∃ n, height = Int32.ofNat n ∧ n < 2 ^ 31 ∧ ins.op.takes ≤ n := by
  have hsmall := hfits pc ins hins (by rw [h]; rfl)
  have henough := (acc.height_agreed hins h).1
  rw [Op.effect_eq] at henough
  exact Int32.exists_ofNat hsmall henough

theorem unique (h : Counts program ⟨i, pc⟩ n) {m : Nat} (h' : Counts program ⟨i, pc⟩ m) : n = m :=
  Int32.eq_of_ofNat (Nat.le_of_lt h.small) h'.small (Option.some.inj (h.height.symm.trans h'.height))

theorem takes_le (h : Counts program ⟨i, pc⟩ n) (acc : Accepted program table)
    (hfits : program.FitsCount i) (hins : program.instruction? i pc = some ins) :
    ins.op.takes ≤ n := by
  obtain ⟨m, heq, hm, hle⟩ := ofHeight acc hfits hins h.height
  rwa [Int32.eq_of_ofNat (Nat.le_of_lt h.small) hm heq]

/-- Where control goes on there is a height again.  It is at most one more than before, so it cannot
have run over. -/
theorem behind (h : Counts program ⟨i, pc⟩ n) (acc : Accepted program table)
    (hfits : program.FitsCount i) (hins : program.instruction? i pc = some ins) {pc' k : Nat}
    (hk : ins.op.leaves + k ≤ ins.op.takes + 1)
    (hmem : (pc', Int32.ofNat n - Int32.ofNat ins.op.takes + Int32.ofNat ins.op.leaves
      + Int32.ofNat k) ∈ ins.op.successors table pc
        (Int32.ofNat n - Int32.ofNat ins.op.takes + Int32.ofNat ins.op.leaves))
    (hexists : (program.instruction? i pc').isSome) :
    Counts program ⟨i, pc'⟩ (n - ins.op.takes + ins.op.leaves + k) := by
  have htakes := h.takes_le acc hfits hins
  obtain ⟨ins', hins'⟩ := Option.isSome_iff_exists.mp hexists
  have hbehind := (acc.height_agreed hins h.height).2
  rw [Op.effect_eq] at hbehind
  have hheight := hbehind pc' _ hmem hexists
  rw [← Int32.ofNat_sub _ _ htakes, ← Int32.ofNat_add, ← Int32.ofNat_add] at hheight
  obtain ⟨m, heq, hm, -⟩ := ofHeight acc hfits hins' hheight
  have hbound := h.small
  have hsum := Int32.eq_of_ofNat (by omega) hm heq
  exact ⟨hheight, by omega⟩

theorem next (h : Counts program ⟨i, pc⟩ n) (acc : Accepted program table)
    (hfits : program.FitsCount i) (hins : program.instruction? i pc = some ins)
    (hgo : ins.op.isTerminator = false) :
    Counts program ⟨i, pc + 1⟩ (n - ins.op.takes + ins.op.leaves) := by
  refine h.behind acc hfits hins (k := 0) ins.op.leaves_le ?_ (acc.next hins hgo)
  rw [show ∀ x : Int32, x + Int32.ofNat 0 = x from Int32.add_zero]
  exact Op.next_mem_successors table pc _ hgo

theorem jump (h : Counts program ⟨i, pc⟩ n) (acc : Accepted program table)
    (hfits : program.FitsCount i) (hins : program.instruction? i pc = some ins) {l : Label} {k : Nat}
    (hjump : ins.op.jump? = some (l, k)) {pc' : Nat} (hl : table.resolve? l = some ⟨i, pc'⟩) :
    Counts program ⟨i, pc'⟩ (n - ins.op.takes + ins.op.leaves + k) := by
  obtain ⟨pc'', hl', hexists⟩ := acc.lands hins (Op.jumpTarget?_of_jump? hjump)
  rw [hl] at hl'
  cases hl'
  exact h.behind acc hfits hins (Op.leaves_jump_le hjump) (Op.jump_mem_successors pc _ hjump hl) hexists

end Counts

/-! ## programs made by hand -/

/-- a program with a main section only, made by hand -/
def handMade (ops : List Op) : Program where
  constants := #[.null]
  sections := #[⟨"main", (ops.map fun op => ⟨op, none, false⟩).toArray⟩]
  functions := #[]
  classes := []
  source := ⟨#[], ""⟩
  functionNames := []

/-- the instructions of a program made by hand stand in its main section -/
theorem op_of_handMade {ops : List Op} {i pc : Nat} {ins : Instruction}
    (h : (handMade ops).instruction? i pc = some ins) : i = 0 ∧ ops[pc]? = some ins.op := by
  obtain ⟨s, hs, hins⟩ := Option.bind_eq_some_iff.mp h
  cases i with
  | zero =>
    cases hs
    have hins : (ops.map fun op => (⟨op, none, false⟩ : Instruction))[pc]? = some ins := by
      rw [← List.getElem?_toArray]
      exact hins
    rw [List.getElem?_map] at hins
    obtain ⟨op, hop, rfl⟩ := Option.map_eq_some_iff.mp hins
    exact ⟨rfl, hop⟩
  | succ i => cases hs

end ScriptMachine
