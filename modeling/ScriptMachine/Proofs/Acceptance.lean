import ScriptMachine.Proofs.Checked

/-!
# Which programs pass the check

The check follows the ways of control with a work list, the last place found first, and stops at the
first conflict.  What it accepts does not depend on that order: a program passes exactly if there are
numbers of values for the instructions that can be reached which fit all ways between them.

* `Way`, `Reached`        where control can go in a section, and what can be reached from its start;
* `Balances`              numbers of values that fit all ways;
* `Program.Orderly`       what a program has to be like, without the work list;
* `Program.Fits`          programs that can be counted in 32 bits;
* `Balances.counts`       the check finds those numbers where control can get;
* `KeepsTo`               the work list never leaves them;
* `Accepted.orderly`, `Program.Orderly.accepted`   the two directions;
* `verify_iff_orderly`    the main statement.
-/

namespace ScriptMachine

/-! ## ways of control -/

/-- Where control can go from an operation at `pc` of section `i`, and how many values more there are
then: to the next instruction, to the target of a jump, and from the start of a region to its handler,
which gets the thrown value. -/
inductive Way (program : Program) (i pc : Nat) (op : Op) : Nat → Nat → Prop where
  | next : op.isTerminator = false → Way program i pc op (pc + 1) 0
  | jump {l : Label} {k pc' : Nat} {ins : Instruction} : op.jump? = some (l, k) →
    program.instruction? i pc' = some ins → ins.op = .label l → Way program i pc op pc' k

/-- what control can reach from the start of a section -/
inductive Reached (program : Program) (i : Nat) : Nat → Prop where
  | start : Reached program i 0
  | way {pc pc' k : Nat} {ins : Instruction} : Reached program i pc →
    program.instruction? i pc = some ins → Way program i pc ins.op pc' k → Reached program i pc'

/-- `H pc` values before each instruction that is reached fit all ways of section `i`. -/
structure Balances (program : Program) (i : Nat) (H : Nat → Nat) : Prop where
  start : H 0 = 0
  enough : ∀ pc ins, Reached program i pc → program.instruction? i pc = some ins →
    ins.op.takes ≤ H pc
  way : ∀ pc ins pc' k, Reached program i pc → program.instruction? i pc = some ins →
    Way program i pc ins.op pc' k → H pc' = H pc - ins.op.takes + ins.op.leaves + k

/-- what a program has to be like to pass the check -/
structure Program.Orderly (program : Program) : Prop where
  labels : ∀ i pc ins i' pc' ins' l,
    program.instruction? i pc = some ins → ins.op = .label l →
    program.instruction? i' pc' = some ins' → ins'.op = .label l → i = i' ∧ pc = pc'
  ends : ∀ (i : Nat) (s : Section), program.sections[i]? = some s →
    ∃ last, s.code.back? = some last ∧
      (last.op = .ret ∨ last.op = .halt ∨ last.op = .throw ∨ ∃ l, last.op = .jump l)
  constants : ∀ i pc ins index, program.instruction? i pc = some ins → ins.op = .const index →
    index < program.constants.size
  targets : ∀ i pc ins l, program.instruction? i pc = some ins → ins.op.jumpTarget? = some l →
    ∃ pc' ins', program.instruction? i pc' = some ins' ∧ ins'.op = .label l
  heights : ∀ i < program.sections.size, ∃ H, Balances program i H

/-- Programs that can be counted in 32 bits.  A call has at most 255 arguments. -/
structure Program.Fits (program : Program) : Prop where
  pick : ∀ i pc ins n, program.instruction? i pc = some ins → ins.op = .pick n → n + 1 < 2 ^ 31
  makeArray : ∀ i pc ins n, program.instruction? i pc = some ins → ins.op = .makeArray n → n < 2 ^ 31
  call : ∀ i pc ins argc bound, program.instruction? i pc = some ins → ins.op = .call argc bound →
    argc < 2 ^ 8
  heights : ∀ i H, Balances program i H → ∀ pc, Reached program i pc → H pc < 2 ^ 31

theorem Program.Fits.fitsCount {program : Program} (h : program.Fits) (i : Nat) :
    program.FitsCount i := by
  intro pc ins hins _
  cases hop : ins.op with
  | pick n => exact h.pick i pc ins n hins hop
  | makeArray n => exact h.makeArray i pc ins n hins hop
  | call argc bound =>
    have hargc := h.call i pc ins argc bound hins hop
    simp only [Op.takes]
    split <;> omega
  | store name property => cases property <;> simp [Op.takes]
  | fetch name access => cases access <;> simp [Op.takes]
  | _ => simp [Op.takes]

/-! ## labels -/

namespace LabelTable

/-- labels that got into a table are found, and those that were there stay -/
theorem resolve?_of_insertAll {table table' : LabelTable} {labels : List (Label × Location)}
    (h : insertAll table labels = .ok table') :
    (∀ l loc, table.resolve? l = some loc → table'.resolve? l = some loc)
      ∧ ∀ l loc, (l, loc) ∈ labels → table'.resolve? l = some loc := by
  induction labels generalizing table with
  | nil =>
    cases h
    exact ⟨fun _ _ h => h, nofun⟩
  | cons first rest ih =>
    obtain ⟨l, loc⟩ := first
    rw [insertAll] at h
    split at h
    · cases h
    · next hnew =>
      obtain ⟨hold, hin⟩ := ih h
      have hself : table'.resolve? l = some loc := by
        refine hold l loc ?_
        rw [resolve?_insert, if_pos rfl]
      refine ⟨fun l' loc' hl' => hold l' loc' ?_, fun l' loc' hmem => ?_⟩
      · have hne : l ≠ l' := by
          rintro rfl
          rw [hnew] at hl'
          cases hl'
        rwa [resolve?_insert, if_neg hne]
      · rcases List.mem_cons.mp hmem with heq | hmem
        · cases heq
          exact hself
        · exact hin l' loc' hmem

end LabelTable

theorem resolve_of_label {program : Program} {table : LabelTable}
    (htable : program.labelTable = .ok table) {i pc : Nat} {ins : Instruction} {l : Label}
    (hins : program.instruction? i pc = some ins) (hop : ins.op = .label l) :
    table.resolve? l = some ⟨i, pc⟩ :=
  (LabelTable.resolve?_of_insertAll htable).2 l _ (mem_labels hins hop)

/-- the labels of a section are listed from front to back -/
theorem pairwise_labelsFrom (i pc : Nat) (code : List Instruction) :
    (labelsFrom i pc code).Pairwise fun e e' => e.2 ≠ e'.2 := by
  induction code generalizing pc with
  | nil => exact List.Pairwise.nil
  | cons first rest ih =>
    obtain ⟨op, range, starts⟩ := first
    cases op with
    | label l =>
      refine List.pairwise_cons.mpr ⟨fun e hmem heq => ?_, ih (pc + 1)⟩
      obtain ⟨k, -, hloc, -, -⟩ := of_mem_labelsFrom hmem
      rw [← heq] at hloc
      have hpc := congrArg Location.pc hloc
      dsimp only at hpc
      omega
    | _ => exact ih (pc + 1)

/-- no place is listed twice -/
theorem pairwise_labels (program : Program) :
    program.labels.Pairwise fun e e' => e.2 ≠ e'.2 := by
  refine List.pairwise_flatMap.mpr ⟨fun e _ => pairwise_labelsFrom _ _ _, ?_⟩
  have hdistinct := List.pairwise_map.mp (List.nodup_zipIdx_map_snd program.sections.toList)
  refine hdistinct.imp fun hne e hmem e' hmem' heq => hne ?_
  obtain ⟨k, -, hloc, -, -⟩ := of_mem_labelsFrom hmem
  obtain ⟨k', -, hloc', -, -⟩ := of_mem_labelsFrom hmem'
  rw [hloc, hloc'] at heq
  exact congrArg Location.sectionIndex heq

theorem Program.Orderly.labelTable {program : Program} (h : program.Orderly) :
    ∃ table, program.labelTable = .ok table := by
  have hnodup : (program.labels.map Prod.fst).Nodup := by
    refine List.pairwise_map.mpr ((pairwise_labels program).imp_of_mem ?_)
    rintro ⟨l, ⟨i, pc⟩⟩ ⟨l', ⟨i', pc'⟩⟩ hmem hmem' hne rfl
    obtain ⟨ins, hins, hop⟩ := label_of_mem hmem
    obtain ⟨ins', hins', hop'⟩ := label_of_mem hmem'
    obtain ⟨rfl, rfl⟩ := h.labels i pc ins i' pc' ins' l hins hop hins' hop'
    exact hne rfl
  obtain ⟨table, htable, -⟩ := LabelTable.ofLabels_nodup _ hnodup
  exact ⟨table, htable⟩

/-! ## from the check to the numbers -/

/-- a way of the check with the values that come over it -/
theorem way_of_mem_successors {program : Program} {table : LabelTable}
    (htable : program.labelTable = .ok table) {i pc pc' : Nat} {op : Op} {after height : Int32}
    (hop : OperandsOk program table i op) (hmem : (pc', height) ∈ op.successors table pc after) :
    ∃ k, Way program i pc op pc' k ∧ height = after + Int32.ofNat k := by
  rcases Op.mem_successors hmem with ⟨hgo, rfl, rfl⟩ | ⟨l, k, target, hjump, htarget, rfl, rfl⟩
  · exact ⟨0, .next hgo, (Int32.add_zero _).symm⟩
  · obtain ⟨target', htarget', rfl⟩ := hop.target l (Op.jumpTarget?_of_jump? hjump)
    rw [htarget] at htarget'
    cases htarget'
    obtain ⟨ins, hins, hlabel⟩ := label_of_resolve htable htarget
    exact ⟨k, .jump hjump hins hlabel, rfl⟩

section
variable {program : Program} {table : LabelTable} {i : Nat}

theorem Counts.way {pc pc' n k : Nat} {ins : Instruction} (h : Counts program ⟨i, pc⟩ n)
    (acc : Accepted program table) (hfits : program.FitsCount i)
    (hins : program.instruction? i pc = some ins) (hway : Way program i pc ins.op pc' k) :
    Counts program ⟨i, pc'⟩ (n - ins.op.takes + ins.op.leaves + k) := by
  cases hway with
  | next hgo => exact h.next acc hfits hins hgo
  | jump hjump hins' hlabel =>
    exact h.jump acc hfits hins hjump (resolve_of_label acc.labels hins' hlabel)

/-- the check counts the values of all that can be reached -/
theorem Reached.counts {pc : Nat} (h : Reached program i pc) (acc : Accepted program table)
    (hfits : program.FitsCount i) (hi : i < program.sections.size) :
    ∃ n, Counts program ⟨i, pc⟩ n := by
  induction h with
  | start => exact ⟨0, .start acc hi⟩
  | way _ hins hway ih =>
    obtain ⟨n, hn⟩ := ih
    exact ⟨_, hn.way acc hfits hins hway⟩

/-- what it counts are the numbers that fit all ways -/
theorem Balances.counts {H : Nat → Nat} (hH : Balances program i H) (acc : Accepted program table)
    (hfits : program.FitsCount i) (hi : i < program.sections.size) {pc : Nat}
    (h : Reached program i pc) : Counts program ⟨i, pc⟩ (H pc) := by
  induction h with
  | start =>
    rw [hH.start]
    exact .start acc hi
  | way hpc hins hway ih =>
    rw [hH.way _ _ _ _ hpc hins hway]
    exact ih.way acc hfits hins hway

/-- the height of a place as a number -/
def Program.countAt (program : Program) (i pc : Nat) : Nat :=
  ((program.heightAt? ⟨i, pc⟩).map fun height => height.toInt.toNat).getD 0

theorem Counts.countAt_eq {pc n : Nat} (h : Counts program ⟨i, pc⟩ n) : program.countAt i pc = n := by
  unfold Program.countAt
  rw [h.height, Option.map_some, Option.getD_some, Int32.toInt_ofNat_of_lt h.small, Int.toNat_natCast]

/-- the heights of the check fit all ways -/
theorem Accepted.balances (acc : Accepted program table) (hfits : program.FitsCount i)
    (hi : i < program.sections.size) : Balances program i (program.countAt i) := by
  refine ⟨(Counts.start acc hi).countAt_eq, fun pc ins hpc hins => ?_,
    fun pc ins pc' k hpc hins hway => ?_⟩
  · obtain ⟨n, hn⟩ := hpc.counts acc hfits hi
    rw [hn.countAt_eq]
    exact hn.takes_le acc hfits hins
  · obtain ⟨n, hn⟩ := hpc.counts acc hfits hi
    rw [hn.countAt_eq]
    exact (hn.way acc hfits hins hway).countAt_eq

end

theorem Accepted.orderly {program : Program} {table : LabelTable} (acc : Accepted program table)
    (hfits : ∀ i, program.FitsCount i) : program.Orderly := by
  refine ⟨fun i pc ins i' pc' ins' l hins hop hins' hop' => ?_, fun i s hs => ?_,
    fun i pc ins index hins => (acc.operands i pc ins hins).constant index,
    fun i pc ins l hins hl => ?_, fun i hi => ⟨_, acc.balances (hfits i) hi⟩⟩
  · have hsame := (resolve_of_label acc.labels hins hop).symm.trans
      (resolve_of_label acc.labels hins' hop')
    cases hsame
    exact ⟨rfl, rfl⟩
  · obtain ⟨last, hlast, hends⟩ := acc.ends i s hs
    refine ⟨last, hlast, ?_⟩
    cases hop : last.op with
    | ret | halt | throw | jump l => simp
    | _ =>
      rw [hop] at hends
      cases hends
  · obtain ⟨target, htarget, rfl⟩ := (acc.operands i pc ins hins).target l hl
    obtain ⟨ins', hins', hlabel⟩ := label_of_resolve acc.labels htarget
    exact ⟨target.pc, ins', hins', hlabel⟩

/-! ## from the numbers to the check -/

/-- A work list and the heights so far follow the numbers `H` along the ways of section `i`. -/
structure KeepsTo (program : Program) (i : Nat) (H : Nat → Nat) {n : Nat} (known : Heights n)
    (work : List (Nat × Int32)) : Prop where
  heights : ∀ (pc : Nat) (h : pc < n) (height : Int32), known[pc] = some height →
    Reached program i pc ∧ height = Int32.ofNat (H pc)
  pending : ∀ pc height, (pc, height) ∈ work →
    Reached program i pc ∧ height = Int32.ofNat (H pc)

section
variable {program : Program} {table : LabelTable} {i : Nat} {H : Nat → Nat}

theorem KeepsTo.start (hH : Balances program i H) (n : Nat) :
    KeepsTo program i H (Vector.replicate n none : Heights n) [(0, 0)] := by
  refine ⟨fun pc hpc height hget => ?_, fun pc height hmem => ?_⟩
  · rw [Vector.getElem_replicate] at hget
    cases hget
  · cases List.mem_singleton.mp hmem
    rw [hH.start]
    exact ⟨.start, rfl⟩

theorem KeepsTo.visit (htable : program.labelTable = .ok table) (hH : Balances program i H) {pc n : Nat}
    {known : Heights n} {height : Int32} {work : List (Nat × Int32)} {ins : Instruction}
    (h : KeepsTo program i H known ((pc, height) :: work)) (hlt : pc < n)
    (hins : program.instruction? i pc = some ins) (hop : OperandsOk program table i ins.op) :
    KeepsTo program i H (known.set pc (some height)) (ins.op.successors table pc
      (height - Int32.ofNat ins.op.takes + Int32.ofNat ins.op.leaves) ++ work) := by
  obtain ⟨hpc, rfl⟩ := h.pending pc height List.mem_cons_self
  refine ⟨fun pc' hlt' height' hget => ?_, fun pc' height' hmem => ?_⟩
  · by_cases heq : pc = pc'
    · subst heq
      rw [Vector.getElem_set_self] at hget
      cases hget
      exact ⟨hpc, rfl⟩
    · rw [Vector.getElem_set_ne hlt hlt' heq] at hget
      exact h.heights pc' hlt' height' hget
  · rcases List.mem_append.mp hmem with hmem | hmem
    · obtain ⟨k, hway, rfl⟩ := way_of_mem_successors htable hop hmem
      refine ⟨hpc.way hins hway, ?_⟩
      rw [hH.way pc ins pc' k hpc hins hway, Int32.ofNat_add, Int32.ofNat_add,
        Int32.ofNat_sub _ _ (hH.enough pc ins hpc hins)]
    · exact h.pending pc' height' (List.mem_cons_of_mem _ hmem)

/-- the work list comes to its end with the numbers that fit all ways, and only where control can get -/
theorem Balances.heights (hH : Balances program i H) (htable : program.labelTable = .ok table)
    (hsmall : ∀ pc, Reached program i pc → H pc < 2 ^ 31) {s : Section}
    (hs : program.sections[i]? = some s)
    (hoperands : ∀ pc ins, program.instruction? i pc = some ins → OperandsOk program table i ins.op) :
    ∃ known, s.heights table = .ok known ∧ KeepsTo program i H known [] := by
  have hins (pc : Nat) (hlt : pc < s.code.size) : program.instruction? i pc = some s.code[pc] := by
    rw [Program.instruction?, hs]
    exact Array.getElem?_eq_getElem hlt
  refine spreadHeights_keeps (J := KeepsTo program i H) (fun known first work h => ?_)
    (fun known pc height work hlt expected h hpc => ?_)
    (fun known pc height work hlt h hpc => ?_)
    (fun known pc height work hlt h hpc => ?_) _ _ (.start hH _)
  · exact ⟨h.heights, fun pc height hmem => h.pending pc height (List.mem_cons_of_mem _ hmem)⟩
  · rw [(h.heights pc hlt expected hpc).2, (h.pending pc height List.mem_cons_self).2]
  · obtain ⟨hreached, rfl⟩ := h.pending pc height List.mem_cons_self
    have henough := hH.enough pc _ hreached (hins pc hlt)
    have hbound := hsmall pc hreached
    rw [Int32.ofNat_lt_iff_lt (by omega) (by omega)]
    omega
  · exact h.visit htable hH hlt (hins pc hlt) (hoperands pc _ (hins pc hlt))

end

theorem Program.Orderly.accepted {program : Program} (h : program.Orderly) (hfits : program.Fits) :
    ∃ table, Accepted program table := by
  obtain ⟨table, htable⟩ := h.labelTable
  have hoperands (i pc : Nat) (ins : Instruction) (hins : program.instruction? i pc = some ins) :
      OperandsOk program table i ins.op := by
    refine ⟨fun index => h.constants i pc ins index hins, fun l hl => ?_⟩
    obtain ⟨pc', ins', hins', hlabel⟩ := h.targets i pc ins l hins hl
    exact ⟨_, resolve_of_label htable hins' hlabel, rfl⟩
  refine ⟨table, htable, fun i s hs => ?_, hoperands, fun i s hs => ?_⟩
  · obtain ⟨last, hlast, hop⟩ := h.ends i s hs
    refine ⟨last, hlast, ?_⟩
    rcases hop with hop | hop | hop | ⟨l, hop⟩ <;> rw [hop] <;> rfl
  · obtain ⟨H, hH⟩ := h.heights i (Array.getElem?_eq_some_iff.mp hs).1
    obtain ⟨known, hknown, -⟩ := hH.heights htable (hfits.heights i H hH) hs (hoperands i)
    exact ⟨known, hknown⟩

/-! ## the whole check -/

theorem Accepted.verify {program : Program} {table : LabelTable} (acc : Accepted program table) :
    program.verify = .ok () := by
  refine verify_of_sections acc.labels fun i s hs => ?_
  obtain ⟨last, hlast, hends⟩ := acc.ends i s hs
  obtain ⟨known, hknown⟩ := acc.heights i s hs
  refine verifySection_of hlast hends (fun pc ins hins => acc.operands i pc ins ?_) hknown
  rw [Program.instruction?, hs]
  exact hins

/-- the heights of a program that passes are the numbers that fit all ways, where control can get -/
theorem Accepted.stackHeights {program : Program} {table : LabelTable} (acc : Accepted program table)
    (hfits : program.Fits) {i : Nat} {s : Section} (hs : program.sections[i]? = some s) {H : Nat → Nat}
    (hH : Balances program i H) :
    ∃ known : Heights s.code.size, program.stackHeights s = .ok known.toList
      ∧ ∀ (pc : Nat) (hpc : pc < s.code.size) (height : Int32),
        known[pc] = some height ↔ Reached program i pc ∧ height = Int32.ofNat (H pc) := by
  obtain ⟨known, hknown, hfollows⟩ := hH.heights acc.labels (hfits.heights i H hH) hs (acc.operands i)
  refine ⟨known, ?_, fun pc hpc height => ⟨hfollows.heights pc hpc height, ?_⟩⟩
  · unfold Program.stackHeights Program.checkedLabels
    rw [acc.labels]
    show (s.heights table >>= _) = _
    rw [hknown]
    rfl
  · rintro ⟨hreached, rfl⟩
    have hcounts := hH.counts acc (hfits.fitsCount i) (Array.getElem?_eq_some_iff.mp hs).1 hreached
    obtain ⟨_, hget⟩ := (acc.heightAt?_iff hs hknown).mp hcounts.height
    exact hget

/-- **The check accepts exactly the programs that it describes.**  Let the operands of a program and
the numbers of its values fit into 32 bits.  It passes the check if and only if no label stands at two
places, every section ends in an operation that control does not go on from, constants exist, jumps go
to labels of their section, and for each section there are numbers of values, none at its start, that
fit all ways between the instructions that control can reach and are enough for each of them.  The
heights of such a program are those numbers, and only instructions out of reach have none. -/
theorem verify_iff_orderly (program : Program) (hfits : program.Fits) :
    (program.verify = .ok () ↔ program.Orderly)
      ∧ (program.verify = .ok () → ∀ (i : Nat) (s : Section), program.sections[i]? = some s →
        ∀ H, Balances program i H → ∃ heights, program.stackHeights s = .ok heights
          ∧ heights.length = s.code.size
          ∧ ∀ pc < s.code.size,
            (Reached program i pc →
              ∃ height : Int32, heights[pc]? = some (some height) ∧ height.toInt = H pc)
            ∧ (¬Reached program i pc → heights[pc]? = some none)) := by
  refine ⟨⟨fun hverify => ?_, fun horderly => ?_⟩, fun hverify i s hs H hH => ?_⟩
  · obtain ⟨table, htable⟩ := labelTable_of_verify hverify
    exact (accepted_of_verify htable hverify).orderly hfits.fitsCount
  · obtain ⟨table, acc⟩ := horderly.accepted hfits
    exact acc.verify
  · obtain ⟨table, htable⟩ := labelTable_of_verify hverify
    obtain ⟨known, hheights, hknown⟩ := (accepted_of_verify htable hverify).stackHeights hfits hs hH
    refine ⟨known.toList, hheights, Vector.length_toList, fun pc hpc => ⟨fun hreached => ?_,
      fun hout => ?_⟩⟩
    · refine ⟨Int32.ofNat (H pc), ?_, Int32.toInt_ofNat_of_lt (hfits.heights i H hH pc hreached)⟩
      rw [Vector.getElem?_toList, Vector.getElem?_eq_getElem hpc, (hknown pc hpc _).mpr ⟨hreached, rfl⟩]
    · rw [Vector.getElem?_toList, Vector.getElem?_eq_getElem hpc]
      cases hget : known[pc] with
      | none => rfl
      | some height => exact absurd ((hknown pc hpc height).mp hget).1 hout

/-- In a program that passes the numbers fit, if its operations take few values. -/
theorem fits_of_verify {program : Program} (hverify : program.verify = .ok ())
    (hops : ∀ i pc ins, program.instruction? i pc = some ins → ins.op.takes < 2 ^ 8) :
    program.Fits := by
  obtain ⟨table, htable⟩ := labelTable_of_verify hverify
  have acc := accepted_of_verify htable hverify
  have hfits (i : Nat) : program.FitsCount i := fun pc ins hins _ =>
    (hops i pc ins hins).trans (by decide)
  refine ⟨fun i pc ins n hins hop => ?_, fun i pc ins n hins hop => ?_,
    fun i pc ins argc bound hins hop => ?_, fun i H hH pc hreached => ?_⟩
  · have htakes := hops i pc ins hins
    rw [hop, Op.takes] at htakes
    omega
  · have htakes := hops i pc ins hins
    rw [hop, Op.takes] at htakes
    omega
  · have htakes := hops i pc ins hins
    rw [hop, Op.takes] at htakes
    omega
  · cases hreached with
    | start =>
      rw [hH.start]
      exact Nat.two_pow_pos 31
    | way hpc hins hway =>
      obtain ⟨s, hs, -⟩ := Option.bind_eq_some_iff.mp hins
      have hi := (Array.getElem?_eq_some_iff.mp hs).1
      exact (hH.counts acc (hfits i) hi (hpc.way hins hway)).small

/-- A loop that a jump comes back to, a region with its handler, an exit of the loop, and behind it an
instruction out of reach. -/
def comingBack : List Op :=
  [.loopStart, .label 0, .enterTry 1, .const 0, .jumpTrue 0, .leaveTry, .jump 2, .label 1, .pop, .jump 0,
    .label 2, .loopExit (some 3), .nop, .label 3, .loopEnd, .halt]

/-- the handler starts with the thrown value, and nothing behind the loop exit has a height -/
theorem verify_iff_orderly_comingBack :
    (handMade comingBack).Orderly
      ∧ ∃ heights, (handMade comingBack).stackHeights (handMade comingBack).sections[0] = .ok heights
        ∧ heights[7]? = some (some 1) ∧ ¬Reached (handMade comingBack) 0 12 := by
  have hverify : (handMade comingBack).verify = .ok () := by cbv
  have hfits : (handMade comingBack).Fits := by
    refine fits_of_verify hverify fun i pc ins hins => ?_
    obtain ⟨-, hop⟩ := op_of_handMade hins
    have hall : ∀ op ∈ comingBack, op.takes < 2 ^ 8 := by decide
    exact hall _ (List.mem_of_getElem? hop)
  obtain ⟨hiff, hheights⟩ := verify_iff_orderly (handMade comingBack) hfits
  have horderly := hiff.mp hverify
  obtain ⟨H, hH⟩ := horderly.heights 0 (by decide)
  obtain ⟨heights, hok, -, hat⟩ := hheights hverify 0 _ rfl H hH
  have hlist : (handMade comingBack).stackHeights (handMade comingBack).sections[0] = .ok [some 0,
      some 0, some 0, some 0, some 1, some 0, some 0, some 1, some 1, some 0, some 0, some 0, none,
      none, none, none] := by cbv
  rw [hlist] at hok
  cases hok
  refine ⟨horderly, _, hlist, rfl, fun hreached => ?_⟩
  obtain ⟨height, hsome, -⟩ := (hat 12 (by decide)).1 hreached
  cases hsome

/-- **The check counts one value too many.**  The number of values that `PICK 2147483647` looks at is
beyond 32 bits although its operand is not, so the check takes it for a negative one: a program passes
that looks that deep into an empty stack. -/
theorem verify_deepPick :
    (∀ n, Op.pick n ∈ [Op.pick 2147483647, .pop, .halt] → n < 2 ^ 31)
      ∧ (handMade [.pick 2147483647, .pop, .halt]).verify = .ok ()
      ∧ (handMade [.pick 2147483647, .pop, .halt]).stackHeights
          (handMade [.pick 2147483647, .pop, .halt]).sections[0] = .ok [some 0, some 1, some 0]
      ∧ ¬(handMade [.pick 2147483647, .pop, .halt]).Orderly := by
  refine ⟨by simp, by cbv, by cbv, fun horderly => ?_⟩
  obtain ⟨H, hH⟩ := horderly.heights 0 (by decide)
  have henough := hH.enough 0 _ .start rfl
  rw [hH.start] at henough
  exact absurd henough (by decide)

end ScriptMachine
