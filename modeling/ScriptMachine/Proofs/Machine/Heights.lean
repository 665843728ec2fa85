import ScriptMachine.Proofs.Lowering.Paired
import ScriptMachine.Proofs.Machine.Rails

/-!
# The heights of the check are the real heights

The check counts values along the ways of a section, without running it.  In compiled code it counts
right: before every instruction with a height, the running frame holds that many values.  Only a call
whose result is already there finds fewer, since its arguments are gone.

* `Accepted.height_eq`  the height of a place is that of its shape;
* `Holds.tally_eq`, `Holds.tally_result`   so is the number of values of a frame;
* `CallBehind`          a call that follows the instruction that fetched its callee;
* `kind_unmarked`       the mark of a result stands on top, before such a call, and nowhere else;
* `StandsFor`           the number that a height of 32 bits stands for;
* `tally_eq_height`     the heights of the check are the numbers of values.
-/

namespace ScriptMachine

/-! ## the check -/

/-- The heights that the work list ends with are those of the shapes, and none is above the number of
instructions. -/
theorem spreadHeights_shapes {program : Program} {table : LabelTable} {T : Location → Shape}
    {env : TypeEnv} {i : Nat} {code : Array Instruction} {name : String}
    (htyped : ∀ (pc : Nat) (h : pc < code.size),
      OpTyped env (Lands program table T i) code[pc].op (T ⟨i, pc⟩) (T ⟨i, pc + 1⟩))
    {known known' : Heights code.size} {work : List (Nat × Int32)} (h : Agrees T i known work)
    (hbound : ∀ (pc : Nat) (hpc : pc < code.size) (height : Int32), known[pc] = some height →
      (T ⟨i, pc⟩).height ≤ code.size)
    (hok : spreadHeights table name code known work = .ok known') (pc : Nat) (hpc : pc < code.size)
    (height : Int32) (hheight : known'[pc] = some height) :
    height = Int32.ofNat (T ⟨i, pc⟩).height ∧ (T ⟨i, pc⟩).height ≤ code.size := by
  fun_induction spreadHeights table name code known work with
  | case1 known =>
    cases hok
    exact ⟨h.heights pc hpc height hheight, hbound pc hpc height hheight⟩
  | case2 known _ _ _ _ _ ih => exact ih h.tail hbound hok
  | case3 => cases hok
  | case4 => cases hok
  | case5 known pc' height' work hlt hnone pops pushes heffect hunder hcount hlen ih =>
    rw [Op.effect_eq] at heffect
    cases heffect
    refine ih (h.visit hlt hnone (htyped pc' hlt)) (fun pc'' hpc'' height'' hset => ?_) hok
    by_cases heq : pc' = pc''
    · subst heq
      have hle := (h.pending pc' height' List.mem_cons_self).2
      omega
    · rw [Vector.getElem_set_ne hlt hpc'' heq] at hset
      exact hbound pc'' hpc'' height'' hset
  | case6 known _ _ _ _ ih => exact ih h.tail hbound hok

section
variable {program : Program} {table : LabelTable} {T : Location → Shape}

/-- a section starts with an empty shape -/
theorem WellShaped.agrees (h : WellShaped program table T) (i n : Nat) :
    Agrees T i (Vector.replicate n none) [(0, 0)] := by
  refine ⟨fun pc hpc height hget => ?_, fun pc height hmem => ?_⟩
  · rw [Vector.getElem_replicate] at hget
    cases hget
  · cases List.mem_singleton.mp hmem
    rw [h.start i]
    refine ⟨rfl, ?_⟩
    show 0 + unknown _ ≤ _
    rw [Nat.zero_add]
    exact Vector.countP_le_size

/-- the height that the check finds is that of the shape -/
theorem Accepted.height_eq (acc : Accepted program table) (h : WellShaped program table T) {i pc : Nat}
    {s : Section} (hs : program.sections[i]? = some s) {height : Int32}
    (hheight : program.heightAt? ⟨i, pc⟩ = some height) :
    height = Int32.ofNat (T ⟨i, pc⟩).height ∧ (T ⟨i, pc⟩).height ≤ s.code.size := by
  obtain ⟨known, hknown⟩ := acc.heights i s hs
  obtain ⟨hpc, hget⟩ := (acc.heightAt?_iff hs hknown).mp hheight
  refine spreadHeights_shapes (fun pc hpc => h.typed_at hs (Array.getElem?_eq_getElem hpc))
    (h.agrees i s.code.size) (fun pc hpc height hget => ?_) hknown pc hpc height hget
  rw [Vector.getElem_replicate] at hget
  cases hget

end

/-! ## frames -/

section
variable {program : Program} {T : Location → Shape} {heap : Heap} {base : EnvId} {i : Nat}
  {es : List Entry} {own : List Slot}

/-- a frame without the result of a call holds as many values as its shape -/
theorem Holds.tally_eq (h : Holds program T heap base i es own)
    (hplain : All (· ≠ .nativeResult) own) : tally own = heights es := by
  induction h with
  | nil => rfl
  | value _ _ ih | loop _ _ ih | guard _ _ _ ih =>
    have hrest := ih (List.forall_mem_cons.mp hplain).2
    simp [Entry.height, hrest, Nat.add_comm]
  | callee _ _ _ ih =>
    have hrest := ih (hplain.suffix (List.suffix_append _ _))
    simp [Entry.height, hrest]
    omega
  | result _ _ _ => exact absurd rfl (List.forall_mem_cons.mp hplain).1

/-- below the mark of a result is the result, in place of the callee and its arguments -/
theorem Holds.tally_result {rest : List Slot}
    (h : Holds program T heap base i es (.nativeResult :: rest))
    (hplain : All (· ≠ .nativeResult) rest) :
    ∃ argc es', es = .prepared argc :: es' ∧ tally (.nativeResult :: rest) + argc = heights es := by
  cases h with
  | result hv h =>
    have hrest := h.tally_eq (List.forall_mem_cons.mp hplain).2
    refine ⟨_, _, rfl, ?_⟩
    simp [Entry.height, hrest]
    omega

end

/-! ## results of calls -/

/-- At `loc` stands a call with `argc` arguments, right behind the instruction that fetched its callee. -/
structure CallBehind (program : Program) (loc : Location) (argc : Nat) : Prop where
  call : ∃ ins bound, program.instruction? loc.sectionIndex loc.pc = some ins
    ∧ ins.op = .call argc bound
  fetch : ∃ ins pc, loc.pc = pc + 1 ∧ program.instruction? loc.sectionIndex pc = some ins
    ∧ ins.op.calleeArgc? = some argc

/-- an entry on the rails that is not the mark of a result -/
structure Unmarked (program : Program) (hosted : Bool) (slot : Slot) : Prop where
  anchors : Anchors program hosted slot
  ne : slot ≠ .nativeResult

/-- in compiled code the mark of a result stands on top, before its call -/
theorem kind_unmarked {body : List Stmt} {source : Source} {program : Program} {table : LabelTable}
    (hprogram : compileProgram body source = .ok program) (h : program.Entered table) :
    Kind program table (Unmarked program) fun loc => ∃ argc, CallBehind program loc argc := by
  have hanchors := kind_anchors h
  refine ⟨fun hslot => hslot.anchors, ⟨hanchors.value, nofun⟩, ?_, fun hhost => ⟨hanchors.site hhost, nofun⟩,
    fun hslot => ⟨hanchors.hosted hslot.anchors, hslot.ne⟩, ?_, ?_⟩
  · intro linked hosted i pc ins slot hlinked hins hputs
    refine ⟨hanchors.puts hlinked hins hputs, ?_⟩
    cases hputs <;> nofun
  · intro hosted i pc ins slots hins hfilled
    refine hfilled.imp id ?_
    rintro ⟨⟨argc, hcall, -⟩, hrest⟩
    obtain ⟨ins', bound, hins', hop⟩ := hcall
    rw [hins] at hins'
    cases hins'
    exact ⟨by rw [hop]; rfl, hrest⟩
  · intro hosted i pc ins loc slots hins hfilled
    refine hfilled.imp id ?_
    rintro ⟨⟨hfetch, rfl⟩, hrest⟩
    obtain ⟨argc, hargc⟩ := Option.isSome_iff_exists.mp hfetch
    obtain ⟨ins', bound, hins', hop⟩ := call_follows_fetch hprogram hins hargc
    exact ⟨⟨argc, ⟨ins', bound, hins', hop⟩, ins, pc, rfl, hins, hargc⟩, hrest⟩

/-! ## runs -/

theorem Tabled.entered {program : Program} {table : LabelTable} (h : Tabled program)
    (acc : Accepted program table) : program.Entered table := by
  refine ⟨acc, by rw [h.sections]; exact Nat.succ_pos _, fun f hf => ?_⟩
  obtain ⟨k, hk⟩ := List.getElem?_of_mem hf
  rw [Array.getElem?_toList] at hk
  rw [(h.functions k f hk).1, h.sections]
  exact Nat.succ_lt_succ (Array.getElem?_eq_some_iff.mp hk).1

/-- a prepared call is made with as many arguments -/
theorem OpTyped.call_prepared {env : TypeEnv} {has : Label → Shape → Prop} {argc argc' : Nat}
    {bound : Bool} {es : List Entry} {σ τ : Shape} (h : OpTyped env has (.call argc bound) σ τ)
    (hσ : σ.entries = .prepared argc' :: es) : argc' = argc := by
  cases h with
  | call hready =>
    cases hready with
    | prepared =>
      cases hσ
      rfl
    | value => cases hσ

theorem Machine.Ok.ofLoad {program : Program} {table : LabelTable} {T : Location → Shape}
    {limits : Limits} {m : Machine} (hshape : WellShaped program table T) (htabled : Tabled program)
    (hload : Machine.load program limits = .ok m) : m.Ok program T := by
  obtain ⟨table', htable, rfl⟩ := Machine.load_ok hload
  obtain rfl : table = table' := Except.ok.inj (hshape.labels.symm.trans htable)
  exact .loaded hshape htabled limits

/-- the mark of a result on top of the stack is on top of the running frame -/
theorem Frames.filled_own {program : Program} {T : Location → Shape} {heap : Heap}
    {global base : EnvId} {hosted : Bool} {i : Nat} {es : List Entry} {own rest : List Slot}
    (h : Frames program T heap global hosted i base rest) (hown : Holds program T heap base i es own)
    {p : Slot → Prop} {top : Prop} (hfilled : Filled p top (own ++ rest)) : Filled p top own := by
  rcases hfilled with hall | ⟨htop, slots, heq, hall⟩
  · exact .inl fun slot hslot => hall slot (List.mem_append_left _ hslot)
  · cases own with
    | nil =>
      -- a frame is followed by a call site, if by anything
      rw [List.nil_append] at heq
      have hsite := h.takeWhile_eq
      rw [heq] at hsite
      cases hsite
    | cons slot own =>
      cases heq
      exact .inr ⟨htop, own, rfl, fun slot hslot => hall slot (List.mem_append_left _ hslot)⟩

/-- The number that a height of section `i` stands for.  Heights have 32 bits, which is enough for
sections of less than `2 ^ 31` instructions. -/
structure StandsFor (program : Program) (i : Nat) (height : Int32) (n : Nat) : Prop where
  word : height = Int32.ofNat n
  exact : ∀ s, program.sections[i]? = some s → s.code.size < 2 ^ 31 → height.toInt = n

theorem Accepted.standsFor {program : Program} {table : LabelTable} {T : Location → Shape}
    (acc : Accepted program table) (h : WellShaped program table T) {loc : Location} {height : Int32}
    (hheight : program.heightAt? loc = some height)
    (hhas : program.Has loc) :
    StandsFor program loc.sectionIndex height (T loc).height := by
  obtain ⟨ins, hins⟩ := Option.isSome_iff_exists.mp hhas
  obtain ⟨s, hs, -⟩ := Option.bind_eq_some_iff.mp hins
  obtain ⟨heq, hle⟩ := acc.height_eq h hs hheight
  refine ⟨heq, fun s' hs' hsize => ?_⟩
  rw [hs] at hs'
  cases hs'
  rw [heq]
  exact Int32.toInt_ofNat_of_lt (Nat.lt_of_le_of_lt hle hsize)

/-- **The heights of the check are the numbers of values.**  Take any session with a machine of a
compiled program, any run that the host starts then, and any place that the run gets to.  If the check
has a height for the instruction there, it is the number of values in the running frame.  The exception
is a call whose result is already there, with its mark on top: it stands right behind the instruction
that fetched its callee, and lacks just its arguments. -/
theorem tally_eq_height (body : List Stmt) (source : Source) (program : Program)
    (hprogram : compileProgram body source = .ok program) (limits : Limits) (m₀ : Machine)
    (hload : Machine.load program limits = .ok m₀) (ops : List HostOp) (m : Machine)
    (hm : m₀.after ops = some m) (drive : Drive) (first run : Run) (hfirst : m.Enters drive first)
    (n : Nat) (hrun : first.ahead m.linked m.limits drive n = some run) (height : Int32)
    (hheight : program.heightAt? run.state.location = some height) :
    (run.state.stack.frame.head? ≠ some .nativeResult
        ∧ StandsFor program run.state.location.sectionIndex height (tally run.state.stack.frame))
      ∨ (run.state.stack.frame.head? = some .nativeResult
        ∧ ∃ argc, CallBehind program run.state.location argc
          ∧ StandsFor program run.state.location.sectionIndex height
            (tally run.state.stack.frame + argc)) := by
  obtain ⟨code, b, hcode, hprogram'⟩ := compileProgram_ok hprogram
  obtain ⟨table, T, hshape, -⟩ := wellShaped_of_compiled hcode rfl rfl source
  have htabled := tabled_of_compiled hcode source
  rw [← hprogram'] at hshape htabled
  have acc := accepted_of_verify hshape.labels (Machine.verify_of_load hload)
  have hlasting := (kind_unmarked hprogram (htabled.entered acc)).lasting (htabled.entered acc)
  have hheld := hlasting.after (hlasting.loaded hshape.labels hload) hm
  obtain ⟨hhas, hfilled⟩ := hlasting.ahead hheld.linked (hlasting.enters hheld hfirst) hrun
  have hok := (Machine.Ok.ofLoad hshape htabled hload).after hm
  obtain ⟨-, -, -, base, own, rest, hstack, hframes, hholds, -⟩ :=
    ahead_sound hok.shaped hok.tabled (hok.enters hfirst) hrun
  have hframe : run.state.stack.frame = own := by rw [hstack, hframes.frame_eq hholds]
  have hstands := acc.standsFor hshape hheight hhas
  rw [hframe]
  rcases hframes.filled_own hholds (hstack ▸ hfilled) with hall | ⟨⟨argc, hcall⟩, own', rfl, hall⟩
  · have hplain : All (· ≠ .nativeResult) own := fun slot hslot => (hall slot hslot).ne
    refine .inl ⟨fun hhead => hplain .nativeResult (List.mem_of_head? hhead) rfl, ?_⟩
    rw [hholds.tally_eq hplain]
    exact hstands
  · obtain ⟨argc', es, hes, htally⟩ := hholds.tally_result fun slot hslot => (hall slot hslot).ne
    obtain ⟨ins, bound, hins, hop⟩ := hcall.call
    have htyped := hshape.typed _ _ ins hins
    rw [hop] at htyped
    obtain rfl := htyped.call_prepared hes
    refine .inr ⟨rfl, argc', hcall, ?_⟩
    rw [htally]
    exact hstands

/-- `print(true);` -/
def printing : List Stmt :=
  let at_ : TokenRange := ⟨0, 0⟩
  let print : Expr := .node (.variable "print") at_
  [.node (.expression (.node (.call print [.node (.bool true) at_]) at_)) at_]

/-- the height of the place after so many instructions, and the entry on top there -/
def heightAfter (body : List Stmt) (n : Nat) : Option (Option Int32 × Option Slot) :=
  match compileProgram body ⟨#[], ""⟩ with
  | .error _ => none
  | .ok program =>
    match Machine.load program {} with
    | .error _ => none
    | .ok m => (Run.ahead m.linked m.limits .run n ⟨m.state, 0, m.moved⟩).map fun run =>
      (program.heightAt? run.state.location, run.state.stack.frame.head?)

/-- before the call there are its result and one value less than the check counts -/
theorem tally_eq_height_printing :
    ∃ (program : Program) (m : Machine) (run : Run),
      compileProgram printing ⟨#[], ""⟩ = .ok program ∧ Machine.load program {} = .ok m
      ∧ Run.ahead m.linked m.limits .run 2 ⟨m.state, 0, m.moved⟩ = some run
      ∧ program.heightAt? run.state.location = some 2
      ∧ run.state.stack.frame.head? = some .nativeResult
      ∧ ∃ argc, CallBehind program run.state.location argc
        ∧ StandsFor program run.state.location.sectionIndex 2 (tally run.state.stack.frame + argc) := by
  have hafter : heightAfter printing 2 = some (some 2, some .nativeResult) := by cbv
  unfold heightAfter at hafter
  cases hprogram : compileProgram printing ⟨#[], ""⟩ with
  | error e =>
    rw [hprogram] at hafter
    cases hafter
  | ok program =>
    rw [hprogram] at hafter
    dsimp only at hafter
    cases hload : Machine.load program {} with
    | error e =>
      rw [hload] at hafter
      cases hafter
    | ok m =>
      rw [hload] at hafter
      obtain ⟨run, hrun, hresult⟩ := Option.map_eq_some_iff.mp hafter
      obtain ⟨hheight, htop⟩ := Prod.mk.inj hresult
      have hmode : m.mode = .paused := by
        obtain ⟨_, -, rfl⟩ := Machine.load_ok hload
        rfl
      refine ⟨program, m, run, rfl, hload, hrun, hheight, htop, ?_⟩
      rcases tally_eq_height printing ⟨#[], ""⟩ program hprogram {} m hload [] m rfl .run _ run
        (.run hmode) 2 hrun 2 hheight with ⟨hhead, -⟩ | ⟨-, hcall⟩
      · exact absurd htop hhead
      · exact hcall

end ScriptMachine
