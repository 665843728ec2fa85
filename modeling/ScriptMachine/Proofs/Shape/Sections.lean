import ScriptMachine.Program.Verify
import ScriptMachine.Proofs.Lowering.Compiled
import ScriptMachine.Proofs.Shape.Lowered

/-!
# The shapes of a compiled program

Every section of a compiled program is typed from an empty stack on.  Its labels are different from
all other labels of the program, so the shape of a label is the shape of the place that it stands
for.

* `Builder.emitted?`    what was emitted for a place of the program;
* `LabelTable.ofLabels_nodup`   different labels make a table;
* `Tabled`              the tables of a program fit together;
* `WellShaped`          every instruction is typed by the shape of its place;
* `wellShaped_of_compiled`, `tabled_of_compiled`   compiled programs are of both kinds.
-/

namespace ScriptMachine

/-! ## places -/

namespace Builder

/-- the code of the sections: the main code and the bodies of the functions -/
def sectionCode? (b : Builder) (main : Code) : Nat → Option Code
  | 0 => some main
  | i + 1 => b.functions[i]?.map FunctionCode.code

/-- what was emitted for a place of the program -/
def emitted? (b : Builder) (main : Code) (i pc : Nat) : Option Emitted :=
  (b.sectionCode? main i).bind fun code => code[pc]?

variable (b : Builder) (main : Code) (source : Source)

theorem getElem?_sections_succ (i : Nat) :
    (b.toProgram main source).sections[i + 1]?
      = b.functions[i]?.map fun f => Section.ofCode f.name f.code := by
  show (#[Section.ofCode mainName main] ++ b.functions.map _)[i + 1]? = _
  rw [Array.getElem?_append, if_neg (by simp), Array.getElem?_map]
  rfl

theorem getElem?_sections_zero :
    (b.toProgram main source).sections[0]? = some (Section.ofCode mainName main) := by
  show (#[Section.ofCode mainName main] ++ b.functions.map _)[0]? = _
  rw [Array.getElem?_append, if_pos (by simp)]
  rfl

theorem size_sections :
    (b.toProgram main source).sections.size = b.functions.size + 1 := by
  show (#[Section.ofCode mainName main] ++ b.functions.map _).size = _
  rw [Array.size_append, Array.size_map]
  exact Nat.add_comm _ _

/-- a section holds what was emitted for it -/
theorem code_of_section {i : Nat} {s : Section}
    (h : (b.toProgram main source).sections[i]? = some s) :
    ∃ c, b.sectionCode? main i = some c ∧ s.code.toList = c.map Emitted.instruction := by
  cases i with
  | zero =>
    rw [getElem?_sections_zero] at h
    cases h
    exact ⟨main, rfl, rfl⟩
  | succ i =>
    rw [getElem?_sections_succ] at h
    obtain ⟨f, hf, rfl⟩ := Option.map_eq_some_iff.mp h
    exact ⟨f.code, by rw [sectionCode?, hf]; rfl, rfl⟩

theorem instruction?_toProgram (i pc : Nat) :
    (b.toProgram main source).instruction? i pc
      = (b.emitted? main i pc).map Emitted.instruction := by
  unfold Program.instruction? emitted?
  cases i with
  | zero =>
    rw [getElem?_sections_zero]
    show (main.map Emitted.instruction).toArray[pc]? = _
    rw [List.getElem?_toArray, List.getElem?_map]
    rfl
  | succ i =>
    rw [getElem?_sections_succ, sectionCode?]
    cases b.functions[i]? with
    | none => rfl
    | some f =>
      show (f.code.map Emitted.instruction).toArray[pc]? = _
      rw [List.getElem?_toArray, List.getElem?_map]
      rfl

end Builder

/-! ## labels -/

theorem map_labelsFrom (i pc : Nat) (c : Code) :
    (labelsFrom i pc (c.map Emitted.instruction)).map Prod.fst = placed c := by
  induction c generalizing pc with
  | nil => rfl
  | cons e c ih =>
    obtain ⟨op, range, statement⟩ := e
    cases op with
    | label l => exact congrArg (l :: ·) (ih (pc + 1))
    | _ => exact ih (pc + 1)

theorem mem_labelsFrom (i pc : Nat) {k : Nat} {code : List Instruction} {ins : Instruction} {l : Label}
    (h : code[k]? = some ins) (hop : ins.op = .label l) :
    (l, (⟨i, pc + k⟩ : Location)) ∈ labelsFrom i pc code := by
  induction code generalizing pc k with
  | nil => cases h
  | cons first rest ih =>
    cases k with
    | zero =>
      cases h
      obtain ⟨op, range, starts⟩ := ins
      cases hop
      exact List.mem_cons_self
    | succ k =>
      have hrest := ih (pc + 1) h
      rw [Nat.add_assoc, Nat.add_comm 1 k] at hrest
      obtain ⟨op, range, starts⟩ := first
      cases op with
      | label _ => exact List.mem_cons_of_mem _ hrest
      | _ => exact hrest

namespace LabelTable

theorem resolve?_insert (table : LabelTable) (l l' : Label) (loc : Location) :
    resolve? ⟨table.targets.insert l loc⟩ l' = if l = l' then some loc else table.resolve? l' := by
  show (table.targets.insert l loc)[l']? = _
  rw [Std.TreeMap.getElem?_insert]
  by_cases h : l = l'
  · rw [if_pos h, if_pos (by rw [h]; exact Std.ReflCmp.compare_self)]
  · rw [if_neg h, if_neg]
    · rfl
    · intro hc
      exact h (Std.LawfulEqOrd.eq_of_compare hc)

/-- new labels that are all different get into a table, and nothing gets lost -/
theorem insertAll_ok (table : LabelTable) (labels : List (Label × Location))
    (hnd : (labels.map Prod.fst).Nodup)
    (hnew : ∀ l ∈ labels.map Prod.fst, table.resolve? l = none) :
    ∃ table', insertAll table labels = .ok table'
      ∧ (∀ l loc, (l, loc) ∈ labels → table'.resolve? l = some loc)
      ∧ ∀ l, l ∉ labels.map Prod.fst → table'.resolve? l = table.resolve? l := by
  induction labels generalizing table with
  | nil => exact ⟨table, rfl, nofun, fun _ _ => rfl⟩
  | cons first rest ih =>
    obtain ⟨l, loc⟩ := first
    obtain ⟨hl, hnd⟩ := List.nodup_cons.mp hnd
    have hnone := hnew l List.mem_cons_self
    obtain ⟨table', hok, hin, hout⟩ := ih ⟨table.targets.insert l loc⟩ hnd (by
      intro l' hl'
      have hne : l ≠ l' := by
        rintro rfl
        exact hl hl'
      rw [resolve?_insert, if_neg hne]
      exact hnew l' (List.mem_cons_of_mem _ hl'))
    refine ⟨table', ?_, ?_, ?_⟩
    · simp only [insertAll, hnone]
      exact hok
    · intro l' loc' hmem
      rcases List.mem_cons.mp hmem with heq | hmem
      · cases heq
        rw [hout l hl, resolve?_insert, if_pos rfl]
      · exact hin l' loc' hmem
    · intro l' hl'
      have hrest : l' ∉ rest.map Prod.fst := fun h => hl' (List.mem_cons_of_mem _ h)
      have hne : l ≠ l' := by
        rintro rfl
        exact hl' List.mem_cons_self
      rw [hout l' hrest, resolve?_insert, if_neg hne]

theorem ofLabels_nodup (labels : List (Label × Location)) (hnd : (labels.map Prod.fst).Nodup) :
    ∃ table, ofLabels labels = .ok table
      ∧ ∀ l loc, (l, loc) ∈ labels → table.resolve? l = some loc := by
  obtain ⟨table, hok, hin, -⟩ := insertAll_ok {} labels hnd (fun l _ => by
    show (∅ : Std.TreeMap Label Location)[l]? = none
    exact Std.TreeMap.getElem?_emptyc)
  exact ⟨table, hok, hin⟩

end LabelTable

theorem mem_labels {program : Program} {i pc : Nat} {ins : Instruction} {l : Label}
    (h : program.instruction? i pc = some ins) (hop : ins.op = .label l) :
    (l, (⟨i, pc⟩ : Location)) ∈ program.labels := by
  obtain ⟨s, hs, hins⟩ := Option.bind_eq_some_iff.mp h
  have hmem : (s, i) ∈ program.sections.toList.zipIdx := by
    rw [List.mem_zipIdx_iff_getElem?, Array.getElem?_toList]
    exact hs
  refine List.mem_flatMap.mpr ⟨(s, i), hmem, ?_⟩
  have hlabel := mem_labelsFrom i 0 (Array.getElem?_toList.trans hins) hop
  rwa [Nat.zero_add] at hlabel

theorem map_labels_sections (functions : List FunctionCode) (n : Nat) :
    (((functions.map fun f => Section.ofCode f.name f.code).zipIdx n).flatMap fun (s, i) =>
      labelsFrom i 0 s.code.toList).map Prod.fst = functions.flatMap fun f => placed f.code := by
  induction functions generalizing n with
  | nil => rfl
  | cons f functions ih =>
    rw [List.map_cons, List.zipIdx_cons, List.flatMap_cons, List.map_append, ih, List.flatMap_cons]
    exact congrArg (· ++ _) (map_labelsFrom n 0 f.code)

/-- the labels of a program are those that were placed -/
theorem map_labels (b : Builder) (main : Code) (source : Source) :
    (b.toProgram main source).labels.map Prod.fst
      = placed main ++ b.functions.toList.flatMap fun f => placed f.code := by
  have hsections : (b.toProgram main source).sections.toList
      = (⟨mainName, [], main⟩ :: b.functions.toList).map fun f => Section.ofCode f.name f.code := by
    show (#[Section.ofCode mainName main] ++ b.functions.map _).toList = _
    rw [Array.toList_append, Array.toList_map]
    rfl
  unfold Program.labels
  rw [hsections, map_labels_sections]
  rfl

/-! ## tables -/

/-- the code of the first section -/
def mainCode (code : Code) (source : Source) : Code := code ++ [⟨.halt, source.endRange?, none⟩]

theorem compileProgram_run {body : List Stmt} {source : Source} {program : Program}
    (h : compileProgram body source = .ok program) :
    ∃ code b, (Compile.statements { source := source } body).run {} = .ok (code, b)
      ∧ program = b.toProgram (mainCode code source) source := by
  unfold compileProgram at h
  cases hrun : (Compile.statements { source := source } body).run {} with
  | error e =>
    rw [hrun] at h
    cases h
  | ok r =>
    rw [hrun] at h
    cases h
    exact ⟨r.1, r.2, rfl, rfl⟩

theorem compileProgram_ok {body : List Stmt} {source : Source} {program : Program}
    (h : compileProgram body source = .ok program) :
    ∃ code b, BodyCode { source := source } body {} code b
      ∧ program = b.toProgram (mainCode code source) source := by
  obtain ⟨code, b, hrun, hprogram⟩ := compileProgram_run h
  exact ⟨code, b, Compile.bodyCode_of_ok _ _ _ _ _ hrun, hprogram⟩

/-- the parts of a program fit together -/
structure Tabled (program : Program) : Prop where
  labels : (program.labels.map Prod.fst).Nodup
  sections : program.sections.size = program.functions.size + 1
  functions : ∀ i f, program.functions[i]? = some f →
    f.body = i + 1 ∧ program.sections[i + 1]?.map Section.name = some f.name
  names : program.functionNames.length = program.functions.size
  classes : ∀ k ∈ program.classes, k.Complete program.functions.size
  constants : ∀ v ∈ program.constants.toList, v.isPlain

section
variable {ctx : Context} {body : List Stmt} {code : Code} {b : Builder}

theorem tabled_of_compiled (h : BodyCode ctx body {} code b) (source : Source) :
    Tabled (b.toProgram (mainCode code source) source) where
  labels := by
    rw [map_labels, List.nodup_iff_count_le_one]
    intro l
    have hl := h.grows.labels l
    have hempty : Builder.labelCount {} l = 0 := rfl
    have hone : handedOut {} b l ≤ 1 := by
      unfold handedOut
      split <;> omega
    have hmain : placed (mainCode code source) = placed code := by
      show placed (code ++ _) = _
      rw [placed_append]
      exact List.append_nil _
    have hfuns : (b.functions.toList.flatMap fun f => placed f.code).count l = b.labelCount l :=
      List.count_flatMap
    rw [List.count_append, hmain, hfuns]
    omega
  sections := by
    rw [Builder.size_sections]
    exact congrArg (· + 1) Array.size_mapIdx.symm
  functions i f hf := by
    have hget : (b.functions.mapIdx fun i f => (⟨f.name, i + 1, f.params⟩ : FunctionEntry))[i]?
        = some f := hf
    rw [Array.getElem?_mapIdx] at hget
    obtain ⟨g, hg, rfl⟩ := Option.map_eq_some_iff.mp hget
    refine ⟨rfl, ?_⟩
    rw [Builder.getElem?_sections_succ, hg]
    rfl
  names := by
    show ((b.functions.map FunctionCode.name).toList).length = (b.functions.mapIdx _).size
    rw [Array.length_toList, Array.size_map, Array.size_mapIdx]
  classes k hk := by
    have hsize : (b.toProgram (mainCode code source) source).functions.size = b.functions.size :=
      Array.size_mapIdx
    rw [hsize]
    rcases h.grows.classes k (Array.mem_toList_iff.mp hk) with hmem | hk
    · exact absurd hmem (Array.not_mem_empty k)
    · exact hk
  constants := h.grows.plain nofun

end

/-! ## shapes -/

/-- the label stands at a place of section `i` that has the shape -/
def Lands (program : Program) (table : LabelTable) (T : Location → Shape) (i : Nat) (l : Label)
    (σ : Shape) : Prop :=
  ∃ pc, table.resolve? l = some ⟨i, pc⟩ ∧ (program.instruction? i pc).isSome ∧ T ⟨i, pc⟩ = σ

/-- Every instruction is typed by the shape of its place.  Only the main section is outside of
functions, and no section can be left at its end. -/
structure WellShaped (program : Program) (table : LabelTable) (T : Location → Shape) : Prop where
  labels : program.labelTable = .ok table
  start : ∀ i, T ⟨i, 0⟩ = ⟨[], 0⟩
  typed : ∀ i pc (ins : Instruction), program.instruction? i pc = some ins →
    OpTyped ⟨program.constants.size, i != 0⟩ (Lands program table T i) ins.op (T ⟨i, pc⟩)
      (T ⟨i, pc + 1⟩)
  /-- a region that control leaves at the end of its body is left as deep as it was entered -/
  levels : ∀ i pc (ins : Instruction), program.instruction? i pc = some ins → ins.op = .leaveTry →
    (∀ next ∈ program.instruction? i (pc + 1), next.op.followsBody = true) →
    (T ⟨i, pc⟩).entries.head? = some (.guard (T ⟨i, pc⟩).depth)
  ends : ∀ (i : Nat) (s : Section), program.sections[i]? = some s →
    ∃ last, s.code.back? = some last ∧ (last.op = .ret ∨ last.op = .halt)

section
variable {ctx : Context} {body : List Stmt} {code : Code} {b : Builder}

/-- the code of a function ends in a return -/
theorem Closes.last {closing : TokenRange} {c c' : Code} {b b' : Builder}
    (h : Closes closing c b c' b') :
    ∃ (c₀ : Code) (e : Emitted), c' = c₀ ++ [e] ∧ e.op = .ret := by
  cases h with
  | already h =>
    have hlast : c.getLast?.map Emitted.op = some .ret := eq_of_beq h
    obtain ⟨e, he, hop⟩ := Option.map_eq_some_iff.mp hlast
    obtain ⟨c₀, rfl⟩ := List.getLast?_eq_some_iff.mp he
    exact ⟨c₀, e, rfl, hop⟩
  | added => exact ⟨_, _, rfl, rfl⟩

theorem Closes.fits {closing : TokenRange} {c c' : Code} {b b' : Builder}
    (h : Closes closing c b c' b') (env : TypeEnv) (hn : b'.constants.size ≤ env.constants)
    (hfun : env.inFunction = true) (hc : b.constants.size ≤ env.constants →
      Fits env [] ⟨[], 0⟩ c ⟨[], 0⟩ []) :
    Fits env [] ⟨[], 0⟩ c' ⟨[], 0⟩ [] := by
  cases h with
  | already => exact hc hn
  | added =>
    have hgrow := Grows.constant b .undefined closing rfl
    exact ((hc (Nat.le_trans hgrow.constants_le hn)).append (.constantCode _ _ hn)).append
      (.one (.ret hfun) rfl)

/-- the body of a function starts and ends without anything on the stack -/
theorem Written.fits {b : Builder} {i : Nat} {f : FunctionCode} (h : Written b i)
    (hf : b.functions[i]? = some f) :
    Fits ⟨b.constants.size, true⟩ [] ⟨[], 0⟩ f.code ⟨[], 0⟩ []
      ∧ ∃ c₀ e, f.code = c₀ ++ [e] ∧ e.op = .ret := by
  cases h with
  | declared h hkept hconst =>
    cases h with
    | mk _ hb hc =>
      rw [hf, (hb.grows.close hc).entry_fill] at hkept
      cases hkept
      refine ⟨hc.fits _ hconst.length_le rfl fun hn => ?_, hc.last⟩
      exact hb.fits _ hn rfl [] [] 0 .nil .nil
  | plain h hentry hconst =>
    rw [hf] at hentry
    cases hentry
    exact ⟨h.fits _ hconst.length_le rfl fun _ => .nil, h.last⟩

/-- every section is typed from an empty stack on and ends in a return or halts -/
theorem section_fits (h : BodyCode ctx body {} code b) (hctx : ctx.inFunction = false)
    (hexits : ctx.exits = []) (source : Source) {i : Nat} {c : Code}
    (hc : b.sectionCode? (mainCode code source) i = some c) :
    (∃ τ, Fits ⟨b.constants.size, i != 0⟩ [] ⟨[], 0⟩ c τ [])
      ∧ ∃ (c₀ : Code) (e : Emitted), c = c₀ ++ [e] ∧ (e.op = .ret ∨ e.op = .halt) := by
  cases i with
  | zero =>
    cases hc
    have hbody := h.fits ⟨b.constants.size, false⟩ (Nat.le_refl _) hctx.symm [] [] 0
      (hexits ▸ .nil) .nil
    exact ⟨⟨⟨[], 0⟩, hbody.append (.emit (.halt rfl) rfl (.of_op rfl))⟩, _, _, rfl, .inr rfl⟩
  | succ i =>
    obtain ⟨f, hf, rfl⟩ := Option.map_eq_some_iff.mp hc
    obtain ⟨hlt, -⟩ := Array.getElem?_eq_some_iff.mp hf
    obtain ⟨hfits, c₀, e, hc₀, hop⟩ := (h.grows.written i (Nat.zero_le _) hlt).fits hf
    exact ⟨⟨_, hfits⟩, c₀, e, hc₀, .inl hop⟩

/-- Shapes for all places of a program.  At the start of a statement they are the exit scopes. -/
theorem wellShaped_of_compiled (h : BodyCode ctx body {} code b) (hctx : ctx.inFunction = false)
    (hexits : ctx.exits = []) (source : Source) :
    ∃ table T, WellShaped (b.toProgram (mainCode code source) source) table T
      ∧ ∀ i pc e, b.emitted? (mainCode code source) i pc = some e → e.Starts (T ⟨i, pc⟩) := by
  obtain ⟨table, htable, hresolve⟩ :=
    LabelTable.ofLabels_nodup _ (tabled_of_compiled h source).labels
  have hshapes : ∀ i, ∃ Γ : LabelShapes, ∃ T : Nat → Shape, T 0 = ⟨[], 0⟩ ∧
      ∀ c, b.sectionCode? (mainCode code source) i = some c →
        Shapes ⟨b.constants.size, i != 0⟩ Γ Γ c T := by
    intro i
    cases hc : b.sectionCode? (mainCode code source) i with
    | none => exact ⟨[], fun _ => ⟨[], 0⟩, rfl, nofun⟩
    | some c =>
      obtain ⟨⟨τ, hfits⟩, -⟩ := section_fits h hctx hexits source hc
      obtain ⟨Γ, T, h₀, hT⟩ := hfits.shapes
      refine ⟨Γ, T, h₀, fun c' hc' => ?_⟩
      cases hc'
      exact hT
  choose Γ T h₀ hT using hshapes
  refine ⟨table, fun loc => T loc.sectionIndex loc.pc, ⟨htable, h₀, ?_, ?_, ?_⟩, ?_⟩
  · intro i pc ins hins
    rw [Builder.instruction?_toProgram] at hins
    obtain ⟨e, he, rfl⟩ := Option.map_eq_some_iff.mp hins
    obtain ⟨c, hc, hpc⟩ := Option.bind_eq_some_iff.mp he
    refine ((hT i c hc).typed pc e hpc).mono fun l ρ hl => ?_
    obtain ⟨pc', e', he', hop, hρ⟩ := (hT i c hc).placed l ρ hl
    have hins' : (b.toProgram (mainCode code source) source).instruction? i pc'
        = some e'.instruction := by
      rw [Builder.instruction?_toProgram, Builder.emitted?, hc, Option.bind_some, he']
      rfl
    exact ⟨pc', hresolve l _ (mem_labels hins' hop), by rw [hins']; rfl, hρ⟩
  · intro i pc ins hins hleave hnext
    rw [Builder.instruction?_toProgram] at hins
    obtain ⟨e, he, rfl⟩ := Option.map_eq_some_iff.mp hins
    obtain ⟨c, hc, hpc⟩ := Option.bind_eq_some_iff.mp he
    refine (hT i c hc).levels pc e hpc hleave fun next hmem => hnext next.instruction ?_
    rw [List.head?_drop] at hmem
    rw [Builder.instruction?_toProgram, Builder.emitted?, hc, Option.bind_some, Option.mem_def.mp hmem]
    rfl
  · intro i s hs
    obtain ⟨c, hc, hcode⟩ := Builder.code_of_section _ _ _ hs
    obtain ⟨-, c₀, e, rfl, hop⟩ := section_fits h hctx hexits source hc
    refine ⟨e.instruction, ?_, hop⟩
    rw [← Array.getLast?_toList, hcode, List.map_append, List.map_singleton]
    exact List.getLast?_concat
  · intro i pc e he
    obtain ⟨c, hc, hpc⟩ := Option.bind_eq_some_iff.mp he
    exact (hT i c hc).starts pc e hpc

end

end ScriptMachine
