import ScriptMachine.Proofs.Machine.Sessions

/-!
# The stack at the start of a statement

Before the first instruction of a statement the running frame holds one entry for each exit scope
around the statement, and nothing else.

* `Marks`               the entry that an exit scope leaves on the stack;
* `Stack.frame`         the entries of the running frame, the top first;
* `Machine.load_ok`     the machine of a program, where there is one;
* `frame_at_statement`  the entries are those of the exit scopes, in every run of every session.
-/

namespace ScriptMachine

/-- an exit scope and the entry that it has on the stack -/
inductive Marks : ExitScope → Slot → Prop
  | loop {next done : Label} {env : EnvId} : Marks (.loop next done) (.loopMarker env)
  | guarded {finalizer : Option (List Stmt)} {region : TryRegion} :
    Marks (.guarded finalizer) (.tryRegion region)
  | pendingThrow {value : Value} : Marks .pendingThrow (.value value)

/-- the entries above the call of the running function, or all in the main code, the top first -/
def Stack.frame (s : Stack) : List Slot :=
  s.slots.takeWhile fun slot => (Exec.callSite? slot).isNone

section
variable {program : Program} {T : Location → Shape} {heap : Heap} {global base : EnvId}
  {hosted : Bool} {i : Nat} {es : List Entry} {own rest : List Slot}

theorem Frames.takeWhile_eq (h : Frames program T heap global hosted i base rest) :
    rest.takeWhile (fun slot => (Exec.callSite? slot).isNone) = [] := by
  cases h with
  | main _ _ => rfl
  | host _ _ _ => rfl
  | call _ _ _ _ _ _ => rfl

/-- below the slots of a frame is a call site or nothing -/
theorem Frames.frame_eq (h : Frames program T heap global hosted i base rest)
    (hown : Holds program T heap base i es own) : (Stack.of (own ++ rest)).frame = own := by
  have hall : ∀ slot ∈ own, (Exec.callSite? slot).isNone = true := by
    intro slot hslot
    rw [hown.noSite slot hslot]
    rfl
  show (own ++ rest).takeWhile _ = own
  rw [List.takeWhile_append_of_pos hall, h.takeWhile_eq, List.append_nil]

/-- slots that are as exit scopes leave them -/
theorem Holds.marks (h : Holds program T heap base i es own) {exits : List ExitScope}
    (hexits : List.Forall₂ Leaves exits es) : List.Forall₂ Marks exits own := by
  induction h generalizing exits with
  | nil =>
    cases hexits
    exact .nil
  | value _ _ ih =>
    cases hexits with
    | cons hfirst hexits =>
      cases hfirst
      exact .cons .pendingThrow (ih hexits)
  | loop _ _ ih =>
    cases hexits with
    | cons hfirst hexits =>
      cases hfirst
      exact .cons .loop (ih hexits)
  | guard _ _ _ ih =>
    cases hexits with
    | cons hfirst hexits =>
      cases hfirst
      exact .cons .guarded (ih hexits)
  | callee _ _ _ _ =>
    cases hexits with
    | cons hfirst _ => cases hfirst
  | result _ _ _ =>
    cases hexits with
    | cons hfirst _ => cases hfirst

end

theorem Machine.load_ok {program : Program} {limits : Limits} {m : Machine}
    (h : Machine.load program limits = .ok m) :
    ∃ table, program.labelTable = .ok table
      ∧ m = ⟨⟨program, table, ⟨0⟩, []⟩, limits,
        ⟨⟨0, 0⟩, ⟨0⟩, Stack.empty, (Heap.empty.newGlobal).2, []⟩, .paused, false⟩ := by
  unfold Machine.load at h
  cases hverify : program.verify with
  | error e =>
    rw [hverify] at h
    cases h
  | ok _ =>
    rw [hverify] at h
    cases hlabels : program.labelTable with
    | error l =>
      unfold Program.checkedLabels at h
      rw [hlabels] at h
      cases h
    | ok table =>
      unfold Program.checkedLabels at h
      rw [hlabels] at h
      cases h
      exact ⟨table, rfl, rfl⟩

/-- **The exit scopes of a statement are what is on the stack.**  Take any session with a machine of a
compiled program, any run that the host starts then, and any place that the run gets to.  If the
instruction there is the first one of a statement, the entries of the running frame are, one by one,
those of the exit scopes around the statement when it was compiled, the innermost on top. -/
theorem frame_at_statement (body : List Stmt) (source : Source) (code : Code) (b : Builder)
    (hcode : (Compile.statements { source := source } body).run {} = .ok (code, b))
    (program : Program) (hprogram : compileProgram body source = .ok program)
    (limits : Limits) (m₀ : Machine) (hload : Machine.load program limits = .ok m₀)
    (ops : List HostOp) (m : Machine) (hm : m₀.after ops = some m)
    (drive : Drive) (first run : Run) (hfirst : m.Enters drive first)
    (n : Nat) (hrun : first.ahead m.linked m.limits drive n = some run) :
    ∃ e, b.emitted? (mainCode code source) run.state.location.sectionIndex run.state.location.pc
        = some e
      ∧ program.instruction? run.state.location.sectionIndex run.state.location.pc
        = some e.instruction
      ∧ ∀ exits, e.statement = some exits → List.Forall₂ Marks exits run.state.stack.frame := by
  have hbody := Compile.bodyCode_of_ok _ _ _ _ _ hcode
  obtain rfl : b.toProgram (mainCode code source) source = program := by
    unfold compileProgram at hprogram
    rw [hcode] at hprogram
    exact Except.ok.inj hprogram
  obtain ⟨table, T, hshape, hstarts⟩ := wellShaped_of_compiled hbody rfl rfl source
  obtain ⟨table', htable, rfl⟩ := Machine.load_ok hload
  obtain rfl : table = table' := Except.ok.inj (hshape.labels.symm.trans htable)
  have hok := (Machine.Ok.loaded hshape (tabled_of_compiled hbody source) limits).after hm
  obtain ⟨hexists, -, -, base, own, rest, hstack, hframes, hholds, -⟩ :=
    ahead_sound hok.shaped hok.tabled (hok.enters hfirst) hrun
  have hins := Builder.instruction?_toProgram b (mainCode code source) source
    run.state.location.sectionIndex run.state.location.pc
  rw [hok.runs, hins, Option.isSome_map] at hexists
  obtain ⟨e, he⟩ := Option.isSome_iff_exists.mp hexists
  rw [he] at hins
  refine ⟨e, he, hins, fun exits hexits => ?_⟩
  rw [hstack, hframes.frame_eq hholds]
  exact hholds.marks (hstarts _ _ e he exits hexits)

/-- `while (true) { try { throw true; } finally { ; } }` -/
def throwingInLoop : List Stmt :=
  let at_ : TokenRange := ⟨0, 0⟩
  let always : Expr := .node (.bool true) at_
  let throwing : Stmt := .node (.throwValue always) at_
  let guarded : Stmt := .node (.tryCatch [throwing] none (some [.node .empty at_])) at_
  [.node (.whileLoop always (.node (.block [guarded]) at_)) at_]

/-- the kinds of the entries of the running frame after so many instructions, and whether a statement
starts there -/
def kindsAfter (body : List Stmt) (n : Nat) : Option (List String × Bool) :=
  match compileProgram body ⟨#[], ""⟩ with
  | .error _ => none
  | .ok program =>
    match Machine.load program {} with
    | .error _ => none
    | .ok m =>
      (Run.ahead m.linked m.limits .run n ⟨m.state, 0, m.moved⟩).bind fun run =>
        (program.instruction? run.state.location.sectionIndex run.state.location.pc).map fun ins =>
          (run.state.stack.frame.map Slot.kind, ins.startsStatement)

/-- before the `throw` there are the region and the loop -/
theorem frame_at_throw :
    ∃ (b : Builder) (code : Code) (m : Machine) (run : Run) (e : Emitted) (exits : List ExitScope),
      Run.ahead m.linked m.limits .run 7 ⟨m.state, 0, m.moved⟩ = some run
      ∧ run.state.stack.frame.map Slot.kind = ["try region", "loop marker"]
      ∧ b.emitted? (mainCode code ⟨#[], ""⟩) run.state.location.sectionIndex run.state.location.pc
        = some e
      ∧ e.statement = some exits ∧ List.Forall₂ Marks exits run.state.stack.frame := by
  have hkinds : kindsAfter throwingInLoop 7 = some (["try region", "loop marker"], true) := by cbv
  unfold kindsAfter at hkinds
  cases hprogram : compileProgram throwingInLoop ⟨#[], ""⟩ with
  | error e =>
    rw [hprogram] at hkinds
    cases hkinds
  | ok program =>
    rw [hprogram] at hkinds
    dsimp only at hkinds
    cases hload : Machine.load program {} with
    | error e =>
      rw [hload] at hkinds
      cases hkinds
    | ok m =>
      rw [hload] at hkinds
      obtain ⟨run, hrun, hins⟩ := Option.bind_eq_some_iff.mp hkinds
      obtain ⟨ins, hins, hresult⟩ := Option.map_eq_some_iff.mp hins
      obtain ⟨hframe, hstarts⟩ := Prod.mk.inj hresult
      obtain ⟨code, b, hcode, -⟩ := compileProgram_run hprogram
      have hmode : m.mode = .paused := by
        obtain ⟨_, -, rfl⟩ := Machine.load_ok hload
        rfl
      obtain ⟨e, he, hins', hmarks⟩ := frame_at_statement throwingInLoop ⟨#[], ""⟩ code b hcode program
        hprogram {} m hload [] m rfl .run _ run (.run hmode) 7 hrun
      rw [hins] at hins'
      cases hins'
      obtain ⟨exits, hexits⟩ := Option.isSome_iff_exists.mp hstarts
      exact ⟨b, code, m, run, e, exits, hrun, hframe, he, hexits, hmarks exits hexits⟩

end ScriptMachine
