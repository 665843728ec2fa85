import ScriptMachine.Proofs.Machine.Stepping
import ScriptMachine.Proofs.Meaning.Layout
import ScriptMachine.Proofs.Meaning.Runs

/-!
# Compiled programs do what structured programs mean

* `World.Seen`          what the evaluator and the machine hold in common in the end;
* `followed_program`    the code of a program follows its evaluation;
* `Stop.Meets`          how a run stops where the evaluator has come to an end;
* `Structured.course`   the run of a structured program beside its evaluation;
* `compileProgram_preserves`   the main statement.
-/

namespace ScriptMachine

/-! ## what both hold in common -/

/-- The machine has shown the same, and holds the same arrays and bindings but for the hidden
variable. -/
structure World.Seen (w : World) (s : State) : Prop where
  events : s.events = w.events
  arrays : s.heap.arrays = w.heap.arrays
  own : ∀ env name, name ≠ returnSlot → s.heap.getOwn? env name = w.heap.getOwn? env name

theorem Twin.Ok.seen {t : Twin} {global : EnvId} {n : Nat} (h : t.Ok global n) {s : State}
    (hheap : s.heap = t.heap) (hevents : s.events = t.world.events) : t.world.Seen s := by
  refine ⟨hevents, ?_, fun env name hname => ?_⟩
  · rw [hheap]
    exact h.arrays
  · rw [hheap]
    exact h.own env name hname

/-- the data of a simple value depend on arrays only -/
theorem Program.toHostWithin_congr {h h' : Heap} {n : Nat} (program : Program)
    (harr : h.arrays = h'.arrays) (hitems : ∀ id, ∀ v ∈ h'.items id, v.Simple n) (levels : Nat)
    {v : Value} (hv : v.Simple n) :
    program.toHostWithin h levels v = program.toHostWithin h' levels v := by
  induction levels generalizing v with
  | zero => rfl
  | succ levels ih =>
    cases v with
    | object env => exact hv.elim
    | array id =>
      have hmap : (h.items id).toList.map (program.toHostWithin h levels)
          = (h'.items id).toList.map (program.toHostWithin h' levels) := by
        rw [Heap.items_congr harr id]
        exact List.map_congr_left fun w hw => ih (hitems id w (Array.mem_toList_iff.mp hw))
      rw [toHostWithin, toHostWithin, hmap]
    | _ => rfl

/-! ## the code of a program -/

section
variable {linked : Linked} {functions : List FunctionDecl} {call : Nat → List Value → Eval Value}
  {fuel : Nat}

/-- a declared function needs no code where it stands -/
theorem followed_function (decl : FunctionDecl) (range : TokenRange) :
    StmtFollowed linked functions call fuel (.node (.function decl) range) := by
  intro ctx b b' c hc _ _ loc hat t env st hk
  cases hc with
  | form _ hform =>
    cases hform with
    | jump htarget => cases htarget
    | jumpCrossing htarget => cases htarget
    | function _ _ => exact follows_started hat hk.ok fun _ _ => .here hk.ok .normal

/-- The code of a program follows its evaluation. -/
theorem followed_program (hm : linked.Means functions) (hcall : Calls linked functions call fuel)
    (body : List Stmt) (hlang : ∀ stmt ∈ body, stmt.TopInLanguage) (hapart : Stmt.AllApart body) :
    BodyFollowed linked functions call fuel body := by
  induction body with
  | nil => exact .nil
  | cons stmt rest ih =>
    obtain ⟨hfirst, hrest⟩ := List.forall_mem_cons.mp hlang
    refine .cons ?_ (ih hrest hapart.2)
    rcases hfirst.cases with ⟨decl, range, rfl, -⟩ | ⟨hstmt, -⟩
    · exact followed_function decl range
    · exact followed_stmt hm hcall stmt hstmt hapart.1

end

/-! ## the end of a program -/

/-- A run halts where the evaluation ends normally, and fails where it throws. -/
def Stop.Meets (program : Program) (w : World) : Completion → Stop → Prop
  | .normal, .halted s => w.Seen s
  | .throws v, .failed error s =>
    (∃ frames, error = .uncaught (w.heap.text v) (program.toHost w.heap v) frames) ∧ w.Seen s
  | _, _ => False

section
variable {linked : Linked} {n : Nat}

theorem Raises.meets {s : State} {v : Value} {t : Twin} (ht : t.Ok linked.global n) (hv : v.Simple n)
    (h : Raises linked s v [] t.heap t.world.events) :
    ∃ stop, Finishes linked s stop ∧ stop.Meets linked.program t.world (.throws v) := by
  obtain ⟨k, s₁, s₂, ins, frames, hsteps, hins, hex, hheap, hevents⟩ := h.uncaught Stack.unwindThrow_nil
  refine ⟨_, ⟨k, s₁, ins, hsteps, hins, fun cycles => congrArg _ hex⟩, ⟨frames, ?_⟩,
    ht.seen hheap hevents⟩
  show RuntimeError.uncaught (s₂.heap.text v) (linked.program.toHost s₂.heap v) frames = _
  rw [hheap, Heap.text_congr ht.arrays]
  exact congrArg (RuntimeError.uncaught _ · _)
    (linked.program.toHostWithin_congr ht.arrays ht.items _ hv)

/-- the end of the main code is the end of the run -/
theorem Reaches.meets {ctx : Context} (hexits : ctx.exits = []) (hmain : ctx.inFunction = false)
    {stop : Location} {env : EnvId} {X : List String} {c : Completion} {t : Twin} {s : State}
    {range : Option TokenRange} (hat : At linked.program stop [⟨.halt, range, none⟩])
    (ht : t.Ok linked.global n) (h : Reaches linked n ctx stop env [] X c t s) :
    ∃ stop, Finishes linked s stop ∧ stop.Meets linked.program t.world c := by
  cases h with
  | normal =>
    obtain ⟨ins, hins, hop⟩ := hat 0 _ rfl
    have hhalt : execute linked ins.op (t.at stop env [])
        = .ok .halt (t.at (stop.skip 1) env []) := by
      rw [hop]
      rfl
    exact ⟨_, ⟨0, _, ins, .refl, hins, fun cycles => congrArg _ hhalt⟩, ht.seen rfl rfl⟩
  | throws hv h => exact h.meets ht hv
  | jumps hj _ =>
    cases hj with
    | breaks hl =>
      rw [hexits] at hl
      cases hl
    | continues hl =>
      rw [hexits] at hl
      cases hl
    | returns hfun _ => cases hmain.symm.trans hfun

end

/-! ## programs -/

/-- machine and evaluator before a program -/
def Twin.initial : Twin := ⟨fun _ => [], (Heap.empty.newGlobal).2, ⟨(Heap.empty.newGlobal).2, []⟩⟩

theorem Twin.Ok.initial (n : Nat) : Twin.initial.Ok ⟨0⟩ n where
  size := rfl
  arrays := rfl
  own _ _ _ := rfl
  bound env name _ hown := by
    have hown' : ((Heap.empty.newGlobal).2.getOwn? env name).isSome = true := hown
    unfold Heap.newGlobal at hown'
    rw [Heap.getOwn?_newEnv] at hown'
    cases hown'
  values env name v hv := by
    have hv' : (Heap.empty.newGlobal).2.getOwn? env name = some v := hv
    unfold Heap.newGlobal at hv'
    rw [Heap.getOwn?_newEnv] at hv'
    cases hv'
  items id v hv := by
    cases hv with
    | mk hv => cases hv
  root := Nat.zero_lt_one
  noParent := rfl
  noParent' := rfl

section
variable {body : List Stmt} {source : Source} {code : Code} {b : Builder} {table : LabelTable}

/-- The run of a structured program beside its evaluation: where the evaluation ends, the run meets
it, and while it lasts, the run goes on. -/
theorem Structured.course (hs : Structured body) (hcode : BodyCode { source := source } body {} code b)
    (htable : (b.toProgram (mainCode code source) source).labelTable = .ok table) (fuel : Nat) :
    match execProgram fuel body with
    | none => Late (linkedProgram b code source table) fuel (Twin.initial.at ⟨0, 0⟩ ⟨0⟩ [])
    | some (c, w) => ∃ stop,
        Finishes (linkedProgram b code source table) (Twin.initial.at ⟨0, 0⟩ ⟨0⟩ []) stop
          ∧ stop.Meets (b.toProgram (mainCode code source) source) w c := by
  have hm := hs.means hcode htable
  have hfunction (decl : FunctionDecl) (hdecl : decl ∈ topFunctions body) :
      decl.InLanguage ∧ decl.Apart := by
    obtain ⟨range, hmem⟩ := mem_topFunctions hdecl
    exact ⟨hs.language _ hmem, hs.apart.of_mem hmem⟩
  have hcall := calls hm (hs.defines hcode) (fun decl hdecl => (hfunction decl hdecl).1)
    (fun decl hdecl => (hfunction decl hdecl).2) fuel
  have hmain : At (b.toProgram (mainCode code source) source) ⟨0, 0⟩ (mainCode code source) :=
    .ofSection source rfl
  have hknows : Knows ⟨0⟩ (topFunctions body).length Twin.initial ⟨0⟩ (Stmt.mentionsAll body)
      (Stmt.directAll body) := ⟨.initial _, .global, fun _ _ hne => absurd rfl hne⟩
  have hfollows : Follows (linkedProgram b code source table) (topFunctions body).length fuel ⟨0⟩
      Twin.initial (Twin.initial.at ⟨0, 0⟩ ⟨0⟩ []) (execProgram fuel body)
      (Reaches (linkedProgram b code source table) (topFunctions body).length { source := source }
        (Location.skip ⟨0, 0⟩ code.length) ⟨0⟩ [] (Stmt.innerAll body)) :=
    followed_program hm hcall body hs.language hs.apart _ _ _ _ hcode nofun (List.prefix_refl _) ⟨0, 0⟩
      hmain.left Twin.initial ⟨0⟩ [] hknows
  cases hexec : execProgram fuel body with
  | none =>
    rw [hexec] at hfollows
    exact hfollows
  | some r =>
    rw [hexec] at hfollows
    obtain ⟨t, k, s, hw, hmoves, hsteps, hreaches⟩ := hfollows
    obtain ⟨stop, hfinishes, hmeets⟩ := hreaches.meets rfl rfl hmain.right hmoves.ok
    rw [hw] at hmeets
    exact ⟨stop, hsteps.finishes hfinishes, hmeets⟩

end

/-! ## the machine of a program -/

/-- The host gets what the evaluation of a program came to.  A value that nothing catches is reported
with its text and its data. -/
def Machine.Meets (program : Program) (w : World) (c : Completion) (outcome : Outcome Mode) : Prop :=
  w.Seen outcome.2.state ∧ outcome.2.mode = .done
    ∧ match c with
      | .normal => outcome.1 = .ok .done
      | .throws v => ∃ frames,
          outcome.1 = .error (.uncaught (w.heap.text v) (program.toHost w.heap v) frames)
      | _ => False

theorem Stop.Meets.finishRun {program : Program} {w : World} {c : Completion} {stop : Stop}
    (h : stop.Meets program w c) (m : Machine) : Machine.Meets program w c (m.finishRun stop) := by
  cases c with
  | normal =>
    cases stop with
    | halted s => exact ⟨h, rfl, rfl⟩
    | paused _ | returned _ | failed _ _ => exact h.elim
  | throws v =>
    cases stop with
    | failed error s =>
      obtain ⟨⟨frames, herror⟩, hseen⟩ := h
      exact ⟨⟨hseen.events, hseen.arrays, hseen.own⟩, rfl, frames, congrArg Except.error herror⟩
    | paused _ | halted _ | returned _ => exact h.elim
  | breaks | continues | returns => exact h.elim

/-- a limit was in the way -/
def Machine.Limited (outcome : Outcome Mode) : Prop :=
  ∃ error, outcome.1 = .error error ∧ error.isLimit = true

theorem Stop.limited {stop : Stop} (h : stop.isLimit = true) (m : Machine) :
    Machine.Limited (m.finishRun stop) := by
  cases stop with
  | failed error s => exact ⟨error, rfl, h⟩
  | paused _ | halted _ | returned _ => cases h

/-- **Compilation keeps the meaning of structured programs.**  If the evaluation of a program ends,
normally or with a thrown value, then every machine for its code that may take enough instructions and
a deep enough stack gets to the same end: it has shown the same, and holds the same arrays and bindings.
In the other direction, what a run of such a machine comes to is what the evaluation comes to, unless
the run is stopped at a limit. -/
theorem compileProgram_preserves (body : List Stmt) (hs : Structured body) (source : Source)
    (program : Program) (hprogram : compileProgram body source = .ok program) :
    (∀ fuel c w, execProgram fuel body = some (c, w) → ∃ bound, ∀ limits m,
        Machine.load program limits = .ok m → limits.Allow bound bound → ∀ n, bound ≤ n →
          ∃ outcome, m.run n = some outcome ∧ Machine.Meets program w c outcome)
      ∧ ∀ limits m n outcome, Machine.load program limits = .ok m → m.run n = some outcome →
          Machine.Limited outcome
            ∨ ∃ fuel c w, execProgram fuel body = some (c, w) ∧ Machine.Meets program w c outcome := by
  obtain ⟨code, b, hcode, rfl⟩ := compileProgram_ok hprogram
  obtain ⟨table, htable⟩ : ∃ table, (b.toProgram (mainCode code source) source).labelTable = .ok table := by
    obtain ⟨table, T, hshape, -⟩ := wellShaped_of_compiled hcode rfl rfl source
    exact ⟨table, hshape.labels⟩
  constructor
  · intro fuel c w hexec
    have hcourse := hs.course hcode htable fuel
    rw [hexec] at hcourse
    obtain ⟨stop, hfinishes, hmeets⟩ := hcourse
    obtain ⟨bound, hruns⟩ := hfinishes.runs
    refine ⟨bound, fun limits m hload hallow n hn => ?_⟩
    obtain ⟨table', htable', rfl⟩ := Machine.load_ok hload
    obtain rfl : table = table' := Except.ok.inj (htable.symm.trans htable')
    rw [Machine.run, Machine.resume_eq rfl]
    exact ⟨_, congrArg (Option.map _) (hruns limits n false hallow hn), hmeets.finishRun _⟩
  · intro limits m n outcome hload hrun
    obtain ⟨table', htable', rfl⟩ := Machine.load_ok hload
    obtain rfl : table = table' := Except.ok.inj (htable.symm.trans htable')
    rw [Machine.run, Machine.resume_eq rfl] at hrun
    obtain ⟨stop, hstop, rfl⟩ := Option.map_eq_some_iff.mp hrun
    have hcourse := hs.course hcode htable n
    cases hexec : execProgram n body with
    | none =>
      rw [hexec] at hcourse
      exact .inl (Stop.limited (hcourse.of_stop hstop) _)
    | some r =>
      rw [hexec] at hcourse
      obtain ⟨stop', hfinishes, hmeets⟩ := hcourse
      rcases hfinishes.only hstop with hlimit | rfl
      · exact .inl (Stop.limited hlimit _)
      · exact .inr ⟨n, r.1, r.2, hexec, hmeets.finishRun _⟩

/-- `function f(x) { while (true) try { return x; } finally { print(x); } }  var y = f([null]);  print(y);` -/
def handingOut : List Stmt :=
  let at_ : TokenRange := ⟨0, 0⟩
  let use (name : String) : Expr := .node (.variable name) at_
  let call (name : String) (arg : Expr) : Expr := .node (.call (use name) [arg]) at_
  let showing (name : String) : Stmt := .node (.expression (call "print" (use name))) at_
  let returning : Stmt := .node (.returnValue (some (use "x"))) at_
  let guarded : Stmt := .node (.tryCatch [returning] none (some [showing "x"])) at_
  let loop : Stmt := .node (.whileLoop (.node (.bool true) at_) guarded) at_
  let result : Expr := call "f" (.node (.array [.node .null at_]) at_)
  [.node (.function (.mk (some "f") ["x"] [loop] at_)) at_, .node (.varDecl "y" (some result)) at_,
    showing "y"]

theorem structured_handingOut : Structured handingOut where
  language := by
    have hproper : Proper "f" ∧ Proper "x" ∧ Proper "y" ∧ Proper "print" := by decide
    obtain ⟨hf, hx, hy, hprint⟩ := hproper
    have hfunction : Stmt.TopInLanguage (handingOut.head nofun) :=
      ⟨rfl, List.forall_mem_singleton.mpr hx, ⟨trivial, ⟨hx, trivial⟩, trivial, ⟨hprint, hx, trivial⟩,
        trivial⟩, trivial⟩
    refine List.forall_mem_cons.mpr ⟨hfunction, List.forall_mem_cons.mpr ⟨?_, ?_⟩⟩
    · exact ⟨hy, hf, ⟨trivial, trivial⟩, trivial⟩
    · exact List.forall_mem_singleton.mpr ⟨hprint, hy, trivial⟩
  once := by decide
  print := by decide
  sighted := by
    refine ⟨⟨⟨?_, ⟨?_, trivial⟩, trivial, ⟨?_, trivial⟩⟩, trivial⟩, ?_, ?_, trivial⟩
    all_goals
      show Sighted _ _ _
      decide

/-- what a program has shown if it is done after at most so many instructions -/
def shownAfter (body : List Stmt) (n : Nat) : Option (List Event) :=
  match compileProgram body ⟨#[], ""⟩ with
  | .error _ => none
  | .ok program =>
    match Machine.load program {} with
    | .error _ => none
    | .ok m =>
      match m.run n with
      | some (.ok .done, m') => some m'.state.events
      | _ => none

theorem compileProgram_preserves_handingOut :
    Structured handingOut ∧ ∃ program, compileProgram handingOut ⟨#[], ""⟩ = .ok program
      ∧ ∃ fuel w, execProgram fuel handingOut = some (.normal, w)
        ∧ w.events = [.printed "null", .printed "null"]
        ∧ ∃ bound, ∀ limits m, Machine.load program limits = .ok m → limits.Allow bound bound →
          ∀ n, bound ≤ n → ∃ outcome, m.run n = some outcome ∧ Machine.Meets program w .normal outcome := by
  have hshown : shownAfter handingOut 100 = some [.printed "null", .printed "null"] := by cbv
  unfold shownAfter at hshown
  split at hshown
  · cases hshown
  · next program hprogram =>
    split at hshown
    · cases hshown
    · next m hload =>
      split at hshown
      · next m' hrun =>
        obtain ⟨hforth, hback⟩ := compileProgram_preserves handingOut structured_handingOut ⟨#[], ""⟩
          program hprogram
        rcases hback {} m 100 _ hload hrun with ⟨error, herror, -⟩ | ⟨fuel, c, w, hexec, hseen, -, hc⟩
        · cases herror
        · cases c with
          | normal =>
            have hevents : w.events = [.printed "null", .printed "null"] :=
              hseen.events.symm.trans (Option.some.inj hshown)
            exact ⟨structured_handingOut, program, hprogram, fuel, w, hexec, hevents, hforth fuel _ w hexec⟩
          | throws v =>
            obtain ⟨frames, hfailed⟩ := hc
            cases hfailed
          | breaks | continues | returns => exact hc.elim
      · cases hshown

/-- `function f() { var x = "outer"; try { var x = "inner"; leaving } finally { print(x); } }  f();` -/
def shadowing (leaving : StmtForm) : List Stmt :=
  let at_ : TokenRange := ⟨0, 0⟩
  let use (name : String) : Expr := .node (.variable name) at_
  let declaring (text : String) : Stmt := .node (.varDecl "x" (some (.node (.string text) at_))) at_
  let showing : Stmt := .node (.expression (.node (.call (use "print") [use "x"]) at_)) at_
  let guarded : Stmt :=
    .node (.tryCatch [declaring "inner", .node leaving at_] none (some [showing])) at_
  [.node (.function (.mk (some "f") [] [declaring "outer", guarded] at_)) at_,
    .node (.expression (.node (.call (use "f") []) at_)) at_]

/-- Where a name is declared twice, the finalizer may find another one than the evaluator does.  It runs
in the scope around its region if the region ends normally, but inside of the region if a `return`
crosses it. -/
theorem finalizer_captures :
    shownAfter (shadowing .empty) 100 = some [.printed "outer"]
      ∧ shownAfter (shadowing (.returnValue none)) 100 = some [.printed "inner"] := by
  constructor
  · cbv
  · cbv

end ScriptMachine
