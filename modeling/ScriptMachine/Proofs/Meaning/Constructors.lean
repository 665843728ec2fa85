import ScriptMachine.Proofs.Machine.Statements
import ScriptMachine.Proofs.Meaning.Names

/-!
# Which constructor `new` calls

An object gets the methods of the first class of its name.  Its constructor is called by name: the name
that the class gives it is looked up like a variable, and of functions with that name the last one
counts.

* `class_of_compiled`     methods stand in the function table under the names that their class gives them;
* `getOwn?_defineMethods`   what an object has of a method;
* `step_createObject`     an object with the methods of its class;
* `new_constructor`       when the constructor that is called is the one of the object.
-/

namespace ScriptMachine

/-! ## methods -/

/-- a class that is found has a constructor, and its methods stand in the function table -/
theorem class_of_compiled {body : List Stmt} {source : Source} {program : Program}
    (h : compileProgram body source = .ok program) {className : String} {entry : ClassEntry}
    (hclass : program.class? className = some entry) :
    (∃ index, (constructorName, index) ∈ entry.methods)
      ∧ ∀ m ∈ entry.methods, program.functionNames[m.2]? = some (methodName className m.1) := by
  have hmem : entry ∈ program.classes := List.mem_of_find?_eq_some hclass
  have hfound := List.find?_some hclass
  obtain rfl : entry.name = className := of_decide_eq_true hfound
  obtain ⟨code, b, hcode, rfl⟩ := compileProgram_ok h
  refine ⟨((tabled_of_compiled hcode source).classes entry hmem).1, fun m hm => ?_⟩
  rcases hcode.grows.methods entry (Array.mem_toList_iff.mp hmem) with hold | hnamed
  · exact absurd hold (Array.not_mem_empty entry)
  · have hname := hnamed m hm
    rw [← Array.getElem?_map, ← Array.getElem?_toList] at hname
    exact hname

theorem methodName_ne_this (className method : String) : methodName className method ≠ "this" := by
  intro h
  have hchars := congrArg (fun text : String => text.toList.head?) h
  simp [methodName] at hchars

/-- A method that a class lists is there, and of several with one name the last one. -/
theorem getOwn?_defineMethods {env : EnvId} (name : String) (methods : List (String × Nat)) (heap : Heap)
    (henv : env.index < heap.cells.size) :
    (∃ index, (name, index) ∈ methods
        ∧ (Exec.defineMethods env methods heap).getOwn? env name = some (.function index))
      ∨ (∀ m ∈ methods, m.1 ≠ name)
        ∧ (Exec.defineMethods env methods heap).getOwn? env name = heap.getOwn? env name := by
  induction methods generalizing heap with
  | nil => exact .inr ⟨nofun, rfl⟩
  | cons first rest ih =>
    obtain ⟨n, i⟩ := first
    have hsize : env.index < (heap.define env n (.function i)).cells.size := by
      show env.index < (heap.cells.modify _ _).size
      rwa [Array.size_modify]
    rcases ih (heap.define env n (.function i)) hsize with ⟨index, hmem, hown⟩ | ⟨hnone, hown⟩
    · exact .inl ⟨index, List.mem_cons_of_mem _ hmem, hown⟩
    · by_cases heq : n = name
      · subst heq
        refine .inl ⟨i, List.mem_cons_self, hown.trans ?_⟩
        exact Heap.getOwn?_define_self heap henv n _
      · refine .inr ⟨fun m hm => ?_, hown.trans ?_⟩
        · rcases List.mem_cons.mp hm with rfl | hm
          · exact heq
          · exact hnone m hm
        · rw [Heap.getOwn?_define, if_neg fun h => heq h.2.symm]

/-! ## the two ways to a constructor -/

/-- the heap with a new object of a class, and the object -/
def newInstance (linked : Linked) (entry : ClassEntry) (heap : Heap) : EnvId × Heap :=
  let object := heap.newObject linked.global
  (object.1, Exec.defineMethods object.1 entry.methods object.2)

section
variable {linked : Linked} {s : State} {entry : ClassEntry} {className : String} {range : TokenRange}

theorem step_createObject (h : At linked.program s.location (one (.createObject className) range))
    (hclass : linked.program.class? className = some entry) :
    Steps linked s 1 { s with
      location := s.location.skip 1
      stack := s.stack.push (.value (.object (newInstance linked entry s.heap).1))
      heap := (newInstance linked entry s.heap).2 } := by
  have hcreate : Exec.createObject className linked { s with location := s.location.skip 1 }
      = .ok () { s with
        location := s.location.skip 1
        stack := s.stack.push (.value (.object (newInstance linked entry s.heap).1))
        heap := (newInstance linked entry s.heap).2 } := by
    unfold Exec.createObject
    rw [Exec.read_bind, hclass]
    rfl
  exact h.step (Exec.bind_ok hcreate _)

theorem step_callFunction {index : Nat} {f : FunctionEntry} {vs : List Value} {st : List Slot}
    (receiver : Option Value) (h : At linked.program s.location (one (.call vs.length receiver.isSome) range))
    (hf : linked.program.functions[index]? = some f)
    (hslots : s.stack.slots
      = .value (.function index) :: (vs.map .value ++ (receiver.toList.map .value ++ st))) :
    Steps linked s 1 (Exec.calleeState linked index f vs receiver false
      { s with location := s.location.skip 1, stack := .of st }) := by
  have hcall := Exec.callValue_function hf vs receiver st { s with location := s.location.skip 1 }
  rw [← hslots, ← Stack.eq_of] at hcall
  exact h.step (Exec.bind_ok hcall _)

theorem getOwn?_newInstance {name : String} {index : Nat} (hm : (name, index) ∈ entry.methods)
    (heap : Heap) :
    ∃ index, (name, index) ∈ entry.methods
      ∧ (newInstance linked entry heap).2.getOwn? (newInstance linked entry heap).1 name
        = some (.function index) := by
  have hnew : heap.cells.size < (heap.newObject linked.global).2.cells.size := by
    show heap.cells.size < (heap.cells.push _).size
    rw [Array.size_push]
    exact Nat.lt_succ_self _
  rcases getOwn?_defineMethods name entry.methods _ hnew with hown | ⟨hnone, -⟩
  · exact hown
  · exact absurd rfl (hnone _ hm)

end

/-- **When `new` calls the constructor of its class.**  Run the code of `new className(args)` in a compiled
program.  An object comes onto the stack that has the methods of the first class of that name; its property
`constructor` is one of them.  Wherever the values of the arguments lie on top of it, the constructor is
fetched by the name that the class gives it and entered with these arguments and that object.  It is the
function of the property if and only if the name is bound to this very function, or is not bound at all
and no later function of the table has the same name. -/
theorem new_constructor {body : List Stmt} {source : Source} {linked : Linked}
    (hcompiled : compileProgram body source = .ok linked.program) {ctx : Context} {className : String}
    {args : List Expr} {range : TokenRange} {b b' : Builder} {c : Code}
    (hcode : ExprCode ctx (.node (.new className args) range) b c b') {s : State}
    (hat : At linked.program s.location c) {entry : ClassEntry}
    (hclass : linked.program.class? className = some entry) :
    ∃ (argsCode : Code) (index : Nat) (object : EnvId) (heap : Heap),
      ArgsCode ctx args b argsCode b' ∧ (constructorName, index) ∈ entry.methods
      ∧ Steps linked s 2 { s with
        location := s.location.skip 2
        stack := (s.stack.push (.value (.object object))).push (.value (.object object))
        heap := heap }
      ∧ heap.getOwn? object constructorName = some (.function index)
      ∧ ∀ (vs : List Value) (s₂ : State), vs.length = args.length →
        s₂.location = s.location.skip (2 + argsCode.length) →
        s₂.stack.slots
          = vs.map .value ++ (.value (.object object) :: .value (.object object) :: s.stack.slots) →
        ∃ v, Steps linked s₂ 1
            { s₂ with location := s₂.location.skip 1, stack := s₂.stack.push (.value v) }
          ∧ (∀ i f, v = .function i → linked.program.functions[i]? = some f →
            Steps linked s₂ 2 (Exec.calleeState linked i f vs (some (.object object)) false
              { s₂ with
                location := s₂.location.skip 2
                stack := .of (.value (.object object) :: s.stack.slots) }))
          ∧ (v = .function index
            ↔ s₂.heap.lookup? s₂.env (methodName className constructorName) = some (.function index)
              ∨ s₂.heap.lookup? s₂.env (methodName className constructorName) = none
                ∧ ∀ j, index < j →
                  linked.program.functionNames[j]? ≠ some (methodName className constructorName)) := by
  obtain ⟨⟨_, hlisted⟩, hnames⟩ := class_of_compiled hcompiled hclass
  obtain ⟨index, hmem, hown⟩ := getOwn?_newInstance hlisted s.heap
  have hname := hnames _ hmem
  obtain ⟨argsCode, hargs, rfl⟩ : ∃ argsCode, ArgsCode ctx args b argsCode b'
      ∧ c = newCode className args.length range argsCode := by
    cases hcode with
    | literal hliteral => cases hliteral
    | new _ hargs => exact ⟨_, hargs, rfl⟩
  -- the code up to the call, from its end
  have hcall := hat.left
  have hfetch := hcall.left
  have hcreate := hfetch.left.left
  have hobject := step_createObject hcreate.left hclass
  refine ⟨argsCode, index, (newInstance linked entry s.heap).1, _, hargs, hmem,
    hobject.trans (hcreate.right.step rfl), hown, fun vs s₂ hlen hloc hslots => ?_⟩
  have hplace : s.location.skip (one (.createObject className) range ++ one .dup range
      ++ argsCode).length = s₂.location := by
    rw [hloc, List.length_append]
    rfl
  have hfetched := hfetch.right
  have hcalled := hcall.right
  rw [Location.skip_append, hplace] at hcalled
  rw [hplace] at hfetched
  obtain ⟨v, hlook, hv⟩ := lookupScript?_own (methodName_ne_this _ _) hname s₂
  have hstep := step_fetch hfetched hlook
  refine ⟨v, hstep, fun i f hi hf => ?_, hv⟩
  subst hi
  rw [← hlen] at hcalled
  refine hstep.trans (step_callFunction (some _) hcalled hf ?_)
  show Slot.value (.function i) :: s₂.stack.slots = _
  rw [hslots]
  rfl

/-- `class C { constructor() {} } new C();` -/
def making : List Stmt :=
  [.bare (.classDecl "C" [.bare (some constructorName) [] []]), .bare (.expression (.bare (.new "C" [])))]

theorem Steps.unique {linked : Linked} {s s' s'' : State} {k : Nat} (h : Steps linked s k s')
    (h' : Steps linked s k s'') : s' = s'' := by
  induction h with
  | refl =>
    cases h'
    rfl
  | step hins hex _ ih =>
    cases h' with
    | step hins' hex' hrest =>
      cases hins.symm.trans hins'
      cases hex.symm.trans hex'
      exact ih hrest

theorem At.ofOps {program : Program} {loc : Location} {c : Code}
    (h : (List.range c.length).map (fun k =>
        (program.instruction? loc.sectionIndex (loc.pc + k)).map Instruction.op)
      = c.map fun e => some e.op) : At program loc c := by
  intro k e he
  have hlt := (List.getElem?_eq_some_iff.mp he).1
  have hk := congrArg (·[k]?) h
  simp only [List.getElem?_map, List.getElem?_range hlt, he, Option.map_some] at hk
  exact Option.map_eq_some_iff.mp (Option.some.inj hk)

set_option maxRecDepth 4000 in
theorem new_constructor_making :
    ∃ program m s object site, compileProgram making ⟨#[], ""⟩ = .ok program
      ∧ Machine.load program {} = .ok m ∧ Steps m.linked m.state 5 s
      ∧ s.stack.slots = [.callSite site, .value (.object object)] ∧ site.function = 0 := by
  have hfacts : (reached making 1).map (fun r =>
      ((List.range 5).map fun k => (r.1.linked.program.instruction? r.2.location.sectionIndex
          (r.2.location.pc + k)).map Instruction.op,
        r.1.linked.program.class? "C", r.1.linked.program.functionNames,
        r.1.linked.program.functions[0]?, r.2.stack.slots))
      = some ((newCode "C" 0 ⟨0, 0⟩ []).map fun e => some e.op, some ⟨"C", [(constructorName, 0)]⟩,
        ["@C.constructor"], some ⟨"@C.constructor", 1, []⟩, []) := by cbv
  have hlater : (reached making 3).map (fun r => r.2.heap.lookup? r.2.env "@C.constructor")
      = some none := by cbv
  obtain ⟨⟨m, s⟩, hreached, hfacts⟩ := Option.map_eq_some_iff.mp hfacts
  obtain ⟨⟨m', s'⟩, hreached', hlater⟩ := Option.map_eq_some_iff.mp hlater
  simp only [Prod.mk.injEq] at hfacts
  obtain ⟨hops, hclass, hnames, hfunction, hempty⟩ := hfacts
  obtain ⟨program, hprogram, hload, hrun⟩ := of_reached hreached
  obtain ⟨program', hprogram', hload', hrun'⟩ := of_reached hreached'
  cases hprogram.symm.trans hprogram'
  cases hload.symm.trans hload'
  have hcode : ExprCode { source := ⟨#[], ""⟩ } (.node (.new "C" []) ⟨0, 0⟩) {}
      (newCode "C" 0 ⟨0, 0⟩ []) {} := .new (Nat.zero_le _) .nil
  have hlinked : m.linked.program = program := by
    obtain ⟨_, _, rfl⟩ := Machine.load_ok hload
    rfl
  rw [← hlinked] at hprogram
  obtain ⟨argsCode, index, object, heap, hargs, hmem, hmake, -, henter⟩ :=
    new_constructor hprogram hcode (.ofOps hops) hclass
  cases hargs
  cases List.mem_singleton.mp hmem
  -- the state behind the object is the one that the run gets to
  have hsame := (hrun.trans hmake).unique hrun'
  obtain ⟨v, -, hcall, hv⟩ := henter [] s' rfl (by rw [← hsame]; rfl) (by rw [← hsame]; rfl)
  have hlast (j : Nat) (hj : 0 < j) : m.linked.program.functionNames[j]? ≠ some "@C.constructor" := by
    rw [hnames, List.getElem?_eq_none (Nat.succ_le_of_lt hj)]
    exact (Option.some_ne_none _).symm
  have hown : v = .function 0 := hv.mpr (.inr ⟨hlater, hlast⟩)
  refine ⟨program, m, _, object, ⟨s'.location.skip 2, s'.env, 0, false⟩, hprogram', hload,
    hrun'.trans (hcall 0 _ hown hfunction), ?_, rfl⟩
  show [Slot.callSite _, .value (.object object)] ++ s.stack.slots = _
  rw [hempty]
  rfl

/-- `class C { constructor() { print("1"); } } class C { constructor() { print("2"); } } new C();` -/
def redeclaring : List Stmt :=
  let print (text : String) : Stmt :=
    .bare (.expression (.bare (.call (.bare (.variable "print")) [.bare (.string text)])))
  let declaring (text : String) : Stmt :=
    .bare (.classDecl "C" [.bare (some constructorName) [] [print text]])
  [declaring "1", declaring "2", .bare (.expression (.bare (.new "C" [])))]

/-- `class C { constructor() {} m() { this["@C.constructor"] = function () {}; new C(); } } new C().m();` -/
def rebinding : List Stmt :=
  let made : Expr := .bare (.new "C" [])
  let name : Expr := .bare (.string (methodName "C" constructorName))
  let rebound : Expr :=
    .bare (.assign (.bare (.index (.bare .this) name)) (.bare (.function (.bare none [] []))))
  let method : FunctionDecl :=
    .bare (some "m") [] [.bare (.expression rebound), .bare (.expression made)]
  [.bare (.classDecl "C" [.bare (some constructorName) [] [], method]),
    .bare (.expression (.bare (.call (.bare (.member made "m")) [])))]

set_option maxRecDepth 4000 in
/-- The constructor that is called need not be the one of the object: it is that of a later class of the
same name, or what a property of an object around is called like.  In each program the object has
function 0 as its property. -/
theorem new_otherConstructor :
    let entered (body : List Stmt) (k : Nat) (object : EnvId) : Option (Option Value × Option Nat) :=
      (reached body k).map fun r => (r.2.heap.getOwn? object constructorName,
        (r.2.stack.slots.head?.bind Exec.callSite?).map CallSite.function)
    entered redeclaring 6 ⟨1⟩ = some (some (.function 0), some 1)
      ∧ entered rebinding 22 ⟨4⟩ = some (some (.function 0), some 2) := by
  refine ⟨?_, ?_⟩
  · cbv
  · cbv

end ScriptMachine
