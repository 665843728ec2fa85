import ScriptMachine.Proofs.Machine.Bindings
import ScriptMachine.Proofs.Meaning.Layout

/-!
# What names mean in a run

Names are looked up while a program runs: in the environments around, then in the function table, where
of functions with one name the last one counts.  A function expression is looked up by the name that its
function has in the table.  A variable is looked up by its own name, unless a function around declares a
function of that name.

* `Unwritten`, `LastWritten`   which instruction of a run has written to a name last;
* `lastWritten_of_steps`       a name is bound to what was written to it last;
* `read_lastWritten`           which is what a variable gives, if no function around has its name;
* `Program.lastIndex?_eq_some_iff`   the last function of a name;
* `functionExpression_value`   when a function expression gives its own function.
-/

namespace ScriptMachine

/-! ## runs of programs -/

/-- trees without positions -/
def Expr.bare (form : ExprForm) : Expr := .node form ⟨0, 0⟩

def Stmt.bare (form : StmtForm) : Stmt := .node form ⟨0, 0⟩

def FunctionDecl.bare (name : Option String) (params : List String) (body : List Stmt) : FunctionDecl :=
  .mk name params body ⟨0, 0⟩

/-- the state after so many instructions, if the run goes on so long -/
def stepsFor (linked : Linked) : Nat → State → Option State
  | 0, s => some s
  | k + 1, s =>
    match linked.program.instruction? s.location.sectionIndex s.location.pc with
    | none => none
    | some ins =>
      match execute linked ins.op s with
      | .ok .proceed s' => stepsFor linked k s'
      | _ => none

theorem steps_of_stepsFor {linked : Linked} {k : Nat} {s s' : State}
    (h : stepsFor linked k s = some s') : Steps linked s k s' := by
  induction k generalizing s with
  | zero =>
    cases h
    exact .refl
  | succ k ih =>
    rw [stepsFor] at h
    split at h
    · cases h
    · rename_i hins
      split at h
      · rename_i hex
        exact .step hins hex (ih h)
      · cases h

theorem At.ofOp {program : Program} {loc : Location} {op : Op}
    (h : (program.instruction? loc.sectionIndex loc.pc).map Instruction.op = some op)
    (range : TokenRange) : At program loc (one op range) := by
  obtain ⟨ins, hins, hop⟩ := Option.map_eq_some_iff.mp h
  intro k emitted hk
  obtain ⟨rfl, rfl⟩ : k = 0 ∧ emitted = .inside op range := by
    cases k with
    | zero => exact ⟨rfl, (Option.some.inj hk).symm⟩
    | succ k => cases hk
  exact ⟨ins, hins, hop⟩

/-- the machine of a program, and the state that it is in after so many instructions -/
def reached (body : List Stmt) (k : Nat) : Option (Machine × State) :=
  match compileProgram body ⟨#[], ""⟩ with
  | .error _ => none
  | .ok program =>
    match Machine.load program {} with
    | .error _ => none
    | .ok m => (stepsFor m.linked k m.state).map (m, ·)

theorem of_reached {body : List Stmt} {k : Nat} {m : Machine} {s : State}
    (h : reached body k = some (m, s)) :
    ∃ program, compileProgram body ⟨#[], ""⟩ = .ok program ∧ Machine.load program {} = .ok m
      ∧ Steps m.linked m.state k s := by
  unfold reached at h
  split at h
  · cases h
  · rename_i program hprogram
    split at h
    · cases h
    · rename_i m' hload
      obtain ⟨s', hs', heq⟩ := Option.map_eq_some_iff.mp h
      cases heq
      exact ⟨program, hprogram, hload, steps_of_stepsFor hs'⟩

/-! ## the last write -/

/-- a run no instruction of which writes to the name `x` of `e` -/
inductive Unwritten (linked : Linked) (e : EnvId) (x : String) : State → State → Prop
  | refl : Unwritten linked e x s s
  | step (hins : linked.program.instruction? s.location.sectionIndex s.location.pc = some ins)
      (hex : execute linked ins.op s = .ok .proceed s') (hno : ∀ v, ¬ Writes linked s ins.op e x v)
      (rest : Unwritten linked e x s' s'') : Unwritten linked e x s s''

/-- On the way from `s` to `s'` an instruction has written the value `v` to the name `x` of `e`, and
none behind it has written to that name. -/
def LastWritten (linked : Linked) (e : EnvId) (x : String) (s s' : State) (v : Value) : Prop :=
  ∃ k s₁ ins s₂, Steps linked s k s₁
    ∧ linked.program.instruction? s₁.location.sectionIndex s₁.location.pc = some ins
    ∧ execute linked ins.op s₁ = .ok .proceed s₂ ∧ Writes linked s₁ ins.op e x v
    ∧ Unwritten linked e x s₂ s'

section
variable {linked : Linked} {e : EnvId} {x : String} {s s' : State} {v : Value} {k : Nat}

theorem Unwritten.keeps (h : Unwritten linked e x s s') : s.heap.Keeps e x s'.heap := by
  induction h with
  | refl => exact .refl
  | step _ hex hno _ ih => exact ((binds_execute hex e x).kept hno).trans ih

theorem Heap.Keeps.scope {h h' : Heap} (hk : h.Keeps e x h') (hscope : h'.isObject e = false) :
    h.isObject e = false := by
  cases hobject : h.isObject e with
  | false => rfl
  | true => exact (hk.objects e hobject).symm.trans hscope

theorem LastWritten.own (h : LastWritten linked e x s s' v) (hscope : s'.heap.isObject e = false) :
    s'.heap.getOwn? e x = some v := by
  obtain ⟨_, s₁, ins, s₂, _, _, hex, hw, hun⟩ := h
  exact (hun.keeps.own hscope).trans ((binds_execute hex e x).written v hw)

/-- What a name of a scope is bound to was written to it last, or is what it was bound to before. -/
theorem lastWritten_of_steps (hrun : Steps linked s k s') (hscope : s'.heap.isObject e = false)
    (hv : s'.heap.getOwn? e x = some v) :
    LastWritten linked e x s s' v
      ∨ Unwritten linked e x s s' ∧ s.heap.getOwn? e x = some v := by
  -- from the front: the first instruction counts only if no later one writes to the name
  induction hrun with
  | refl => exact .inr ⟨.refl, hv⟩
  | @step s s₁ s' ins k hins hex _ ih =>
    rcases ih hscope hv with ⟨k, s₂, ins', s₃, hsteps, hlast⟩ | ⟨hun, hown⟩
    · exact .inl ⟨k + 1, s₂, ins', s₃, .step hins hex hsteps, hlast⟩
    have hbinds := binds_execute hex e x
    by_cases hwritten : ∃ w, Writes linked s ins.op e x w
    · obtain ⟨w, hw⟩ := hwritten
      obtain rfl : w = v := Option.some.inj ((hbinds.written w hw).symm.trans hown)
      exact .inl ⟨0, s, ins, s₁, .refl, hins, hex, hw, hun⟩
    · have hno := not_exists.mp hwritten
      have hsame := (hbinds.kept hno).own (hun.keeps.scope hscope)
      exact .inr ⟨.step hins hex hno hun, hsame.symm.trans hown⟩

end

/-! ## variables -/

theorem Context.resolve_of_free {ctx : Context} {x : String}
    (h : ∀ scope ∈ ctx.enclosing, x ∉ scope.names) : ctx.resolve x = x := by
  have hnone : ctx.enclosing.find? (fun scope => scope.names.contains x) = none := by
    rw [List.find?_eq_none]
    intro scope hscope hmem
    exact h scope hscope (List.contains_iff_mem.mp hmem)
  unfold Context.resolve
  rw [hnone]

theorem lookupScript?_of_owner {linked : Linked} {s : State} {e : EnvId} {x : String} {v : Value}
    (hthis : x ≠ "this") (howner : s.heap.owner? s.env x = some e) (hv : s.heap.getOwn? e x = some v) :
    Exec.lookupScript? linked s x = some v := by
  unfold Exec.lookupScript? Heap.lookup?
  rw [if_neg hthis, howner, Option.bind_some, hv]
  rfl

/-- **A variable gives the value that was written to it last.**  Its code is run in a state where `e`, a
scope, is the nearest environment that binds `x`.  If no function around declares a function of that
name, the code leaves the value on the stack that an instruction of the run has written to this name of
`e` last; if none has, it leaves the one that the name had before. -/
theorem read_lastWritten {linked : Linked} {s s' : State} {k : Nat} (hrun : Steps linked s k s')
    {e : EnvId} {x : String} (howner : s'.heap.owner? s'.env x = some e)
    (hscope : s'.heap.isObject e = false) {ctx : Context} {range : TokenRange} {b b' : Builder}
    {c : Code} (hcode : ExprCode ctx (.node (.variable x) range) b c b')
    (hat : At linked.program s'.location c) (hfree : ∀ scope ∈ ctx.enclosing, x ∉ scope.names)
    (hthis : x ≠ "this") :
    ∃ v, (LastWritten linked e x s s' v ∨ Unwritten linked e x s s' ∧ s.heap.getOwn? e x = some v)
      ∧ Steps linked s' 1
        { s' with location := s'.location.skip 1, stack := s'.stack.push (.value v) } := by
  obtain ⟨v, hv⟩ := Heap.getOwn?_of_owner howner
  refine ⟨v, lastWritten_of_steps hrun hscope hv, ?_⟩
  cases hcode with
  | literal hliteral => cases hliteral
  | «variable» =>
    rw [Context.resolve_of_free hfree] at hat
    exact step_fetch hat (lookupScript?_of_owner hthis howner hv)

/-- `function f(x) { x = "b"; return x; } f("a");` -/
def assigning : List Stmt :=
  let use (name : String) : Expr := .bare (.variable name)
  let text (value : String) : Expr := .bare (.string value)
  let body : List Stmt :=
    [.bare (.expression (.bare (.assign (use "x") (text "b")))), .bare (.returnValue (some (use "x")))]
  [.bare (.function (.bare (some "f") ["x"] body)),
    .bare (.expression (.bare (.call (use "f") [text "a"])))]

set_option maxRecDepth 4000 in
theorem read_lastWritten_assigned :
    ∃ program m s, compileProgram assigning ⟨#[], ""⟩ = .ok program
      ∧ Machine.load program {} = .ok m ∧ Steps m.linked m.state 7 s
      ∧ LastWritten m.linked ⟨1⟩ "x" m.state s (.string "b")
      ∧ Steps m.linked s 1
        { s with location := s.location.skip 1, stack := s.stack.push (.value (.string "b")) } := by
  have hfacts : (reached assigning 7).map (fun r =>
      ((r.1.linked.program.instruction? r.2.location.sectionIndex r.2.location.pc).map Instruction.op,
        r.2.heap.owner? r.2.env "x", r.2.heap.isObject ⟨1⟩, r.2.heap.getOwn? ⟨1⟩ "x",
        r.1.state.heap.getOwn? ⟨1⟩ "x"))
      = some (some (.fetch "x" .variable), some ⟨1⟩, false, some (.string "b"), none) := by cbv
  obtain ⟨⟨m, s⟩, hreached, hfacts⟩ := Option.map_eq_some_iff.mp hfacts
  simp only [Prod.mk.injEq] at hfacts
  obtain ⟨hop, howner, hscope, hown, hbefore⟩ := hfacts
  obtain ⟨program, hprogram, hload, hrun⟩ := of_reached hreached
  have hcode : ExprCode ⟨⟨#[], ""⟩, [], true, [⟨"f", []⟩]⟩ (.node (.variable "x") ⟨0, 0⟩) {}
      (one (.fetch "x" .variable) ⟨0, 0⟩) {} := .variable
  obtain ⟨v, hlast | ⟨-, hv⟩, hstep⟩ := read_lastWritten hrun howner hscope hcode (.ofOp hop ⟨0, 0⟩)
    (List.forall_mem_singleton.mpr List.not_mem_nil) (by decide)
  · obtain rfl : v = .string "b" := Option.some.inj ((hlast.own hscope).symm.trans hown)
    exact ⟨program, m, s, hprogram, hload, hrun, hlast, hstep⟩
  · cases hbefore.symm.trans hv

/-- `function f() { function x() {} function g(params) { body  return x; } return g(args); }`
and then `print(f() == "a");` -/
def hiddenInside (params : List String) (body : List Stmt) (args : List Expr) : List Stmt :=
  let use (name : String) : Expr := .bare (.variable name)
  let function (name : String) (params : List String) (body : List Stmt) : Stmt :=
    .bare (.function (.bare (some name) params body))
  let returning (e : Expr) : Stmt := .bare (.returnValue (some e))
  let call (name : String) (args : List Expr) : Expr := .bare (.call (use name) args)
  let inner : Stmt := function "g" params (body ++ [returning (use "x")])
  [function "f" [] [function "x" [] [], inner, returning (call "g" args)],
    .bare (.expression (call "print" [.bare (.binary .eq (call "f" []) (.bare (.string "a")))]))]

/-- `function f(x) { { function x() {} } x = "b"; return x; } print(f("a") == "b");` -/
def hiddenAssignment : List Stmt :=
  let use (name : String) : Expr := .bare (.variable name)
  let text (value : String) : Expr := .bare (.string value)
  let call (name : String) (arg : Expr) : Expr := .bare (.call (use name) [arg])
  let body : List Stmt :=
    [.bare (.block [.bare (.function (.bare (some "x") [] []))]),
      .bare (.expression (.bare (.assign (use "x") (text "b")))), .bare (.returnValue (some (use "x")))]
  [.bare (.function (.bare (some "f") ["x"] body)),
    .bare (.expression (call "print" (.bare (.binary .eq (call "f" (text "a")) (text "b")))))]

set_option maxRecDepth 4000 in
/-- Where a function around declares a function of its name, a variable gives that function and not what
is bound to the name: neither the argument of a parameter, nor the value of a variable of an inner
function, nor a value that was just assigned. -/
theorem variable_hidden :
    let found (body : List Stmt) (k : Nat) : Option (Option Slot × Option Value) :=
      (reached body k).map fun r => (r.2.stack.slots.head?, r.2.heap.lookup? r.2.env "x")
    let text : Expr := .bare (.string "a")
    let declared : Stmt := .bare (.varDecl "x" (some text))
    found (hiddenInside ["x"] [] [text]) 9 = some (some (.value (.function 1)), some (.string "a"))
      ∧ found (hiddenInside [] [declared] []) 12
        = some (some (.value (.function 1)), some (.string "a"))
      ∧ found hiddenAssignment 11 = some (some (.value (.function 1)), some (.string "b")) := by
  refine ⟨?_, ?_, ?_⟩
  · cbv
  · cbv
  · cbv

/-! ## function expressions -/

theorem Program.lastIndex?_eq_none_iff {name : String} {names : List String} :
    lastIndex? name names = none ↔ name ∉ names := by
  induction names with
  | nil => exact ⟨fun _ => List.not_mem_nil, fun _ => rfl⟩
  | cons first rest ih =>
    rw [lastIndex?, List.mem_cons, not_or, ← ih]
    cases lastIndex? name rest with
    | some m =>
      exact ⟨fun h => absurd h (Option.some_ne_none _), fun h => absurd h.2 (Option.some_ne_none m)⟩
    | none =>
      show (if first = name then some 0 else none) = none ↔ _
      by_cases heq : first = name
      · rw [if_pos heq]
        exact ⟨fun h => absurd h (Option.some_ne_none 0), fun h => absurd heq.symm h.1⟩
      · rw [if_neg heq]
        exact ⟨fun _ => ⟨Ne.symm heq, rfl⟩, fun _ => rfl⟩

/-- the last place of a name is the one behind which it does not occur -/
theorem Program.lastIndex?_eq_some_iff {name : String} {names : List String} {i : Nat} :
    lastIndex? name names = some i
      ↔ names[i]? = some name ∧ ∀ j, i < j → names[j]? ≠ some name := by
  induction names generalizing i with
  | nil => simp [lastIndex?]
  | cons first rest ih =>
    rw [lastIndex?]
    cases hrest : lastIndex? name rest with
    | some m =>
      obtain ⟨hm, hlast⟩ := ih.mp hrest
      constructor
      · rintro ⟨⟩
        refine ⟨hm, fun j hj => ?_⟩
        obtain ⟨j, rfl⟩ : ∃ j', j = j' + 1 := ⟨j - 1, by omega⟩
        exact hlast j (by omega)
      · rintro ⟨hi, hlater⟩
        cases i with
        | zero => exact absurd hm (hlater (m + 1) (Nat.succ_pos m))
        | succ i =>
          have hsome : lastIndex? name rest = some i :=
            ih.mpr ⟨hi, fun j hj => hlater (j + 1) (Nat.succ_lt_succ hj)⟩
          exact congrArg (Option.map (· + 1)) (hrest.symm.trans hsome)
    | none =>
      have hnowhere (j : Nat) : rest[j]? ≠ some name := fun hj =>
        lastIndex?_eq_none_iff.mp hrest (List.mem_of_getElem? hj)
      show (if first = name then some 0 else none) = some i ↔ _
      by_cases heq : first = name
      · rw [if_pos heq]
        constructor
        · rintro ⟨⟩
          refine ⟨congrArg some heq, fun j hj => ?_⟩
          obtain ⟨j, rfl⟩ : ∃ j', j = j' + 1 := ⟨j - 1, by omega⟩
          exact hnowhere j
        · rintro ⟨hi, -⟩
          cases i with
          | zero => rfl
          | succ i => exact absurd hi (hnowhere i)
      · rw [if_neg heq]
        constructor
        · rintro ⟨⟩
        · rintro ⟨hi, -⟩
          cases i with
          | zero => exact absurd (Option.some.inj hi) heq
          | succ i => exact absurd hi (hnowhere i)

/-- the names of the functions so far -/
def Builder.functionNames (b : Builder) : List String := (b.functions.map FunctionCode.name).toList

/-- a function has its name in the table -/
theorem FunctionAdded.name_eq {ctx : Context} {name : String} {decl : FunctionDecl} {b b' : Builder}
    {i : Nat} (h : FunctionAdded ctx name decl b i b') : b'.functionNames[i]? = some name := by
  unfold Builder.functionNames
  rw [Array.getElem?_toList, Array.getElem?_map]
  exact h.grows.2

/-- a function expression gets the next place in the table -/
theorem FunctionAdded.index_named {ctx : Context} {name : String} {decl decl' : FunctionDecl}
    {b b' : Builder} {i : Nat} (h : FunctionAdded ctx name decl (b.named decl') i b') :
    i = b.functions.size := by
  have hsame : (b.named decl').functions = b.functions := by
    unfold Builder.named
    split <;> rfl
  rw [← hsame]
  generalize b.named decl' = b₁ at h
  cases h
  rfl

theorem lookupScript?_this (linked : Linked) (s : State) :
    ∃ v, Exec.lookupScript? linked s "this" = some v ∧ ∀ i, v ≠ .function i := by
  unfold Exec.lookupScript?
  rw [if_pos rfl]
  cases s.heap.thisObject? s.env with
  | some env => exact ⟨_, rfl, fun i h => by cases h⟩
  | none => exact ⟨_, rfl, fun i h => by cases h⟩

/-- what a name means that is in the function table: the nearest binding, or else the last function -/
theorem lookupScript?_of_mem {linked : Linked} {name : String} (hthis : name ≠ "this")
    (hmem : name ∈ linked.program.functionNames) (s : State) :
    ∃ i, linked.program.functionIndex? name = some i
      ∧ Exec.lookupScript? linked s name = some ((s.heap.lookup? s.env name).getD (.function i)) := by
  cases hindex : linked.program.functionIndex? name with
  | none => exact absurd hmem (Program.lastIndex?_eq_none_iff.mp hindex)
  | some i =>
    refine ⟨i, rfl, ?_⟩
    unfold Exec.lookupScript?
    rw [if_neg hthis, hindex]
    cases s.heap.lookup? s.env name <;> rfl

/-- what the name of a function means: that function, if the name is bound to it, or is not bound at all
and no later function of the table has it -/
theorem lookupScript?_own {linked : Linked} {name : String} {index : Nat} (hthis : name ≠ "this")
    (hown : linked.program.functionNames[index]? = some name) (s : State) :
    ∃ v, Exec.lookupScript? linked s name = some v
      ∧ (v = .function index ↔ s.heap.lookup? s.env name = some (.function index)
        ∨ s.heap.lookup? s.env name = none
          ∧ ∀ j, index < j → linked.program.functionNames[j]? ≠ some name) := by
  obtain ⟨i, hindex, hlook⟩ := lookupScript?_of_mem hthis (List.mem_of_getElem? hown) s
  refine ⟨_, hlook, ?_⟩
  cases s.heap.lookup? s.env name with
  | some v =>
    constructor
    · intro hv
      exact .inl (congrArg some hv)
    · rintro (hv | ⟨hnone, -⟩)
      · exact Option.some.inj hv
      · cases hnone
  | none =>
    constructor
    · intro hv
      cases Value.function.inj hv
      exact .inr ⟨rfl, (Program.lastIndex?_eq_some_iff.mp hindex).2⟩
    · rintro (hsome | ⟨-, hlast⟩)
      · cases hsome
      · have hself : linked.program.functionIndex? name = some index :=
          Program.lastIndex?_eq_some_iff.mpr ⟨hown, hlast⟩
        exact congrArg Value.function (Option.some.inj (hindex.symm.trans hself))

/-- **When a function expression gives its own function.**  The code of a function expression leaves one
value on the stack.  It is the function at the place of the table that was filled with the code of this
very expression, which is the next one, if and only if its name is bound to that function, or is not
bound at all and no later function of the table has the same name. -/
theorem functionExpression_value {ctx : Context} {decl : FunctionDecl} {range : TokenRange}
    {b b' : Builder} {c : Code} (hcode : ExprCode ctx (.node (.function decl) range) b c b')
    {linked : Linked} {s : State} (hat : At linked.program s.location c)
    (hnames : b'.functionNames <+: linked.program.functionNames) :
    ∃ v, FunctionAdded ctx (functionName b decl) decl (b.named decl) b.functions.size b'
      ∧ Steps linked s 1 { s with location := s.location.skip 1, stack := s.stack.push (.value v) }
      ∧ (v = .function b.functions.size ↔ functionName b decl ≠ "this"
        ∧ (s.heap.lookup? s.env (functionName b decl) = some (.function b.functions.size)
          ∨ s.heap.lookup? s.env (functionName b decl) = none
            ∧ ∀ j, b.functions.size < j → linked.program.functionNames[j]? ≠ some (functionName b decl))) := by
  cases hcode with
  | literal hliteral => cases hliteral
  | function hf =>
    obtain rfl := hf.index_named
    generalize functionName b decl = name at hf hat ⊢
    generalize b.functions.size = index at hf ⊢
    have hown : linked.program.functionNames[index]? = some name := by
      obtain ⟨rest, hrest⟩ := hnames
      have hlt := (List.getElem?_eq_some_iff.mp hf.name_eq).1
      rw [← hrest, List.getElem?_append_left hlt]
      exact hf.name_eq
    by_cases hthis : name = "this"
    · subst hthis
      obtain ⟨v, hlook, hv⟩ := lookupScript?_this linked s
      exact ⟨v, hf, step_fetch hat hlook, fun h => absurd h (hv index), fun h => absurd rfl h.1⟩
    · obtain ⟨v, hlook, hv⟩ := lookupScript?_own hthis hown s
      refine ⟨v, hf, step_fetch hat hlook, fun h => ⟨hthis, hv.mp h⟩, fun h => hv.mpr h.2⟩

/-- `var g = function () {};` -/
def handingOn : List Stmt :=
  [.bare (.varDecl "g" (some (.bare (.function (.bare none [] [])))))]

set_option maxRecDepth 4000 in
theorem functionExpression_value_alone :
    ∃ program m s, compileProgram handingOn ⟨#[], ""⟩ = .ok program
      ∧ Machine.load program {} = .ok m ∧ Steps m.linked m.state 1 s
      ∧ Steps m.linked s 1
        { s with location := s.location.skip 1, stack := s.stack.push (.value (.function 0)) } := by
  have hfacts : (reached handingOn 1).map (fun r =>
      ((r.1.linked.program.instruction? r.2.location.sectionIndex r.2.location.pc).map Instruction.op,
        r.1.linked.program.functionNames, r.2.heap.lookup? r.2.env "$_anon_0"))
      = some (some (.fetch "$_anon_0" .variable), ["$_anon_0"], none) := by cbv
  obtain ⟨⟨m, s⟩, hreached, hfacts⟩ := Option.map_eq_some_iff.mp hfacts
  simp only [Prod.mk.injEq] at hfacts
  obtain ⟨hop, hnames, hlookup⟩ := hfacts
  obtain ⟨program, hprogram, hload, hrun⟩ := of_reached hreached
  have hcode : ExprCode { source := ⟨#[], ""⟩ } (.node (.function (.mk none [] [] ⟨0, 0⟩)) ⟨0, 0⟩) {}
      (one (.fetch "$_anon_0" .variable) ⟨0, 0⟩) _ := .function (.mk (by decide) .nil (.added rfl))
  obtain ⟨v, -, hstep, hvalue⟩ := functionExpression_value hcode (.ofOp hop ⟨0, 0⟩)
    (by rw [hnames]; exact ⟨[], by cbv⟩)
  have hlast (j : Nat) (hj : 0 < j) : m.linked.program.functionNames[j]? ≠ some "$_anon_0" := by
    rw [hnames, List.getElem?_eq_none (Nat.succ_le_of_lt hj)]
    exact (Option.some_ne_none _).symm
  obtain rfl : v = .function 0 := hvalue.mpr ⟨by decide, .inr ⟨hlookup, hlast⟩⟩
  exact ⟨program, m, s, hprogram, hload, hrun, hstep⟩

/-- `var declared = "x"; print(function name() {} == "x");` -/
def captured (declared : String) (name : Option String) : List Stmt :=
  let text : Expr := .bare (.string "x")
  let given : Expr := .bare (.function (.bare name [] []))
  let print (e : Expr) : Stmt := .bare (.expression (.bare (.call (.bare (.variable "print")) [e])))
  [.bare (.varDecl declared (some text)), print (.bare (.binary .eq given text))]

/-- `var a = function f() { return "1"; }; var b = function f() { return "2"; }; print(a());` -/
def capturedLater : List Stmt :=
  let call (name : String) (args : List Expr) : Expr := .bare (.call (.bare (.variable name)) args)
  let declaring (name text : String) : Stmt :=
    let body : List Stmt := [.bare (.returnValue (some (.bare (.string text))))]
    .bare (.varDecl name (some (.bare (.function (.bare (some "f") [] body)))))
  [declaring "a" "1", declaring "b" "2", .bare (.expression (call "print" [call "a" []]))]

set_option maxRecDepth 4000 in
/-- A function expression gives what its name means: the value of a variable that is called like it, or a
later function of that name.  In each program the function of the first expression is function 0. -/
theorem functionExpression_captured :
    let given (body : List Stmt) (k : Nat) : Option (Option Slot) :=
      (reached body k).map fun r => r.2.stack.slots.head?
    given (captured "$_anon_0" none) 5 = some (some (.value (.string "x")))
      ∧ given (captured "f" (some "f")) 5 = some (some (.value (.string "x")))
      ∧ given capturedLater 2 = some (some (.value (.function 1))) := by
  refine ⟨?_, ?_, ?_⟩
  · cbv
  · cbv
  · cbv

end ScriptMachine
