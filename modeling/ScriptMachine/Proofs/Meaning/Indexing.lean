import ScriptMachine.Proofs.Machine.Moves
import ScriptMachine.Proofs.Meaning.Constructors

/-!
# Indexing an object

There are two ways to a property of an object.  Its name can stand in the program, and then one
instruction reads or writes it.  Or it is the text of an index, and then the object is asked for a method
that no object has, which answers at once: the object is copied, the method is fetched, and the call drops
what is left of the copy and of the arguments.  Both come to the same.

* `DoesAs`             code that does what one instruction does on another stack;
* `steps_methodCall`   a call of a method that runs at once;
* `execute_fetchProperty`, `execute_storeProperty`   properties of objects;
* `indexing_is_property_access`   the main statement.
-/

namespace ScriptMachine

/-- Run from `s`, so many instructions come to the state that the instruction `op` comes to from `t`, but
for the place. -/
def DoesAs (linked : Linked) (s : State) (count : Nat) (op : Op) (t : State) : Prop :=
  ∃ s', execute linked op t = .ok .proceed s'
    ∧ Steps linked s count { s' with location := s.location.skip count }

section
variable {linked : Linked} {s : State} {range : TokenRange} {name : String} {a v : Value}
  {below : List Slot} {heap : Heap} {o : EnvId}

/-! ## methods that run at once -/

/-- a method that runs at once takes its arguments and the object off the stack and leaves its result -/
theorem steps_methodCall (args : List Value) {run : List Value → Heap → Except Value Value × Heap}
    (hat : At linked.program s.location (methodCall name args.length range))
    (hslots : s.stack.slots = args.map .value ++ Slot.value a :: below)
    (hmethod : s.heap.method a name = .immediate run) (hrun : run args s.heap = (.ok v, heap)) :
    Steps linked s 3
      { s with location := s.location.skip 3, stack := .of (.value v :: below), heap := heap } := by
  let t : Twin := ⟨fun _ => [], s.heap, ⟨s.heap, s.events⟩⟩
  let t' : Twin := ⟨fun _ => [], heap, ⟨heap, s.events⟩⟩
  have hs : s = t.at s.location s.env (args.map .value ++ Slot.value a :: below) := by
    rw [← hslots]
    show s = { s with stack := .of s.stack.slots }
    rw [← Stack.eq_of]
  have hpick : Steps linked (t.at s.location s.env (args.map .value ++ Slot.value a :: below)) 1
      (t.at (s.location.skip 1) s.env (Slot.value a :: args.map .value ++ Slot.value a :: below)) :=
    step_pick args hat.left.left
  have hfetch : Steps linked
      (t.at (s.location.skip 1) s.env (Slot.value a :: args.map .value ++ Slot.value a :: below)) 1
      (t'.at (s.location.skip 2) s.env (.nativeResult :: .value v :: .value a :: below)) :=
    step_immediate hat.left.right hmethod hrun
  have hcall : Steps linked
      (t'.at (s.location.skip 2) s.env (.nativeResult :: .value v :: .value a :: below)) 1
      (t'.at (s.location.skip 3) s.env (.value v :: below)) := step_calledOn hat.right
  rw [← hs] at hpick
  exact hpick.trans (hfetch.trans hcall)

theorem method_indexerGet (hget : s.heap.getOwn? o indexerGet = none) :
    s.heap.method (.object o) indexerGet = .immediate fun args heap =>
      (.ok ((heap.getOwn? o (heap.propertyKey args)).getD .undefined), heap) := by
  unfold Heap.method
  simp only [hget]
  rfl

theorem method_indexerSet (hset : s.heap.getOwn? o indexerSet = none) :
    s.heap.method (.object o) indexerSet = .immediate fun args heap =>
      (.ok (args[1]?.getD .undefined),
        heap.define o (heap.propertyKey args) (args[1]?.getD .undefined)) := by
  have hother : indexerSet ≠ indexerGet := by decide
  unfold Heap.method
  simp only [hset]
  rw [if_neg hother]
  rfl

/-! ## properties by name -/

theorem execute_fetchProperty (name : String) (hslots : s.stack.slots = .value (.object o) :: below) :
    execute linked (.fetch name .property) s = .ok .proceed { s.next with
      stack := .of (.value ((s.heap.getOwn? o name).getD .undefined) :: below) } := by
  obtain ⟨loc, env, ⟨slots, depth, hdepth⟩, heap, events⟩ := s
  cases hslots
  cases hdepth
  rfl

theorem execute_storeProperty (name : String)
    (hslots : s.stack.slots = .value v :: .value (.object o) :: below) :
    execute linked (.store name true) s = .ok .proceed { s.next with
      stack := .of (.value v :: below), heap := s.heap.define o name v } := by
  obtain ⟨loc, env, ⟨slots, depth, hdepth⟩, heap, events⟩ := s
  cases hslots
  cases hdepth
  rfl


/-! ## the code of an index -/

section
variable {ctx : Context} {object key value : Expr} {b b' : Builder} {c : Code}

open Compile in
theorem readIndex_ok (h : (expr ctx (.node (.index object key) range)).run b = .ok (c, b')) :
    ∃ objectCode keyCode b₁, (expr ctx object).run b = .ok (objectCode, b₁)
      ∧ (expr ctx key).run b₁ = .ok (keyCode, b')
      ∧ c = objectCode ++ keyCode ++ methodCall indexerGet 1 range := by
  replace h : expr ctx (.node (.index object key) range) b = .ok (c, b') := h
  simp only [expr, bind_ok, pure_ok, Prod.mk.injEq] at h
  obtain ⟨_, _, ho, _, _, hk, rfl, rfl⟩ := h
  exact ⟨_, _, _, ho, hk, rfl⟩

open Compile in
theorem writeIndex_ok {r : TokenRange}
    (h : (expr ctx (.node (.assign (.node (.index object key) r) value) range)).run b = .ok (c, b')) :
    ∃ objectCode valueCode keyCode b₁ b₂, (expr ctx object).run b = .ok (objectCode, b₁)
      ∧ (expr ctx value).run b₁ = .ok (valueCode, b₂) ∧ (expr ctx key).run b₂ = .ok (keyCode, b')
      ∧ c = objectCode ++ valueCode ++ keyCode ++ methodCall indexerSet 2 range := by
  replace h : expr ctx (.node (.assign (.node (.index object key) r) value) range) b
    = .ok (c, b') := h
  simp only [expr, bind_ok, pure_ok, Prod.mk.injEq] at h
  obtain ⟨_, _, ho, _, _, hv, _, _, hk, rfl, rfl⟩ := h
  exact ⟨_, _, _, _, _, ho, hv, hk, rfl⟩

end

/-- **Indexing an object is access to the property that is named like the text of the index.**  The object
has no methods of its own in place of the two that indexing calls.  In the code of `object[key]`, where
the object and the key have come onto the stack, the three instructions that are left do what fetching the
property would do without the key.  In the code of `object[key] = value`, behind the object, the value and
the key, they do what storing the value would do. -/
theorem indexing_is_property_access {linked : Linked} {s : State} {o : EnvId}
    (hget : s.heap.getOwn? o indexerGet = none) (hset : s.heap.getOwn? o indexerSet = none)
    (k : Value) (below : List Slot) {loc : Location} {c : Code} (hat : At linked.program loc c)
    (ctx : Context) (object key : Expr) (range : TokenRange) (b b' : Builder) :
    ((Compile.expr ctx (.node (.index object key) range)).run b = .ok (c, b') →
      ∃ objectCode keyCode b₁, (Compile.expr ctx object).run b = .ok (objectCode, b₁)
        ∧ (Compile.expr ctx key).run b₁ = .ok (keyCode, b')
        ∧ c = objectCode ++ keyCode ++ methodCall indexerGet 1 range
        ∧ (s.location = loc.skip (objectCode ++ keyCode).length →
          s.stack.slots = .value k :: .value (.object o) :: below →
          DoesAs linked s 3 (.fetch (s.heap.text k) .property)
            { s with stack := .of (.value (.object o) :: below) }))
    ∧ ∀ (r : TokenRange) (value : Expr) (v : Value),
      (Compile.expr ctx (.node (.assign (.node (.index object key) r) value) range)).run b = .ok (c, b') →
      ∃ objectCode valueCode keyCode b₁ b₂, (Compile.expr ctx object).run b = .ok (objectCode, b₁)
        ∧ (Compile.expr ctx value).run b₁ = .ok (valueCode, b₂)
        ∧ (Compile.expr ctx key).run b₂ = .ok (keyCode, b')
        ∧ c = objectCode ++ valueCode ++ keyCode ++ methodCall indexerSet 2 range
        ∧ (s.location = loc.skip (objectCode ++ valueCode ++ keyCode).length →
          s.stack.slots = .value k :: .value v :: .value (.object o) :: below →
          DoesAs linked s 3 (.store (s.heap.text k) true)
            { s with stack := .of (.value v :: .value (.object o) :: below) }) := by
  refine ⟨fun hcode => ?_, fun r value v hcode => ?_⟩
  · obtain ⟨objectCode, keyCode, b₁, ho, hk, rfl⟩ := readIndex_ok hcode
    refine ⟨objectCode, keyCode, b₁, ho, hk, rfl, fun hloc hslots => ?_⟩
    have hcall := hat.right
    rw [← hloc] at hcall
    exact ⟨_, execute_fetchProperty _ rfl,
      steps_methodCall [k] hcall hslots (method_indexerGet hget) rfl⟩
  · obtain ⟨objectCode, valueCode, keyCode, b₁, b₂, ho, hv, hk, rfl⟩ := writeIndex_ok hcode
    refine ⟨objectCode, valueCode, keyCode, b₁, b₂, ho, hv, hk, rfl, fun hloc hslots => ?_⟩
    have hcall := hat.right
    rw [← hloc] at hcall
    exact ⟨_, execute_storeProperty _ rfl,
      steps_methodCall [k, v] hcall hslots (method_indexerSet hset) rfl⟩

end

/-- `class C { constructor() {} } (new C())["x"] = "b";` -/
def indexing : List Stmt :=
  let made : Expr := .bare (.index (.bare (.new "C" [])) (.bare (.string "x")))
  [.bare (.classDecl "C" [.bare (some constructorName) [] []]),
    .bare (.expression (.bare (.assign made (.bare (.string "b")))))]

set_option maxRecDepth 4000 in
theorem indexing_is_property_access_stored :
    ∃ m s, reached indexing 10 = some (m, s)
      ∧ s.stack.slots = [.value (.string "x"), .value (.string "b"), .value (.object ⟨1⟩)]
      ∧ DoesAs m.linked s 3 (.store "x" true)
        { s with stack := .of [.value (.string "b"), .value (.object ⟨1⟩)] } := by
  have hfacts : (reached indexing 10).map (fun r =>
      (r.2.stack.slots, r.2.location, r.2.heap.getOwn? ⟨1⟩ indexerGet, r.2.heap.getOwn? ⟨1⟩ indexerSet,
        (List.range 10).map fun k => (r.1.linked.program.instruction? 0 (1 + k)).map Instruction.op))
      = some ([.value (.string "x"), .value (.string "b"), .value (.object ⟨1⟩)], ⟨0, 8⟩, none, none,
        (newCode "C" 0 ⟨0, 0⟩ [] ++ one (.const 1) ⟨0, 0⟩ ++ one (.const 2) ⟨0, 0⟩
          ++ methodCall indexerSet 2 ⟨0, 0⟩).map fun e => some e.op) := by cbv
  obtain ⟨⟨m, s⟩, hreached, hfacts⟩ := Option.map_eq_some_iff.mp hfacts
  simp only [Prod.mk.injEq] at hfacts
  obtain ⟨hslots, hloc, hget, hset, hops⟩ := hfacts
  have hat : At m.linked.program ⟨0, 1⟩ (newCode "C" 0 ⟨0, 0⟩ [] ++ one (.const 1) ⟨0, 0⟩
      ++ one (.const 2) ⟨0, 0⟩ ++ methodCall indexerSet 2 ⟨0, 0⟩) := .ofOps hops
  obtain ⟨objectCode, valueCode, keyCode, b₁, b₂, ho, hv, hk, -, hdoes⟩ :=
    (indexing_is_property_access hget hset (.string "x") [] hat ⟨⟨#[], ""⟩, [], false, []⟩
      (.bare (.new "C" [])) (.bare (.string "x")) ⟨0, 0⟩ { constants := #[.undefined] }
      { constants := #[.undefined, .string "b", .string "x"] }).2 ⟨0, 0⟩ (.bare (.string "b"))
      (.string "b") (by cbv)
  have hobject : (Compile.expr ⟨⟨#[], ""⟩, [], false, []⟩ (.bare (.new "C" []))).run
      { constants := #[.undefined] }
      = .ok (newCode "C" 0 ⟨0, 0⟩ [], { constants := #[.undefined] }) := by cbv
  have hvalue : (Compile.expr ⟨⟨#[], ""⟩, [], false, []⟩ (.bare (.string "b"))).run
      { constants := #[.undefined] }
      = .ok (one (.const 1) ⟨0, 0⟩, { constants := #[.undefined, .string "b"] }) := by cbv
  cases ho.symm.trans hobject
  cases hv.symm.trans hvalue
  have hkey : (Compile.expr ⟨⟨#[], ""⟩, [], false, []⟩ (.bare (.string "x"))).run
      { constants := #[.undefined, .string "b"] }
      = .ok (one (.const 2) ⟨0, 0⟩, { constants := #[.undefined, .string "b", .string "x"] }) := by
    cbv
  cases hk.symm.trans hkey
  exact ⟨m, s, hreached, hslots, hdoes hloc hslots⟩

end ScriptMachine
