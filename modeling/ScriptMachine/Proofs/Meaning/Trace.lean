import ScriptMachine.Proofs.Machine.Safe
import ScriptMachine.Proofs.Meaning.Agreement

/-!
# What the machine does on the way

* `At`              code that stands at a place of a program;
* `Steps`           so many instructions, none of which stops the run;
* `Late`            a run that goes on for so many instructions;
* `Passes`          a thrown value gets from one stack to another one below it;
* `Raises`          a run comes to throw a value;
* `step_pop`, `step_jump`, `step_enterScope`, ...   the instructions one by one.
-/

namespace ScriptMachine

/-! ## code at a place -/

def Location.skip (loc : Location) (n : Nat) : Location := ⟨loc.sectionIndex, loc.pc + n⟩

@[simp] theorem Location.skip_zero (loc : Location) : loc.skip 0 = loc := rfl

@[simp] theorem Location.skip_skip (loc : Location) (m n : Nat) :
    (loc.skip m).skip n = loc.skip (m + n) :=
  congrArg (Location.mk loc.sectionIndex) (Nat.add_assoc loc.pc m n)

/-- the operations of `code` stand in the program from `loc` on -/
def At (program : Program) (loc : Location) (code : Code) : Prop :=
  ∀ k (e : Emitted), code[k]? = some e →
    ∃ ins, program.instruction? loc.sectionIndex (loc.pc + k) = some ins ∧ ins.op = e.op

namespace At

variable {program : Program} {loc : Location} {c c' : Code}

theorem left (h : At program loc (c ++ c')) : At program loc c := by
  intro k e he
  refine h k e ?_
  rw [List.getElem?_append_left (List.getElem?_eq_some_iff.mp he).1, he]

theorem right (h : At program loc (c ++ c')) : At program (loc.skip c.length) c' := by
  intro k e he
  have hmem : (c ++ c')[c.length + k]? = some e := by
    rw [List.getElem?_append_right (Nat.le_add_right _ _), Nat.add_sub_cancel_left, he]
  obtain ⟨ins, hins, hop⟩ := h (c.length + k) e hmem
  refine ⟨ins, ?_, hop⟩
  show program.instruction? loc.sectionIndex (loc.pc + c.length + k) = some ins
  rw [Nat.add_assoc]
  exact hins

/-- the first instruction -/
theorem head {op : Op} {range : TokenRange} (h : At program loc (one op range)) :
    ∃ ins, program.instruction? loc.sectionIndex loc.pc = some ins ∧ ins.op = op :=
  h 0 _ rfl

/-- marking the first instruction does not change what it does -/
theorem ofStart {exits : List ExitScope} {range : TokenRange} (hc : c ≠ [])
    (h : At program loc (startStatement exits range c)) : At program loc c := by
  cases c with
  | nil => exact absurd rfl hc
  | cons first rest =>
    intro k e he
    cases k with
    | zero =>
      cases he
      exact h 0 ⟨first.op, some range, some exits⟩ rfl
    | succ k => exact h (k + 1) e he

end At

theorem length_startStatement {exits : List ExitScope} {range : TokenRange} {c : Code} (hc : c ≠ []) :
    (startStatement exits range c).length = c.length := by
  cases c with
  | nil => exact absurd rfl hc
  | cons first rest => rfl

/-! ## runs -/

/-- so many instructions, after which the run goes on -/
inductive Steps (linked : Linked) : State → Nat → State → Prop
  | refl {s : State} : Steps linked s 0 s
  | step {s s' s'' : State} {ins : Instruction} {k : Nat}
      (hins : linked.program.instruction? s.location.sectionIndex s.location.pc = some ins)
      (hex : execute linked ins.op s = .ok .proceed s') (rest : Steps linked s' k s'') :
    Steps linked s (k + 1) s''

/-- it takes at least so many instructions until the run stops -/
def Late (linked : Linked) (n : Nat) (s : State) : Prop := ∃ k s', n ≤ k ∧ Steps linked s k s'

/-- Where a value that is thrown on the lower stack is caught, one that is thrown on the upper stack
is caught too. -/
structure Passes (upper lower : List Slot) : Prop where
  caught : ∀ region rest, (Stack.of lower).unwindThrow = .caught region rest →
    (Stack.of upper).unwindThrow = .caught region rest
  uncaught : ∀ callers, (Stack.of lower).unwindThrow = .uncaught callers →
    ∃ callers', (Stack.of upper).unwindThrow = .uncaught callers'

/-- a run comes to throw `v` on a stack above `st`, with this heap and after these events -/
def Raises (linked : Linked) (s : State) (v : Value) (st : List Slot) (heap : Heap)
    (events : List Event) : Prop :=
  ∃ k s₁ s₂ ins, Steps linked s k s₁
    ∧ linked.program.instruction? s₁.location.sectionIndex s₁.location.pc = some ins
    ∧ execute linked ins.op s₁ = (do Exec.throwValue v; pure Signal.proceed : Exec Signal) linked s₂
    ∧ Passes s₂.stack.slots st ∧ s₂.heap = heap ∧ s₂.events = events

section
variable {linked : Linked} {s s' s'' : State} {k m n : Nat} {v : Value} {st st' st'' : List Slot}
  {heap : Heap} {events : List Event}

theorem Steps.trans (h : Steps linked s k s') (h' : Steps linked s' m s'') :
    Steps linked s (k + m) s'' := by
  induction h with
  | refl =>
    rw [Nat.zero_add]
    exact h'
  | step hins hex _ ih =>
    rw [Nat.add_right_comm]
    exact .step hins hex (ih h')

theorem Late.zero (linked : Linked) (s : State) : Late linked 0 s := ⟨0, s, Nat.le_refl _, .refl⟩

theorem Late.mono (h : Late linked n s) (hle : m ≤ n) : Late linked m s := by
  obtain ⟨k, s', hk, hsteps⟩ := h
  exact ⟨k, s', Nat.le_trans hle hk, hsteps⟩

/-- instructions on the way count -/
theorem Steps.late (h : Steps linked s k s') (h' : Late linked n s') : Late linked (k + n) s := by
  obtain ⟨m, s'', hm, hsteps⟩ := h'
  exact ⟨k + m, s'', Nat.add_le_add_left hm k, h.trans hsteps⟩

namespace Passes

theorem refl (st : List Slot) : Passes st st := ⟨fun _ _ h => h, fun callers h => ⟨callers, h⟩⟩

theorem trans (h : Passes st st') (h' : Passes st' st'') : Passes st st'' := by
  refine ⟨fun region rest hc => h.caught region rest (h'.caught region rest hc), fun callers hc => ?_⟩
  obtain ⟨callers', hc'⟩ := h'.uncaught callers hc
  exact h.uncaught callers' hc'

/-- over entries that are neither handlers nor frames -/
theorem passed (dropped : List Slot) (hd : ∀ x ∈ dropped, Stack.isPassed x = true)
    (st : List Slot) : Passes (dropped ++ st) st := by
  have heq := Stack.unwindThrow_passed dropped st hd
  refine ⟨fun region rest hc => heq.trans hc, fun callers hc => ⟨callers, heq.trans hc⟩⟩

theorem values (vs : List Value) (st : List Slot) : Passes (vs.map .value ++ st) st :=
  passed _ (forall_values (fun _ => rfl) vs) st

theorem value (v : Value) (st : List Slot) : Passes (.value v :: st) st := values [v] st

theorem marker (env : EnvId) (st : List Slot) : Passes (.loopMarker env :: st) st :=
  passed [.loopMarker env] (List.forall_mem_singleton.mpr rfl) st

/-- through a frame that the host did not make -/
theorem site {site : CallSite} (hsite : site.fromHost = false) (st : List Slot) :
    Passes (.callSite site :: st) st := by
  have heq : (Stack.of (.callSite site :: st)).unwindThrow
      = (Stack.of st).unwindThrow.through site.caller := by
    rw [Stack.unwindThrow_site, if_neg (by rw [hsite]; exact Bool.false_ne_true)]
  refine ⟨fun region rest hc => ?_, fun callers hc => ⟨site.caller :: callers, ?_⟩⟩
  · rw [heq, hc]
    rfl
  · rw [heq, hc]
    rfl

end Passes

namespace Raises

theorem steps (h : Steps linked s k s') (hr : Raises linked s' v st heap events) :
    Raises linked s v st heap events := by
  obtain ⟨m, s₁, s₂, ins, hsteps, hrest⟩ := hr
  exact ⟨k + m, s₁, s₂, ins, h.trans hsteps, hrest⟩

theorem passes (hr : Raises linked s v st heap events) (hp : Passes st st') :
    Raises linked s v st' heap events := by
  obtain ⟨m, s₁, s₂, ins, hsteps, hins, hex, hpass, hrest⟩ := hr
  exact ⟨m, s₁, s₂, ins, hsteps, hins, hex, hpass.trans hp, hrest⟩

/-- the run goes on at the handler -/
theorem caught (hr : Raises linked s v st heap events) {region : TryRegion} {rest : Stack}
    (hst : (Stack.of st).unwindThrow = .caught region rest) :
    ∃ k, Steps linked s k ⟨region.handler, region.env, rest.push (.value v), heap, events⟩ := by
  obtain ⟨m, s₁, s₂, ins, hsteps, hins, hex, hpass, rfl, rfl⟩ := hr
  have hunwind : s₂.stack.unwindThrow = .caught region rest := by
    rw [Stack.eq_of s₂.stack]
    exact hpass.caught region rest hst
  have hthrow : Exec.throwValue v linked s₂
      = .ok () ⟨region.handler, region.env, rest.push (.value v), s₂.heap, s₂.events⟩ := by
    rw [Exec.throwValue_eq, hunwind]
  exact ⟨m + 1, hsteps.trans (.step hins (hex.trans (Exec.bind_ok hthrow _)) .refl)⟩

/-- the run fails -/
theorem uncaught (hr : Raises linked s v st heap events) {callers : List Location}
    (hst : (Stack.of st).unwindThrow = .uncaught callers) :
    ∃ k s₁ s₂ ins frames, Steps linked s k s₁
      ∧ linked.program.instruction? s₁.location.sectionIndex s₁.location.pc = some ins
      ∧ execute linked ins.op s₁
        = .error (Exec.uncaughtError linked s₂ v frames) { s₂ with stack := Stack.empty }
      ∧ s₂.heap = heap ∧ s₂.events = events := by
  obtain ⟨m, s₁, s₂, ins, hsteps, hins, hex, hpass, hrest⟩ := hr
  obtain ⟨callers', hunwind⟩ := hpass.uncaught callers hst
  rw [← Stack.eq_of] at hunwind
  refine ⟨m, s₁, s₂, ins, (s₂.location :: callers').map linked.sectionName, hsteps, hins, ?_, hrest⟩
  refine hex.trans (Exec.bind_error ?_ _)
  rw [Exec.throwValue_eq, hunwind]

end Raises

end

/-! ## instructions -/

/-- the machine at a place -/
def Twin.at (t : Twin) (loc : Location) (env : EnvId) (st : List Slot) : State :=
  ⟨loc, env, .of st, t.heap, t.world.events⟩

section
variable {linked : Linked} {t : Twin} {loc loc' : Location} {env p : EnvId} {st : List Slot}
  {range : TokenRange} {op : Op} {s' : State} {v a b : Value} {l : Label} {name : String}

theorem At.step {s : State} (h : At linked.program s.location (one op range))
    (hex : Exec.dispatch op linked { s with location := s.location.skip 1 } = .ok .proceed s') :
    Steps linked s 1 s' := by
  obtain ⟨ins, hins, rfl⟩ := h.head
  exact .step hins hex .refl

/-- an instruction that throws -/
theorem At.raises {s : State} (s₂ : State) (h : At linked.program s.location (one op range))
    (hex : Exec.dispatch op linked { s with location := s.location.skip 1 }
      = (do Exec.throwValue v; pure Signal.proceed : Exec Signal) linked s₂)
    (hpass : Passes s₂.stack.slots st) : Raises linked s v st s₂.heap s₂.events := by
  obtain ⟨ins, hins, rfl⟩ := h.head
  exact ⟨0, s, s₂, ins, .refl, hins, hex, hpass, rfl, rfl⟩

theorem step_nop (h : At linked.program loc [⟨.nop, r, statement⟩]) :
    Steps linked (t.at loc env st) 1 (t.at (loc.skip 1) env st) := by
  obtain ⟨ins, hins, hop⟩ := h 0 _ rfl
  refine .step hins ?_ .refl
  rw [hop]
  rfl

theorem step_label (h : At linked.program loc (place l)) :
    Steps linked (t.at loc env st) 1 (t.at (loc.skip 1) env st) := by
  obtain ⟨ins, hins, hop⟩ := h 0 _ rfl
  refine .step hins ?_ .refl
  rw [hop]
  rfl

theorem step_const {i : Nat} (h : At linked.program loc (one (.const i) range))
    (hv : linked.program.constants[i]? = some v) :
    Steps linked (t.at loc env st) 1 (t.at (loc.skip 1) env (.value v :: st)) :=
  h.step (Exec.bind_ok (Exec.const_some hv) _)

theorem step_pop (h : At linked.program loc (one .pop range)) :
    Steps linked (t.at loc env (.value v :: st)) 1 (t.at (loc.skip 1) env st) := h.step rfl

theorem step_binary {op : BinaryOp} (h : At linked.program loc (one (.binary op) range)) :
    Steps linked (t.at loc env (.value b :: .value a :: st)) 1
      (t.at (loc.skip 1) env (.value (t.heap.applyBinary op a b) :: st)) := h.step rfl

theorem step_neg (h : At linked.program loc (one .neg range)) :
    Steps linked (t.at loc env (.value v :: st)) 1
      (t.at (loc.skip 1) env (.value v.negate :: st)) := h.step rfl

theorem step_not (h : At linked.program loc (one .not range)) :
    Steps linked (t.at loc env (.value v :: st)) 1
      (t.at (loc.skip 1) env (.value v.invert :: st)) := h.step rfl

theorem jump_eq (hl : linked.labels.resolve? l = some loc') (s : State) :
    Exec.jump l linked s = .ok () { s with location := loc' } :=
  Exec.bind_ok (Exec.resolve_some hl) _

theorem step_jump (h : At linked.program loc (one (.jump l) range))
    (hl : linked.labels.resolve? l = some loc') :
    Steps linked (t.at loc env st) 1 (t.at loc' env st) :=
  h.step (Exec.bind_ok (jump_eq hl _) _)

theorem step_jumpFalse (h : At linked.program loc (one (.jumpFalse l) range))
    (hl : linked.labels.resolve? l = some loc') :
    Steps linked (t.at loc env (.value v :: st)) 1
      (t.at (if v.isTruthy then loc.skip 1 else loc') env st) := by
  refine h.step ?_
  cases hv : v.isTruthy with
  | true =>
    show EStateM.bind ((if !v.isTruthy then Exec.jump l else pure () : Exec Unit) linked) _
      ⟨loc.skip 1, env, .of st, t.heap, t.world.events⟩ = _
    rw [hv]
    rfl
  | false =>
    show EStateM.bind ((if !v.isTruthy then Exec.jump l else pure () : Exec Unit) linked) _
      ⟨loc.skip 1, env, .of st, t.heap, t.world.events⟩ = _
    rw [hv]
    exact Exec.bind_ok (jump_eq hl _) _

theorem step_jumpTrue (h : At linked.program loc (one (.jumpTrue l) range))
    (hl : linked.labels.resolve? l = some loc') :
    Steps linked (t.at loc env (.value v :: st)) 1
      (t.at (if v.isTruthy then loc' else loc.skip 1) env st) := by
  refine h.step ?_
  cases hv : v.isTruthy with
  | false =>
    show EStateM.bind ((if v.isTruthy then Exec.jump l else pure () : Exec Unit) linked) _
      ⟨loc.skip 1, env, .of st, t.heap, t.world.events⟩ = _
    rw [hv]
    rfl
  | true =>
    show EStateM.bind ((if v.isTruthy then Exec.jump l else pure () : Exec Unit) linked) _
      ⟨loc.skip 1, env, .of st, t.heap, t.world.events⟩ = _
    rw [hv]
    exact Exec.bind_ok (jump_eq hl _) _

/-! scopes and variables -/

/-- the evaluator may make its scope in another environment -/
theorem step_enterScope (h : At linked.program loc (one .enterScope range)) (e' : EnvId)
    (names : List String) :
    Steps linked (t.at loc env st) 1 ((t.enter env e' names).at (loc.skip 1) t.next st) := h.step rfl

theorem step_leaveScope (h : At linked.program loc (one .leaveScope range))
    (hp : t.heap.parent? env = some p) :
    Steps linked (t.at loc env st) 1 (t.at (loc.skip 1) p st) :=
  h.step (Exec.bind_ok (Exec.leaveScope_some hp) _)

theorem step_declare (h : At linked.program loc (one (.declare name) range)) :
    Steps linked (t.at loc env st) 1
      ((t.define env name .undefined).at (loc.skip 1) env st) := h.step rfl

theorem step_store (h : At linked.program loc (one (.store name false) range)) :
    Steps linked (t.at loc env (.value v :: st)) 1
      ((t.define ((t.heap.owner? env name).getD linked.global) name v).at (loc.skip 1) env
        (.value v :: st)) := h.step rfl

/-- storing a result in the hidden variable, which the evaluator does not have -/
theorem step_park (h : At linked.program loc
      (one (.declare returnSlot) range ++ one (.store returnSlot false) range ++ one .pop range))
    (hown : (t.heap.define env returnSlot .undefined).owner? env returnSlot = some env) :
    Steps linked (t.at loc env (.value v :: st)) 3
      (((t.park env .undefined).park env v).at (loc.skip 3) env st) := by
  have hdeclare : Steps linked (t.at loc env (.value v :: st)) 1
      ((t.park env .undefined).at (loc.skip 1) env (.value v :: st)) := h.left.left.step rfl
  have hstore : Steps linked ((t.park env .undefined).at (loc.skip 1) env (.value v :: st)) 1
      (((t.park env .undefined).park env v).at (loc.skip 2) env (.value v :: st)) := by
    refine h.left.right.step ?_
    show EStateM.Result.ok Signal.proceed (State.mk (loc.skip 2) env (Stack.of (.value v :: st))
      ((t.heap.define env returnSlot .undefined).define
        (((t.heap.define env returnSlot .undefined).owner? env returnSlot).getD linked.global)
        returnSlot v) t.world.events) = _
    rw [hown]
    rfl
  exact (hdeclare.trans hstore).trans (step_pop h.right)

/-! markers -/

theorem step_loopStart (h : At linked.program loc (one .loopStart range)) :
    Steps linked (t.at loc env st) 1 (t.at (loc.skip 1) env (.loopMarker env :: st)) := h.step rfl

theorem step_loopEnd (h : At linked.program loc (one .loopEnd range)) {e : EnvId} :
    Steps linked (t.at loc env (.loopMarker e :: st)) 1 (t.at (loc.skip 1) env st) := h.step rfl

theorem step_loopExit (h : At linked.program loc (one (.loopExit (some l)) range))
    (hl : linked.labels.resolve? l = some loc') {upper : List Slot} {e : EnvId}
    (hupper : ∀ x ∈ upper, Exec.loopMarker? x = none) :
    Steps linked (t.at loc env (upper ++ .loopMarker e :: st)) 1
      (t.at loc' e (.loopMarker e :: st)) := by
  have hunwind : (Stack.of (upper ++ .loopMarker e :: st)).unwind Exec.loopMarker?
      = some (some e, .of st) := Stack.unwind_append Exec.loopMarker? upper (.loopMarker e) st hupper rfl
  have hexit : Exec.loopExit (some l) linked (t.at (loc.skip 1) env (upper ++ .loopMarker e :: st))
      = .ok () (t.at loc' e (.loopMarker e :: st)) := by
    rw [Exec.loopExit_result, show (t.at (loc.skip 1) env (upper ++ .loopMarker e :: st)).stack.unwind
      Exec.loopMarker? = some (some e, .of st) from hunwind]
    exact jump_eq hl _
  exact h.step (Exec.bind_ok hexit _)

theorem step_enterTry (h : At linked.program loc (one (.enterTry l) range))
    (hl : linked.labels.resolve? l = some loc') :
    Steps linked (t.at loc env st) 1 (t.at (loc.skip 1) env (.tryRegion ⟨loc', env⟩ :: st)) := by
  have hhandler : Exec.perform (.enterTry l) linked (t.at (loc.skip 1) env st)
      = .ok () (t.at (loc.skip 1) env (.tryRegion ⟨loc', env⟩ :: st)) :=
    Exec.bind_ok (Exec.resolve_some hl) _
  exact h.step (Exec.bind_ok hhandler _)

theorem step_leaveTry (h : At linked.program loc (one .leaveTry range)) {region : TryRegion} :
    Steps linked (t.at loc env (.tryRegion region :: st)) 1 (t.at (loc.skip 1) env st) := h.step rfl

theorem raises_throw (h : At linked.program loc (one .throw range)) :
    Raises linked (t.at loc env (.value v :: st)) v st t.heap t.world.events :=
  At.raises (t.at (loc.skip 1) env st) h rfl (.refl st)

/-! values -/

theorem popValues_eq (vs : List Value) :
    Exec.popValues vs.length linked (t.at loc env (vs.map .value ++ st)) = .ok vs (t.at loc env st) :=
  Exec.popValues_of vs st (t.at loc env st)

theorem step_makeArray (vs : List Value) (h : At linked.program loc (one (.makeArray vs.length) range)) :
    Steps linked (t.at loc env (vs.map .value ++ st)) 1
      ⟨loc.skip 1, env, .of (.value (.array (t.heap.newArray vs.toArray).1) :: st),
        (t.heap.newArray vs.toArray).2, t.world.events⟩ := by
  have hmake : Exec.perform (.makeArray vs.length) linked (t.at (loc.skip 1) env (vs.map .value ++ st))
      = .ok () ⟨loc.skip 1, env, .of (.value (.array (t.heap.newArray vs.toArray).1) :: st),
        (t.heap.newArray vs.toArray).2, t.world.events⟩ := Exec.bind_ok (popValues_eq vs) _
  exact h.step (Exec.bind_ok hmake _)

theorem step_pick (vs : List Value) (h : At linked.program loc (one (.pick vs.length) range)) :
    Steps linked (t.at loc env (vs.map .value ++ Slot.value v :: st)) 1
      (t.at (loc.skip 1) env (Slot.value v :: vs.map .value ++ Slot.value v :: st)) := by
  have hpick : (Stack.of (vs.map .value ++ Slot.value v :: st)).pick? vs.length = some v := by
    have hget : (vs.map Slot.value ++ .value v :: st)[vs.length]? = some (.value v) := by
      rw [List.getElem?_append_right (Nat.le_of_eq (List.length_map _)), List.length_map, Nat.sub_self]
      rfl
    unfold Stack.pick?
    rw [Stack.slots_of, hget]
  exact h.step (Exec.bind_ok (Exec.pick_some hpick) _)

/-! names -/

theorem step_fetch {s : State} (h : At linked.program s.location (one (.fetch name .variable) range))
    (hlook : Exec.lookupScript? linked s name = some v) :
    Steps linked s 1 { s with location := s.location.skip 1, stack := s.stack.push (.value v) } :=
  h.step (Exec.bind_ok
    (Exec.fetchVariable_some (s := { s with location := s.location.skip 1 }) hlook) _)

theorem step_fetch_none {s : State}
    (h : At linked.program s.location (one (.fetch name .variable) range))
    (hlook : Exec.lookupScript? linked s name = none) :
    Steps linked s 1 { s with
      location := s.location.skip 1
      stack := s.stack.push (.value (if linked.hasNative name then .native name else .undefined)) } :=
  h.step (Exec.bind_ok
    (Exec.fetchVariable_none (s := { s with location := s.location.skip 1 }) hlook) _)

theorem step_fetchCallee {args : List Value}
    (h : At linked.program loc (one (.fetch name (.callVariable args.length)) range))
    (hlook : Exec.lookupScript? linked (t.at loc env (args.map .value ++ st)) name = some v) :
    Steps linked (t.at loc env (args.map .value ++ st)) 1
      (t.at (loc.skip 1) env (Slot.value v :: args.map .value ++ st)) :=
  h.step (Exec.bind_ok
    (Exec.fetchCallee_some (s := t.at (loc.skip 1) env (args.map .value ++ st)) hlook) _)

/-- a function that is neither the script's nor the host's -/
theorem raises_fetchCallee {args : List Value}
    (h : At linked.program loc (one (.fetch name (.callVariable args.length)) range))
    (hlook : Exec.lookupScript? linked (t.at loc env (args.map .value ++ st)) name = none)
    (hnative : linked.hasNative name = false) :
    Raises linked (t.at loc env (args.map .value ++ st)) (notAFunction name) st t.heap
      t.world.events := by
  have hpass : Passes (t.at (loc.skip 1) env (args.map .value ++ st)).stack.slots st :=
    .values args st
  have hfetch : Exec.fetch name (.callVariable args.length) linked
      (t.at (loc.skip 1) env (args.map .value ++ st))
      = Exec.throwValue (notAFunction name) linked (t.at (loc.skip 1) env (args.map .value ++ st)) :=
    Exec.fetchCallee_unknown hlook hnative
  exact At.raises _ h (Exec.bind_same hfetch _) hpass

/-- what `print` shows -/
def Twin.printed (t : Twin) (args : List Value) : Twin :=
  t.note (.printed (" ".intercalate (args.map t.heap.text)))

theorem callNative_print (hnative : linked.native? Linked.printName = none) (args : List Value) :
    Exec.callNative Linked.printName args linked (t.at loc env st)
      = .ok (.ok .undefined) ((t.printed args).at loc env st) := by
  rw [Exec.callNative_none hnative, if_pos rfl]
  rfl

theorem callNative_missing (hnative : linked.native? name = none) (hname : name ≠ Linked.printName)
    (args : List Value) :
    Exec.callNative name args linked (t.at loc env st)
      = .ok (.error (notAFunction name)) (t.at loc env st) := by
  rw [Exec.callNative_none hnative, if_neg hname]
  rfl

theorem step_fetchPrint {args : List Value}
    (h : At linked.program loc (one (.fetch Linked.printName (.callVariable args.length)) range))
    (hlook : Exec.lookupScript? linked (t.at loc env (args.map .value ++ st)) Linked.printName = none)
    (hnative : linked.native? Linked.printName = none) :
    Steps linked (t.at loc env (args.map .value ++ st)) 1
      ((t.printed args).at (loc.skip 1) env (.nativeResult :: .value .undefined :: st)) := by
  have hhas : linked.hasNative Linked.printName = true := by
    unfold Linked.hasNative
    rw [hnative]
    rfl
  have hfetch : Exec.fetch Linked.printName (.callVariable args.length) linked
      (t.at (loc.skip 1) env (args.map .value ++ st))
      = .ok () ((t.printed args).at (loc.skip 1) env (.nativeResult :: .value .undefined :: st)) :=
    Exec.fetchCallee_native (s := t.at (loc.skip 1) env (args.map .value ++ st)) hlook hhas
      (popValues_eq args) (callNative_print hnative args)
  exact h.step (Exec.bind_ok hfetch _)

/-! calls -/

/-- the call is already made -/
theorem step_called {argc : Nat} (h : At linked.program loc (one (.call argc false) range)) :
    Steps linked (t.at loc env (.nativeResult :: .value v :: st)) 1
      (t.at (loc.skip 1) env (.value v :: st)) := h.step rfl

/-- the same with a receiver below -/
theorem step_calledOn {argc : Nat} (h : At linked.program loc (one (.call argc true) range)) :
    Steps linked (t.at loc env (.nativeResult :: .value v :: .value a :: st)) 1
      (t.at (loc.skip 1) env (.value v :: st)) := h.step rfl

theorem step_call {args : List Value} {index : Nat} {entry : FunctionEntry}
    (h : At linked.program loc (one (.call args.length false) range))
    (hentry : linked.program.functions[index]? = some entry) :
    Steps linked (t.at loc env (Slot.value (.function index) :: args.map .value ++ st)) 1
      (Exec.calleeState linked index entry args none false (t.at (loc.skip 1) env st)) := by
  have hcall : Exec.callValue args.length false linked
      (t.at (loc.skip 1) env (Slot.value (.function index) :: args.map .value ++ st))
      = .ok () (Exec.calleeState linked index entry args none false (t.at (loc.skip 1) env st)) :=
    Exec.callValue_function hentry args none st (t.at (loc.skip 1) env st)
  exact h.step (Exec.bind_ok hcall _)

theorem step_callPrint {args : List Value}
    (h : At linked.program loc (one (.call args.length false) range))
    (hnative : linked.native? Linked.printName = none) :
    Steps linked (t.at loc env (Slot.value (.native Linked.printName) :: args.map .value ++ st)) 1
      ((t.printed args).at (loc.skip 1) env (.value .undefined :: st)) := by
  have hcall : Exec.callValue args.length false linked
      (t.at (loc.skip 1) env (Slot.value (.native Linked.printName) :: args.map .value ++ st))
      = .ok () ((t.printed args).at (loc.skip 1) env (.value .undefined :: st)) :=
    (Exec.bind_ok (popValues_eq args) _).trans (Exec.bind_ok (callNative_print hnative args) _)
  exact h.step (Exec.bind_ok hcall _)

theorem raises_callMissing {args : List Value}
    (h : At linked.program loc (one (.call args.length false) range))
    (hnative : linked.native? name = none) (hname : name ≠ Linked.printName) :
    Raises linked (t.at loc env (Slot.value (.native name) :: args.map .value ++ st)) (notAFunction name)
      st t.heap t.world.events := by
  have hcall : Exec.callValue args.length false linked
      (t.at (loc.skip 1) env (Slot.value (.native name) :: args.map .value ++ st))
      = Exec.throwValue (notAFunction name) linked (t.at (loc.skip 1) env st) :=
    (Exec.bind_ok (popValues_eq args) _).trans
      (Exec.bind_ok (callNative_missing hnative hname args) _)
  exact At.raises (t.at (loc.skip 1) env st) h (Exec.bind_same hcall _) (.refl st)

/-- a value that is no function -/
theorem raises_callValue {args : List Value}
    (h : At linked.program loc (one (.call args.length false) range))
    (hfun : ∀ index, v ≠ .function index) (hnative : ∀ name, v ≠ .native name) :
    Raises linked (t.at loc env (Slot.value v :: args.map .value ++ st)) (notAFunction (t.heap.text v))
      st t.heap t.world.events := by
  have hpass : Passes (t.at (loc.skip 1) env (args.map .value ++ st)).stack.slots st :=
    .values args st
  have hcall : Exec.callValue args.length false linked
      (t.at (loc.skip 1) env (Slot.value v :: args.map .value ++ st))
      = Exec.throwValue (notAFunction (t.heap.text v)) linked
        (t.at (loc.skip 1) env (args.map .value ++ st)) :=
    Exec.callValue_other hfun hnative _ (t.at (loc.skip 1) env st)
  exact At.raises _ h (Exec.bind_same hcall _) hpass

theorem step_ret (h : At linked.program loc (one .ret range)) {upper : List Slot} {site : CallSite}
    (hupper : ∀ x ∈ upper, Exec.callSite? x = none) (hsite : site.fromHost = false) :
    Steps linked (t.at loc env (Slot.value v :: upper ++ .callSite site :: st)) 1
      (t.at site.caller site.env (.value v :: st)) := by
  have hret : Exec.returnFromCall linked
      (t.at (loc.skip 1) env (Slot.value v :: upper ++ .callSite site :: st))
      = .ok false (t.at site.caller site.env (.value v :: st)) := by
    have hpop : Exec.pop linked (t.at (loc.skip 1) env (Slot.value v :: upper ++ .callSite site :: st))
        = .ok v (t.at (loc.skip 1) env (upper ++ .callSite site :: st)) := rfl
    rw [Exec.returnFromCall_eq, hpop]
    dsimp only [Twin.at]
    rw [Stack.unwind_append Exec.callSite? upper (.callSite site) st hupper rfl]
    dsimp only
    rw [hsite]
    rfl
  exact h.step (Exec.bind_ok hret _)

/-! properties -/

theorem step_fetchProperty (h : At linked.program loc (one (.fetch name .property) range))
    (hv : t.heap.getProperty a name = .ok v) :
    Steps linked (t.at loc env (.value a :: st)) 1 (t.at (loc.skip 1) env (.value v :: st)) :=
  h.step (Exec.bind_ok (Exec.fetchProperty_ok (s := t.at (loc.skip 1) env (.value a :: st))
    (show Exec.pop linked _ = .ok a (t.at (loc.skip 1) env st) from rfl) hv) _)

theorem raises_fetchProperty (h : At linked.program loc (one (.fetch name .property) range))
    (hv : t.heap.getProperty a name = .error v) :
    Raises linked (t.at loc env (.value a :: st)) v st t.heap t.world.events :=
  At.raises (t.at (loc.skip 1) env st) h (Exec.bind_same (Exec.fetchProperty_error rfl hv) _)
    (.refl st)

section
variable {args : List Value} {run : List Value → Heap → Except Value Value × Heap} {heap : Heap}

theorem fetchMethod_immediate (hm : t.heap.method a name = .immediate run) :
    Exec.fetchMethod a name args.length linked (t.at loc env (args.map .value ++ st))
      = (match (run args t.heap).1 with
        | .ok result => Exec.pushResult result
        | .error thrown => Exec.throwValue thrown : Exec Unit) linked
          ⟨loc, env, .of st, (run args t.heap).2, t.world.events⟩ := by
  unfold Exec.fetchMethod
  rw [Exec.get_bind, show (t.at loc env (args.map .value ++ st)).heap.method a name = .immediate run
    from hm]
  exact Exec.bind_ok (popValues_eq args) _

theorem raises_missing (h : At linked.program loc (one (.fetch name (.callProperty args.length)) range))
    (hm : t.heap.method a name = .missing v) :
    Raises linked (t.at loc env (Slot.value a :: args.map .value ++ st)) v st t.heap t.world.events := by
  have hpass : Passes (t.at (loc.skip 1) env (args.map .value ++ st)).stack.slots st :=
    .values args st
  exact At.raises _ h (Exec.bind_same (Exec.fetchMethod_missing hm) _) hpass

/-- a method that runs at once gives a result -/
theorem step_immediate (h : At linked.program loc (one (.fetch name (.callProperty args.length)) range))
    (hm : t.heap.method a name = .immediate run) (hr : run args t.heap = (.ok v, heap)) :
    Steps linked (t.at loc env (Slot.value a :: args.map .value ++ st)) 1
      ⟨loc.skip 1, env, .of (.nativeResult :: .value v :: st), heap, t.world.events⟩ := by
  have hfetch : Exec.fetchMethod a name args.length linked
      (t.at (loc.skip 1) env (args.map .value ++ st))
      = .ok () ⟨loc.skip 1, env, .of (.nativeResult :: .value v :: st), heap, t.world.events⟩ := by
    rw [fetchMethod_immediate hm, hr]
    rfl
  exact h.step (Exec.bind_ok hfetch _)

/-- a method that runs at once throws -/
theorem raises_immediate
    (h : At linked.program loc (one (.fetch name (.callProperty args.length)) range))
    (hm : t.heap.method a name = .immediate run) (hr : run args t.heap = (.error v, heap)) :
    Raises linked (t.at loc env (Slot.value a :: args.map .value ++ st)) v st heap t.world.events := by
  have hfetch : Exec.fetchMethod a name args.length linked
      (t.at (loc.skip 1) env (args.map .value ++ st))
      = Exec.throwValue v linked ⟨loc.skip 1, env, .of st, heap, t.world.events⟩ := by
    rw [fetchMethod_immediate hm, hr]
  exact At.raises ⟨loc.skip 1, env, .of st, heap, t.world.events⟩ h (Exec.bind_same hfetch _)
    (.refl st)

end

end

end ScriptMachine
