import ScriptMachine.Proofs.Machine.Frames

/-!
# Instructions keep the shapes

A step of the machine is safe if from the states that it is meant for it goes to such states, or
fails because of the script: a value that nothing catches.  It never fails for a defect.

* `Safe linked P x Q`   from states of `P`, `x` goes to states of `Q` or fails because of the script;
* `Safe.bind`, ...      steps one after another;
* `safe_pop`, `safe_push`, `safe_throwValue`, `safe_enterFunction`, ...   the parts of instructions;
* `safe_perform`, `safe_dispatch`   a typed instruction leads to a state that is sound again.
-/

namespace ScriptMachine

/-! ## safe steps -/

/-- a result that is wanted, or a failure of the script on a heap that is all right -/
def Ends {α : Type} (linked : Linked) (Q : α → State → Prop) :
    EStateM.Result RuntimeError State α → Prop
  | .ok a s => Q a s
  | .error e s => e.isInternal = false ∧ HeapOk linked s.heap

def Safe {α : Type} (linked : Linked) (P : State → Prop) (x : Exec α) (Q : α → State → Prop) :
    Prop := ∀ s, P s → Ends linked Q (x linked s)

namespace Safe

variable {α β : Type} {linked : Linked} {P P' : State → Prop} {Q Q' : α → State → Prop}
  {R : β → State → Prop} {x : Exec α} {f : α → Exec β}

theorem pure {a : α} (h : ∀ s, P s → Q a s) : Safe linked P (Pure.pure a) Q := h

theorem bind (hx : Safe linked P x Q) (hf : ∀ a, Safe linked (Q a) (f a) R) :
    Safe linked P (x >>= f) R := by
  intro s hs
  have h := hx s hs
  cases hr : x linked s with
  | ok a s' =>
    rw [hr] at h
    rw [Exec.bind_ok hr]
    exact hf a s' h
  | error e s' =>
    rw [hr] at h
    rw [Exec.bind_error hr]
    exact h

theorem map (g : α → β) (hx : Safe linked P x Q) :
    Safe linked P (g <$> x) (fun b s => ∃ a, b = g a ∧ Q a s) := by
  intro s hs
  have h := hx s hs
  show Ends linked _ (EStateM.map g (x linked) s)
  unfold EStateM.map
  cases hr : x linked s with
  | ok a s' =>
    rw [hr] at h
    exact ⟨a, rfl, h⟩
  | error e s' =>
    rw [hr] at h
    exact h

theorem weaken (hx : Safe linked P x Q) (h : ∀ a s, Q a s → Q' a s) : Safe linked P x Q' := by
  intro s hs
  have hend := hx s hs
  cases hr : x linked s with
  | ok a s' =>
    rw [hr] at hend
    exact h a s' hend
  | error e s' =>
    rw [hr] at hend
    exact hend

/-- a fact that the states do not matter for -/
theorem of_fact {p : Prop} (h : p → Safe linked P x Q) : Safe linked (fun s => p ∧ P s) x Q :=
  fun s hs => h hs.1 s hs.2

theorem read {f : Linked → Exec β} (h : Safe linked P (f linked) R) :
    Safe linked P (MonadReader.read >>= f) R := h

/-- what is read of a state is known of states of that kind -/
theorem get {f : State → Exec β} (h : ∀ s, P s → Safe linked P (f s) R) :
    Safe linked P (MonadState.get >>= f) R := fun s hs => h s hs s hs

end Safe

section
variable {linked : Linked} {T : Location → Shape} {hosted : Bool} {loc : Location} {es : List Entry}
  {d : Nat}

theorem Here.step {σ : Shape} {s : State} (h : Here linked T hosted loc σ s) {heap : Heap}
    (hstep : HeapStep linked.program.functions.size s.heap heap) (events : List Event) :
    Here linked T hosted loc σ { s with heap := heap, events := events } := by
  obtain ⟨hloc, hheap, base, own, rest, hst, hframes, hholds, hscope⟩ := h
  exact ⟨hloc, hheap.step hstep, base, own, rest, hst, hframes.later hstep.later,
    hholds.later hstep.later, hscope.later hstep.later⟩

/-- a section is not empty -/
theorem WellShaped.first {program : Program} {table : LabelTable}
    (h : WellShaped program table T) {i : Nat} {sec : Section} (hsec : program.sections[i]? = some sec) :
    (program.instruction? i 0).isSome := by
  obtain ⟨last, hlast, -⟩ := h.ends i sec hsec
  have hpos : 0 < sec.code.size := Array.size_pos_of_mem (Array.mem_of_back? hlast)
  show (program.sections[i]?.bind _).isSome
  rw [hsec]
  exact Option.isSome_iff_exists.mpr ⟨_, Array.getElem?_eq_getElem hpos⟩

/-- behind an instruction that control can go on from there is another one -/
theorem WellShaped.next {program : Program} {table : LabelTable}
    (h : WellShaped program table T) {i pc : Nat} {ins : Instruction}
    (hins : program.instruction? i pc = some ins) (hret : ins.op ≠ .ret) (hhalt : ins.op ≠ .halt) :
    (program.instruction? i (pc + 1)).isSome := by
  obtain ⟨sec, hsec, hpc⟩ := Option.bind_eq_some_iff.mp hins
  obtain ⟨last, hlast, hop⟩ := h.ends i sec hsec
  have hlt : pc < sec.code.size := (Array.getElem?_eq_some_iff.mp hpc).1
  have hnext : pc + 1 < sec.code.size := by
    rcases Nat.lt_or_eq_of_le (Nat.succ_le_of_lt hlt) with hlt | heq
    · exact hlt
    · have hback : sec.code.back? = sec.code[pc]? := by
        rw [Array.back?_eq_getElem?, ← heq]
        rfl
      rw [hback, hpc] at hlast
      cases hlast
      rcases hop with hop | hop
      · exact absurd hop hret
      · exact absurd hop hhalt
  show (program.sections[i]?.bind _).isSome
  rw [hsec]
  exact Option.isSome_iff_exists.mpr ⟨_, Array.getElem?_eq_getElem hnext⟩

/-- The running frame goes on behind a step: the next instruction needs the shape that is left. -/
structure Falls (linked : Linked) (T : Location → Shape) (loc : Location) (τ : Shape) : Prop where
  exists_ : (linked.program.instruction? loc.sectionIndex loc.pc).isSome
  shape : T loc = τ

theorem Falls.sound {τ : Shape} (hfall : Falls linked T loc τ) {s : State}
    (h : Here linked T hosted loc τ s) : Sound linked T hosted s := by
  obtain ⟨hexists, rfl⟩ := hfall
  have hloc := h.location
  subst hloc
  exact ⟨hexists, h⟩

/-- a step that goes on behind itself -/
theorem Safe.falls {α : Type} {τ : Shape} {P : State → Prop} {x : Exec α} (hfall : Falls linked T loc τ)
    (hx : Safe linked P x (fun _ => Here linked T hosted loc τ)) :
    Safe linked P x (fun _ => Sound linked T hosted) :=
  hx.weaken fun _ _ => hfall.sound

/-! ## the stack -/

namespace Exec

theorem safe_push {v : Value} (hv : v.Known linked.program.functions.size) :
    Safe linked (Here linked T hosted loc ⟨es, d⟩) (push v)
      (fun _ => Here linked T hosted loc ⟨.value :: es, d⟩) := by
  rintro ⟨_, env, st, heap, ev⟩ ⟨rfl, hheap, base, own, rest, rfl, hframes, hholds, hscope⟩
  exact ⟨rfl, hheap, base, .value v :: own, rest, rfl, hframes, .value hv hholds, hscope⟩

theorem safe_pop :
    Safe linked (Here linked T hosted loc ⟨.value :: es, d⟩) pop
      (fun v s => v.Known linked.program.functions.size ∧ Here linked T hosted loc ⟨es, d⟩ s) := by
  rintro ⟨_, env, st, heap, ev⟩ ⟨rfl, hheap, base, own, rest, rfl, hframes, hholds, hscope⟩
  cases hholds with
  | value hv hholds => exact ⟨hv, rfl, hheap, base, _, rest, rfl, hframes, hholds, hscope⟩

theorem safe_peek :
    Safe linked (Here linked T hosted loc ⟨.value :: es, d⟩) peek
      (fun v s => v.Known linked.program.functions.size
        ∧ Here linked T hosted loc ⟨.value :: es, d⟩ s) := by
  rintro ⟨_, env, st, heap, ev⟩ ⟨rfl, hheap, base, own, rest, rfl, hframes, hholds, hscope⟩
  cases hholds with
  | value hv hholds =>
    exact ⟨hv, rfl, hheap, base, _, rest, rfl, hframes, .value hv hholds, hscope⟩

theorem safe_popValues (n : Nat) :
    Safe linked (Here linked T hosted loc ⟨values n ++ es, d⟩) (popValues n)
      (fun vs s => (∀ v ∈ vs, v.Known linked.program.functions.size)
        ∧ Here linked T hosted loc ⟨es, d⟩ s) := by
  induction n with
  | zero => exact Safe.pure fun s hs => ⟨nofun, hs⟩
  | succ n ih =>
    refine Safe.bind safe_pop fun v => Safe.of_fact fun hv => ?_
    refine Safe.bind ih fun vs => Safe.of_fact fun hvs => ?_
    exact Safe.pure fun s hs => ⟨List.forall_mem_cons.mpr ⟨hv, hvs⟩, hs⟩

theorem safe_pushResult {argc : Nat} {v : Value} (hv : v.Known linked.program.functions.size) :
    Safe linked (Here linked T hosted loc ⟨es, d⟩) (pushResult v)
      (fun _ => Here linked T hosted loc ⟨.prepared argc :: es, d⟩) := by
  rintro ⟨_, env, st, heap, ev⟩ ⟨rfl, hheap, base, own, rest, rfl, hframes, hholds, hscope⟩
  exact ⟨rfl, hheap, base, .nativeResult :: .value v :: own, rest, rfl, hframes, .result hv hholds,
    hscope⟩

/-! ## throwing -/

/-- a thrown value leads to a handler or ends the run, whatever is on the stack -/
theorem safe_throwValue {σ : Shape} {v : Value} (hv : v.Known linked.program.functions.size) :
    Safe linked (Here linked T hosted loc σ) (throwValue v) (fun _ => Sound linked T hosted) := by
  rintro ⟨_, env, st, heap, ev⟩ ⟨rfl, hheap, base, own, rest, rfl, hframes, hholds, hscope⟩
  rw [throwValue_eq]
  cases hunwind : (Stack.of (own ++ rest)).unwindThrow with
  | caught region st =>
    obtain ⟨_, base', es', d', own', rest', rfl, hat, hs, hown, hrest⟩ :=
      hframes.unwindThrow hholds hunwind
    exact hat.sound hv hheap hs hown hrest
  | reachedHost site callers st => exact ⟨rfl, hheap⟩
  | uncaught callers => exact ⟨rfl, hheap⟩

/-! ## the heap -/

theorem safe_onHeap {α : Type} {σ : Shape} {f : Heap → α × Heap} {Q : α → Prop}
    (hf : ∀ heap, HeapOk linked heap →
      HeapStep linked.program.functions.size heap (f heap).2 ∧ Q (f heap).1) :
    Safe linked (Here linked T hosted loc σ) (onHeap f)
      (fun a s => Q a ∧ Here linked T hosted loc σ s) := by
  intro s hs
  obtain ⟨hstep, hq⟩ := hf s.heap hs.heap
  exact ⟨hq, hs.step hstep s.events⟩

theorem safe_modifyHeap {σ : Shape} {f : Heap → Heap}
    (hf : ∀ heap, HeapStep linked.program.functions.size heap (f heap)) :
    Safe linked (Here linked T hosted loc σ) (modifyHeap f)
      (fun _ => Here linked T hosted loc σ) :=
  fun s hs => hs.step (hf s.heap) s.events

/-! ## calls -/

theorem safe_fromHost {σ : Shape} (htab : Tabled linked.program) (v : HostValue) :
    Safe linked (Here linked T hosted loc σ) (fromHost v)
      (fun v s => v.Known linked.program.functions.size ∧ Here linked T hosted loc σ s) :=
  safe_onHeap fun heap _ => fromHost_step linked.global htab.names v heap

/-- functions of the host give a result or a value to throw, and change nothing but the heap -/
theorem safe_callNative {σ : Shape} (htab : Tabled linked.program) (name : String)
    (args : List Value) :
    Safe linked (Here linked T hosted loc σ) (callNative name args)
      (fun r s => eitherKnown linked.program.functions.size r ∧ Here linked T hosted loc σ s) := by
  have hnote (event : Event) : Safe linked (Here linked T hosted loc σ) (note event)
      (fun _ => Here linked T hosted loc σ) :=
    fun s hs => hs.step .refl (event :: s.events)
  unfold callNative
  refine Safe.read ?_
  split
  · refine Safe.get fun s _ => ?_
    refine Safe.bind (hnote _) fun _ => ?_
    split
    · refine Safe.bind (safe_fromHost htab _) fun v => Safe.of_fact fun hv => ?_
      exact Safe.pure fun s hs => ⟨hv, hs⟩
    · refine Safe.bind (safe_fromHost htab _) fun v => Safe.of_fact fun hv => ?_
      exact Safe.pure fun s hs => ⟨hv, hs⟩
  · split
    · refine Safe.get fun s _ => ?_
      refine Safe.bind (hnote _) fun _ => ?_
      exact Safe.pure fun s hs => ⟨trivial, hs⟩
    · exact Safe.pure fun s hs => ⟨trivial, hs⟩

theorem step_callee (linked : Linked) (index : Nat) (entry : FunctionEntry) {args : List Value}
    (hargs : ∀ v ∈ args, v.Known linked.program.functions.size) (receiver : Option Value)
    (fromHost : Bool) (s : State) :
    HeapStep linked.program.functions.size s.heap
      (calleeState linked index entry args receiver fromHost s).heap := by
  have hnew : HeapStep linked.program.functions.size s.heap
      (s.heap.newScope (calleeParent linked receiver)).2 := .newEnv _ _
  exact hnew.trans (.bindParameters _ _ _ hargs)

/-- the scope of a function is new -/
theorem scopeAt_callee (linked : Linked) (index : Nat) (entry : FunctionEntry) {args : List Value}
    (hargs : ∀ v ∈ args, v.Known linked.program.functions.size) (receiver : Option Value)
    (fromHost : Bool) (s : State) :
    ScopeAt (calleeState linked index entry args receiver fromHost s).heap
      (calleeState linked index entry args receiver fromHost s).env 0
      (calleeState linked index entry args receiver fromHost s).env := by
  have hbind : HeapStep linked.program.functions.size
      (s.heap.newScope (calleeParent linked receiver)).2
      (calleeState linked index entry args receiver fromHost s).heap :=
    .bindParameters _ _ _ hargs
  refine ⟨rfl, Nat.lt_of_lt_of_le ?_ hbind.later.size⟩
  show s.heap.cells.size < _
  rw [Heap.newScope, Heap.size_newEnv]
  exact Nat.lt_succ_self _

/-- a function starts without anything on the stack, at depth zero -/
theorem sound_callee (hshape : WellShaped linked.program linked.labels T)
    (htab : Tabled linked.program) {index : Nat} {entry : FunctionEntry}
    (hentry : linked.program.functions[index]? = some entry) {args : List Value}
    (hargs : ∀ v ∈ args, v.Known linked.program.functions.size) {receiver : Option Value}
    {fromHost : Bool} {s : State} (hheap : HeapOk linked s.heap)
    (hframes : ∀ heap base, s.heap.Later heap →
      Frames linked.program T heap linked.global hosted (index + 1) base
        (.callSite ⟨s.location, s.env, index, fromHost⟩ :: s.stack.slots)) :
    Sound linked T hosted (calleeState linked index entry args receiver fromHost s) := by
  have hstep := step_callee linked index entry hargs receiver fromHost s
  have hscope := scopeAt_callee linked index entry hargs receiver fromHost s
  obtain ⟨hbody, hname⟩ := htab.functions index entry hentry
  obtain ⟨sec, hsec, -⟩ := Option.map_eq_some_iff.mp hname
  have hexists : (linked.program.instruction? (index + 1) 0).isSome :=
    hshape.first hsec
  have hloc : (calleeState linked index entry args receiver fromHost s).location
      = ⟨index + 1, 0⟩ := congrArg (Location.mk · 0) hbody
  refine ⟨by rw [hloc]; exact hexists, rfl, hheap.step hstep,
    (calleeState linked index entry args receiver fromHost s).env, [],
    .callSite ⟨s.location, s.env, index, fromHost⟩ :: s.stack.slots, Stack.ext_slots rfl, ?_, ?_, ?_⟩
  · rw [hloc]
    exact hframes _ _ hstep.later
  · rw [hloc, hshape.start]
    exact .nil
  · rw [hloc, hshape.start]
    exact hscope

/-- a function of the program starts; the caller goes on with its result -/
theorem safe_enterFunction (hshape : WellShaped linked.program linked.labels T)
    (htab : Tabled linked.program) (hfall : Falls linked T loc ⟨.value :: es, d⟩) {index : Nat}
    (hindex : index < linked.program.functions.size) {args : List Value}
    (hargs : ∀ v ∈ args, v.Known linked.program.functions.size) (receiver : Option Value) :
    Safe linked (Here linked T hosted loc ⟨es, d⟩) (enterFunction index args receiver false)
      (fun _ => Sound linked T hosted) := by
  rintro ⟨_, env, st, heap, ev⟩ ⟨rfl, hheap, base, own, rest, rfl, hframes, hholds, hscope⟩
  have hentry := Array.getElem?_eq_getElem hindex
  rw [enterFunction_eq hentry]
  refine sound_callee hshape htab hentry hargs hheap fun heap' base' hl => ?_
  exact .call (Nat.succ_ne_zero _) rfl ⟨rfl, hfall.exists_, hfall.shape⟩ (hscope.later hl)
    (hholds.later hl) (hframes.later hl)

theorem safe_pushCallee {argc : Nat} {v : Value} (hv : v.Known linked.program.functions.size) :
    Safe linked (Here linked T hosted loc ⟨values argc ++ es, d⟩) (push v)
      (fun _ => Here linked T hosted loc ⟨.prepared argc :: es, d⟩) := by
  rintro ⟨_, env, st, heap, ev⟩ ⟨rfl, hheap, base, own, rest, rfl, hframes, hholds, hscope⟩
  obtain ⟨vs, below, rfl, rfl, hvs, hbelow⟩ := hholds.take_values
  exact ⟨rfl, hheap, base, _, rest, rfl, hframes, .callee hv hvs hbelow, hscope⟩

/-- a result that is there goes onto the stack in one of two ways, a thrown value to a handler -/
theorem safe_either {τ : Shape} {found : Value → Exec Unit} (hfall : Falls linked T loc τ)
    (hfound : ∀ v, v.Known linked.program.functions.size →
      Safe linked (Here linked T hosted loc ⟨es, d⟩) (found v)
        (fun _ => Here linked T hosted loc τ)) (r : Except Value Value) :
    eitherKnown linked.program.functions.size r →
      Safe linked (Here linked T hosted loc ⟨es, d⟩)
        (match r with
          | .ok result => found result
          | .error thrown => throwValue thrown)
        (fun _ => Sound linked T hosted) := by
  intro hr
  cases r with
  | ok v => exact (hfound v hr).falls hfall
  | error v => exact safe_throwValue hr

theorem safe_fetchMethod {argc : Nat} (hfall : Falls linked T loc ⟨.prepared argc :: es, d⟩)
    (target : Value) (name : String) :
    Safe linked (Here linked T hosted loc ⟨values argc ++ es, d⟩) (fetchMethod target name argc)
      (fun _ => Sound linked T hosted) := by
  unfold fetchMethod
  refine Safe.get fun s hs => ?_
  have hknown := known_method hs.heap.known target name
  cases hmethod : s.heap.method target name with
  | callee v =>
    rw [hmethod] at hknown
    exact (safe_pushCallee hknown).falls hfall
  | missing thrown =>
    rw [hmethod] at hknown
    exact safe_throwValue hknown
  | refusing thrown =>
    rw [hmethod] at hknown
    exact Safe.bind (safe_popValues argc) fun _ => Safe.of_fact fun _ => safe_throwValue hknown
  | immediate run =>
    rw [hmethod] at hknown
    refine Safe.bind (safe_popValues argc) fun args => Safe.of_fact fun hargs => ?_
    refine Safe.bind (safe_onHeap fun heap hheap => hknown args hargs heap hheap.known) fun r => ?_
    exact Safe.of_fact (safe_either hfall (fun v hv => safe_pushResult hv) r)

/-- what is prepared for a call: a callee with its arguments, or the result -/
theorem safe_popReady {argc : Nat} {es' : List Entry} (h : Ready argc es es') :
    Safe linked (Here linked T hosted loc ⟨es, d⟩) popSlot
      (fun slot s =>
        (∃ v, slot = .value v ∧ v.Known linked.program.functions.size
          ∧ Here linked T hosted loc ⟨values argc ++ es', d⟩ s)
        ∨ (slot = .nativeResult ∧ Here linked T hosted loc ⟨.value :: es', d⟩ s)) := by
  rintro ⟨_, env, st, heap, ev⟩ ⟨rfl, hheap, base, own, rest, rfl, hframes, hholds, hscope⟩
  cases h with
  | value es' =>
    cases hholds with
    | value hv hholds =>
      exact .inl ⟨_, rfl, hv, rfl, hheap, base, _, rest, rfl, hframes, hholds, hscope⟩
  | prepared es' =>
    cases hholds with
    | callee hv hvs hholds =>
      refine .inl ⟨_, rfl, hv, rfl, hheap, base, _, rest, ?_, hframes, hholds.ofValues hvs, hscope⟩
      rfl
    | result hv hholds =>
      exact .inr ⟨rfl, rfl, hheap, base, _, rest, rfl, hframes, .value hv hholds, hscope⟩

section
variable (hshape : WellShaped linked.program linked.labels T) (htab : Tabled linked.program)

include hshape htab

theorem safe_callFunction {argc index : Nat} (bound : Bool)
    (hfall : Falls linked T loc ⟨.value :: es, d⟩) (hindex : index < linked.program.functions.size) :
    Safe linked (Here linked T hosted loc ⟨values argc ++ (values (if bound then 1 else 0) ++ es), d⟩)
      (do
        let args ← popValues argc
        let receiver ← if bound then some <$> pop else pure none
        enterFunction index args receiver false)
      (fun _ => Sound linked T hosted) := by
  refine Safe.bind (safe_popValues argc) fun args => Safe.of_fact fun hargs => ?_
  have henter (receiver : Option Value) : Safe linked (Here linked T hosted loc ⟨es, d⟩)
      (enterFunction index args receiver false) (fun _ => Sound linked T hosted) :=
    safe_enterFunction hshape htab hfall hindex hargs receiver
  cases bound with
  | false => exact henter none
  | true =>
    refine Safe.bind (Safe.map some safe_pop) fun receiver => ?_
    rintro s ⟨v, rfl, -, hs⟩
    exact henter (some v) s hs

theorem safe_callValue {argc : Nat} {bound : Bool} {es' : List Entry}
    (h : Ready argc es (values (if bound then 1 else 0) ++ es'))
    (hfall : Falls linked T loc ⟨.value :: es', d⟩) :
    Safe linked (Here linked T hosted loc ⟨es, d⟩) (callValue argc bound)
      (fun _ => Sound linked T hosted) := by
  unfold callValue
  refine Safe.bind (safe_popReady h) fun slot => ?_
  rintro s (⟨v, rfl, hv, hs⟩ | ⟨rfl, hs⟩)
  · revert s
    show Safe linked _ _ _
    cases v with
    | function index => exact safe_callFunction hshape htab bound hfall hv
    | native name =>
      refine Safe.bind (safe_popValues argc) fun args => Safe.of_fact fun _ => ?_
      have hcall : Safe linked (Here linked T hosted loc ⟨es', d⟩) (do
          match ← callNative name args with
          | .ok result => push result
          | .error thrown => throwValue thrown) (fun _ => Sound linked T hosted) := by
        refine Safe.bind (safe_callNative htab name args) fun r => ?_
        exact Safe.of_fact (safe_either hfall (fun v hv => safe_push hv) r)
      cases bound with
      | false => exact hcall
      | true => exact Safe.bind safe_pop fun _ => Safe.of_fact fun _ => hcall
    | _ => exact Safe.get fun s _ => safe_throwValue trivial
  · revert s
    show Safe linked _ _ _
    cases bound with
    | false => exact Safe.falls hfall (Safe.pure fun s hs => hs)
    | true =>
      refine Safe.bind safe_pop fun result => Safe.of_fact fun hresult => ?_
      refine Safe.bind safe_pop fun _ => Safe.of_fact fun _ => ?_
      exact (safe_push hresult).falls hfall

/-! ## names, loops and objects -/

omit hshape

theorem known_lookupScript {s : State} (hheap : HeapOk linked s.heap) {name : String} {v : Value}
    (hv : lookupScript? linked s name = some v) : v.Known linked.program.functions.size := by
  unfold lookupScript? at hv
  split at hv
  · cases hv
    cases s.heap.thisObject? s.env <;> trivial
  · rcases Option.or_eq_some_iff.mp hv with hv | ⟨-, hv⟩
    · exact hheap.known.lookup hv
    · obtain ⟨i, hi, rfl⟩ := Option.map_eq_some_iff.mp hv
      exact functionIndex?_lt htab.names hi

theorem safe_fetchVariable (name : String) (hfall : Falls linked T loc ⟨.value :: es, d⟩) :
    Safe linked (Here linked T hosted loc ⟨es, d⟩) (fetch name .variable)
      (fun _ => Sound linked T hosted) := by
  refine Safe.read (Safe.get fun s hs => ?_)
  cases hv : lookupScript? linked s name with
  | some v => exact (safe_push (known_lookupScript htab hs.heap hv)).falls hfall
  | none =>
    refine Safe.falls hfall (safe_push ?_)
    split <;> trivial

theorem safe_fetchCallee (name : String) {argc : Nat}
    (hfall : Falls linked T loc ⟨.prepared argc :: es, d⟩) :
    Safe linked (Here linked T hosted loc ⟨values argc ++ es, d⟩) (fetch name (.callVariable argc))
      (fun _ => Sound linked T hosted) := by
  refine Safe.read (Safe.get fun s hs => ?_)
  cases hv : lookupScript? linked s name with
  | some v => exact (safe_pushCallee (known_lookupScript htab hs.heap hv)).falls hfall
  | none =>
    dsimp only
    split
    · refine Safe.bind (safe_popValues argc) fun args => Safe.of_fact fun _ => ?_
      refine Safe.bind (safe_callNative htab name args) fun r => ?_
      exact Safe.of_fact (safe_either hfall (fun v hv => safe_pushResult hv) r)
    · exact safe_throwValue trivial

theorem safe_createObject (name : String) (hfall : Falls linked T loc ⟨.value :: es, d⟩) :
    Safe linked (Here linked T hosted loc ⟨es, d⟩) (createObject name)
      (fun _ => Sound linked T hosted) := by
  refine Safe.read ?_
  cases hclass : linked.program.class? name with
  | none => exact safe_throwValue trivial
  | some entry =>
    have hmethods := htab.classes entry (List.mem_of_find?_eq_some hclass)
    have hnew : Safe linked (Here linked T hosted loc ⟨es, d⟩) (onHeap (·.newObject linked.global))
        (fun _ s => True ∧ Here linked T hosted loc ⟨es, d⟩ s) :=
      safe_onHeap fun heap _ => ⟨.newEnv _ _, trivial⟩
    refine Safe.bind hnew fun env => Safe.of_fact fun _ => ?_
    refine Safe.bind (safe_modifyHeap fun heap => .defineMethods _ _ hmethods.2) fun _ => ?_
    exact Safe.falls hfall (safe_push trivial)

omit htab

theorem safe_fetchProperty (name : String) (hfall : Falls linked T loc ⟨.value :: es, d⟩) :
    Safe linked (Here linked T hosted loc ⟨.value :: es, d⟩) (fetch name .property)
      (fun _ => Sound linked T hosted) := by
  refine Safe.read (Safe.bind safe_pop fun target => Safe.of_fact fun _ => ?_)
  refine Safe.get fun s hs => ?_
  have hknown : eitherKnown linked.program.functions.size (s.heap.getProperty target name) := by
    cases hv : s.heap.getProperty target name with
    | ok v => exact known_getProperty hs.heap.known hv
    | error v =>
      unfold Heap.getProperty at hv
      split at hv <;> cases hv <;> trivial
  exact safe_either hfall (fun v hv => safe_push hv) _ hknown

theorem safe_storeVariable (name : String) {v : Value} {σ : Shape}
    (hv : v.Known linked.program.functions.size) :
    Safe linked (Here linked T hosted loc σ) (storeVariable name v)
      (fun _ => Here linked T hosted loc σ) := by
  intro s hs
  exact hs.step (.define _ _ hv) s.events

theorem safe_storeProperty (name : String) (hfall : Falls linked T loc ⟨.value :: es, d⟩) :
    Safe linked (Here linked T hosted loc ⟨.value :: .value :: es, d⟩) (storeProperty name)
      (fun _ => Sound linked T hosted) := by
  refine Safe.bind safe_pop fun v => Safe.of_fact fun hv => ?_
  refine Safe.bind safe_pop fun target => Safe.of_fact fun _ => ?_
  cases target with
  | object env =>
    refine Safe.bind (safe_modifyHeap fun heap => .define _ _ hv) fun _ => ?_
    exact (safe_push hv).falls hfall
  | _ => exact safe_throwValue trivial

theorem safe_resolve {σ ρ : Shape} {i : Nat} {l : Label}
    (h : Lands linked.program linked.labels T i l ρ) :
    Safe linked (Here linked T hosted loc σ) (resolve l)
      (fun at_ s => Stands linked.program T i at_ ρ ∧ Here linked T hosted loc σ s) := by
  obtain ⟨pc, hresolve, hexists, hshape⟩ := h
  intro s hs
  rw [resolve_some hresolve]
  exact ⟨⟨rfl, hexists, hshape⟩, hs⟩

theorem safe_jump {σ : Shape} {l : Label}
    (h : Lands linked.program linked.labels T loc.sectionIndex l σ) :
    Safe linked (Here linked T hosted loc σ) (jump l) (fun _ => Sound linked T hosted) := by
  refine Safe.bind (safe_resolve h) fun at_ => Safe.of_fact fun hat => ?_
  rintro ⟨_, env, st, heap, ev⟩ ⟨rfl, hheap, base, own, rest, rfl, hframes, hholds, hscope⟩
  obtain ⟨hi, hexists, rfl⟩ := hat
  rw [← hi] at hexists hframes hholds
  exact ⟨hexists, rfl, hheap, base, own, rest, rfl, hframes, hholds, hscope⟩

/-- the innermost loop of the function is on the stack, and its environment is where it starts -/
theorem safe_loopExit {l : Label} {inner : List Entry} {d' : Nat}
    (hin : ∀ e ∈ inner, e.isLoop = false)
    (h : Lands linked.program linked.labels T loc.sectionIndex l ⟨.loop d' :: es, d'⟩) :
    Safe linked (Here linked T hosted loc ⟨inner ++ .loop d' :: es, d⟩) (loopExit (some l))
      (fun _ => Sound linked T hosted) := by
  rintro ⟨_, env, st, heap, ev⟩ ⟨rfl, hheap, base, own, rest, rfl, hframes, hholds, hscope⟩
  obtain ⟨dropped, kept, rfl, hnone, hkept⟩ := hholds.drop hin
  cases hkept with
  | @loop _ env' _ below hloop hbelow =>
    have hunwind : (Stack.of ((dropped ++ .loopMarker env' :: below) ++ rest)).unwind loopMarker?
        = some (some env', .of (below ++ rest)) := by
      rw [List.append_assoc]
      exact Stack.unwind_append loopMarker? dropped _ _ hnone rfl
    rw [loopExit_result, hunwind]
    refine safe_jump h _ ⟨rfl, hheap, base, .loopMarker env' :: below, rest, rfl, hframes, ?_, hloop⟩
    exact .loop hloop hbelow

/-! ## instructions -/

/-- What an instruction leaves behind.  Only the main code halts, and only a function that the host
called returns to it. -/
def After (linked : Linked) (T : Location → Shape) (hosted : Bool) (signal : Signal) (s : State) :
    Prop :=
  match signal with
  | .proceed | .pause => Sound linked T hosted s
  | .halt => hosted = false ∧ HeapOk linked s.heap ∧ s.stack.slots = []
  | .hostReturn => hosted = true ∧ HeapOk linked s.heap ∧ ∃ v, s.stack.slots = [.value v]

/-- A value returns to the caller, whose frame has the shape that it needs then, or to the host. -/
theorem safe_returnFromCall (hi : loc.sectionIndex ≠ 0) :
    Safe linked (Here linked T hosted loc ⟨.value :: es, d⟩) returnFromCall
      (fun toHost => After linked T hosted (if toHost then .hostReturn else .proceed)) := by
  refine Safe.bind safe_pop fun v => Safe.of_fact fun hv => ?_
  rintro ⟨_, env, st, heap, ev⟩ ⟨rfl, hheap, base, own, rest, rfl, hframes, hholds, hscope⟩
  obtain ⟨site, below, rfl, hcases⟩ := hframes.site hi
  have hunwind : (Stack.of (own ++ .callSite site :: below)).unwind callSite?
      = some (site, .of below) :=
    Stack.unwind_append callSite? own _ _ hholds.noSite rfl
  rw [get_bind]
  dsimp only
  rw [hunwind]
  rcases hcases with ⟨hsite, hhosted, rfl⟩ | ⟨hsite, i', base', es', d', own', rest', rfl, hat, hs,
    hown, hrest⟩
  · show After linked T hosted (if site.fromHost then .hostReturn else .proceed) _
    rw [if_pos hsite]
    exact ⟨hhosted, hheap, v, rfl⟩
  · show After linked T hosted (if site.fromHost then .hostReturn else .proceed) _
    rw [if_neg (by rw [hsite]; exact Bool.false_ne_true)]
    exact hat.sound hv hheap hs hown hrest

theorem known_of_isPlain {v : Value} {n : Nat} (h : v.isPlain) : v.Known n := by
  cases v with
  | function _ => cases h
  | _ => trivial

theorem safe_pick {n : Nat} (hfall : Falls linked T loc ⟨.value :: values n ++ .value :: es, d⟩) :
    Safe linked (Here linked T hosted loc ⟨values n ++ .value :: es, d⟩) (perform (.pick n))
      (fun _ => Sound linked T hosted) := by
  rintro ⟨_, env, st, heap, ev⟩ ⟨rfl, hheap, base, own, rest, rfl, hframes, hholds, hscope⟩
  obtain ⟨vs, below, rfl, rfl, hvs, hbelow⟩ := hholds.take_values
  cases hbelow with
  | @value _ below v hv hbelow =>
    have hpick : (Stack.of ((vs.map .value ++ .value v :: below) ++ rest)).pick? vs.length = some v := by
      unfold Stack.pick?
      rw [Stack.slots_of, List.append_assoc, List.getElem?_append_right (by simp), List.length_map,
        Nat.sub_self]
      rfl
    rw [pick_some hpick]
    refine Safe.falls hfall (safe_push hv) _ ⟨rfl, hheap, base, _, rest, rfl, hframes, ?_, hscope⟩
    exact (Holds.value hv hbelow).ofValues hvs

/-! ## scopes, loops and regions -/

theorem safe_enterScope (hfall : Falls linked T loc ⟨es, d + 1⟩) :
    Safe linked (Here linked T hosted loc ⟨es, d⟩) (perform .enterScope)
      (fun _ => Sound linked T hosted) := by
  rintro ⟨_, env, st, heap, ev⟩ ⟨rfl, hheap, base, own, rest, rfl, hframes, hholds, hscope⟩
  have hstep : HeapStep linked.program.functions.size heap (heap.newScope env).2 := .newEnv _ _
  have hlater := hstep.later
  exact hfall.sound ⟨rfl, hheap.step hstep, base, own, rest, rfl, hframes.later hlater,
    hholds.later hlater, hscope.enter⟩

theorem safe_leaveScope (hfall : Falls linked T loc ⟨es, d⟩) :
    Safe linked (Here linked T hosted loc ⟨es, d + 1⟩) (perform .leaveScope)
      (fun _ => Sound linked T hosted) := by
  rintro ⟨_, env, st, heap, ev⟩ ⟨rfl, hheap, base, own, rest, rfl, hframes, hholds, hscope⟩
  obtain ⟨parent, hparent, hscope⟩ := hscope
  rw [leaveScope_some hparent]
  exact hfall.sound ⟨rfl, hheap, base, own, rest, rfl, hframes, hholds, hscope⟩

theorem safe_loopStart (hfall : Falls linked T loc ⟨.loop d :: es, d⟩) :
    Safe linked (Here linked T hosted loc ⟨es, d⟩) (perform .loopStart)
      (fun _ => Sound linked T hosted) := by
  rintro ⟨_, env, st, heap, ev⟩ ⟨rfl, hheap, base, own, rest, rfl, hframes, hholds, hscope⟩
  exact hfall.sound ⟨rfl, hheap, base, .loopMarker env :: own, rest, rfl, hframes,
    .loop hscope hholds, hscope⟩

theorem safe_loopEnd {d' : Nat} (hfall : Falls linked T loc ⟨es, d⟩) :
    Safe linked (Here linked T hosted loc ⟨.loop d' :: es, d⟩) (perform .loopEnd)
      (fun _ => Sound linked T hosted) := by
  rintro ⟨_, env, st, heap, ev⟩ ⟨rfl, hheap, base, own, rest, rfl, hframes, hholds, hscope⟩
  cases hholds with
  | loop _ hholds =>
    exact hfall.sound ⟨rfl, hheap, base, _, rest, rfl, hframes, hholds, hscope⟩

theorem safe_enterTry {l : Label}
    (h : Lands linked.program linked.labels T loc.sectionIndex l ⟨.value :: es, d⟩)
    (hfall : Falls linked T loc ⟨.guard d :: es, d⟩) :
    Safe linked (Here linked T hosted loc ⟨es, d⟩) (perform (.enterTry l))
      (fun _ => Sound linked T hosted) := by
  refine Safe.bind (safe_resolve h) fun handler => Safe.of_fact fun hat => ?_
  rintro ⟨_, env, st, heap, ev⟩ ⟨rfl, hheap, base, own, rest, rfl, hframes, hholds, hscope⟩
  exact hfall.sound ⟨rfl, hheap, base, .tryRegion ⟨handler, env⟩ :: own, rest, rfl, hframes,
    .guard hat hscope hholds, hscope⟩

theorem safe_leaveTry {d' : Nat} (hfall : Falls linked T loc ⟨es, d⟩) :
    Safe linked (Here linked T hosted loc ⟨.guard d' :: es, d⟩) (perform .leaveTry)
      (fun _ => Sound linked T hosted) := by
  rintro ⟨_, env, st, heap, ev⟩ ⟨rfl, hheap, base, own, rest, rfl, hframes, hholds, hscope⟩
  cases hholds with
  | guard _ _ hholds =>
    exact hfall.sound ⟨rfl, hheap, base, _, rest, rfl, hframes, hholds, hscope⟩

theorem safe_makeArray {n : Nat} (hfall : Falls linked T loc ⟨.value :: es, d⟩) :
    Safe linked (Here linked T hosted loc ⟨values n ++ es, d⟩) (perform (.makeArray n))
      (fun _ => Sound linked T hosted) := by
  refine Safe.bind (safe_popValues n) fun items => Safe.of_fact fun hitems => ?_
  have hnew : Safe linked (Here linked T hosted loc ⟨es, d⟩) (onHeap (·.newArray items.toArray))
      (fun _ s => True ∧ Here linked T hosted loc ⟨es, d⟩ s) :=
    safe_onHeap fun heap _ => ⟨.newArray fun v hv => hitems v (List.mem_toArray.mp hv), trivial⟩
  refine Safe.bind hnew fun id => Safe.of_fact fun _ => ?_
  exact Safe.falls hfall (safe_push trivial)

/-- An instruction that is typed by the shapes before and behind it leads to a sound state. -/
theorem safe_perform (hshape : WellShaped linked.program linked.labels T)
    (htab : Tabled linked.program) {op : Op} {σ τ : Shape}
    (hop : OpTyped ⟨linked.program.constants.size, loc.sectionIndex != 0⟩
      (Lands linked.program linked.labels T loc.sectionIndex) op σ τ)
    (hret : op ≠ .ret) (hhalt : op ≠ .halt) (hfall : Falls linked T loc τ) :
    Safe linked (Here linked T hosted loc σ) (perform op) (fun _ => Sound linked T hosted) := by
  have hskip : Safe linked (Here linked T hosted loc τ) (Pure.pure ()) (fun _ => Sound linked T hosted) :=
    Safe.pure fun s hs => hfall.sound hs
  cases hop with
  | nop | label | debugger => exact hskip
  | ret _ => exact absurd rfl hret
  | halt _ => exact absurd rfl hhalt
  | @const index _ _ h =>
    have hget := Array.getElem?_eq_getElem h
    have hmem := Array.mem_toList_iff.mpr (Array.mem_of_getElem? hget)
    intro s hs
    rw [const_some hget]
    exact Safe.falls hfall (safe_push (known_of_isPlain (htab.constants _ hmem))) s hs
  | pop => exact Safe.falls hfall (Safe.bind safe_pop fun _ => Safe.of_fact fun _ => Safe.pure fun s hs => hs)
  | dup => exact Safe.falls hfall (Safe.bind safe_peek fun _ => Safe.of_fact fun hv => safe_push hv)
  | pick => exact safe_pick hfall
  | binary =>
    refine Safe.bind safe_pop fun b => Safe.of_fact fun _ => ?_
    refine Safe.bind safe_pop fun a => Safe.of_fact fun _ => ?_
    refine Safe.get fun s _ => ?_
    exact Safe.falls hfall (safe_push (known_applyBinary _ _ _))
  | neg => exact Safe.falls hfall (Safe.bind safe_pop fun _ => Safe.of_fact fun _ => safe_push trivial)
  | not => exact Safe.falls hfall (Safe.bind safe_pop fun _ => Safe.of_fact fun _ => safe_push trivial)
  | jump h => exact safe_jump h
  | jumpFalse h =>
    refine Safe.bind safe_pop fun v => Safe.of_fact fun _ => ?_
    split
    · exact safe_jump h
    · exact hskip
  | jumpTrue h =>
    refine Safe.bind safe_pop fun v => Safe.of_fact fun _ => ?_
    split
    · exact safe_jump h
    · exact hskip
  | enterScope => exact safe_enterScope hfall
  | leaveScope _ => exact safe_leaveScope hfall
  | declare =>
    refine Safe.get fun s _ => ?_
    exact Safe.falls hfall (safe_modifyHeap fun heap => .define _ _ trivial)
  | storeVariable =>
    refine Safe.bind safe_peek fun v => Safe.of_fact fun hv => ?_
    exact Safe.falls hfall (safe_storeVariable _ hv)
  | storeProperty => exact safe_storeProperty _ hfall
  | fetchVariable => exact safe_fetchVariable htab _ hfall
  | fetchProperty => exact safe_fetchProperty _ hfall
  | fetchCallee => exact safe_fetchCallee htab _ hfall
  | fetchMethod =>
    refine Safe.read (Safe.bind safe_pop fun target => Safe.of_fact fun _ => ?_)
    exact safe_fetchMethod hfall target _
  | call h => exact safe_callValue hshape htab h hfall
  | loopStart => exact safe_loopStart hfall
  | loopEnd => exact safe_loopEnd hfall
  | loopExit hin h => exact safe_loopExit hin h
  | enterTry h => exact safe_enterTry h hfall
  | leaveTry => exact safe_leaveTry hfall
  | throw => exact Safe.bind safe_pop fun v => Safe.of_fact fun hv => safe_throwValue hv
  | createObject => exact safe_createObject htab _ hfall
  | makeArray => exact safe_makeArray hfall

theorem safe_dispatch (hshape : WellShaped linked.program linked.labels T)
    (htab : Tabled linked.program) {i pc : Nat} {ins : Instruction}
    (hins : linked.program.instruction? i pc = some ins) :
    Safe linked (Here linked T hosted ⟨i, pc + 1⟩ (T ⟨i, pc⟩)) (dispatch ins.op)
      (After linked T hosted) := by
  have hop := hshape.typed i pc ins hins
  have hgo : ins.op ≠ .ret → ins.op ≠ .halt →
      Safe linked (Here linked T hosted ⟨i, pc + 1⟩ (T ⟨i, pc⟩)) (perform ins.op)
        (fun _ => Sound linked T hosted) := by
    intro hret hhalt
    exact safe_perform hshape htab hop hret hhalt ⟨hshape.next hins hret hhalt, rfl⟩
  generalize ins.op = op at hop hgo
  cases op with
  | ret =>
    generalize T ⟨i, pc⟩ = σ at hop
    cases hop with
    | ret hi =>
      refine Safe.bind (safe_returnFromCall (bne_iff_ne.mp hi)) fun toHost => ?_
      exact Safe.pure fun s hs => hs
  | debugger => exact fun s hs => hgo nofun nofun s hs
  | halt =>
    generalize T ⟨i, pc⟩ = σ at hop
    cases hop with
    | halt hi =>
      obtain rfl : i = 0 := bne_eq_false_iff_eq.mp hi
      rintro ⟨_, env, st, heap, ev⟩ ⟨rfl, hheap, base, own, rest, rfl, hframes, hholds, hscope⟩
      obtain ⟨hhosted, rfl⟩ := hframes.main_eq
      cases hholds
      exact ⟨hhosted, hheap, rfl⟩
  | _ => exact Safe.bind (hgo nofun nofun) fun _ => Safe.pure fun s hs => hs

/-- the next instruction of a sound state -/
theorem safe_execute (hshape : WellShaped linked.program linked.labels T)
    (htab : Tabled linked.program) {s : State} (hs : Sound linked T hosted s) {ins : Instruction}
    (hins : linked.program.instruction? s.location.sectionIndex s.location.pc = some ins) :
    Ends linked (After linked T hosted) (execute linked ins.op s) := by
  obtain ⟨⟨i, pc⟩, env, st, heap, ev⟩ := s
  obtain ⟨-, hheap, base, own, rest, hst, hframes, hholds, hscope⟩ := hs.here
  exact safe_dispatch hshape htab hins _
    ⟨rfl, hheap, base, own, rest, hst, hframes, hholds, hscope⟩

end

end Exec

end

end ScriptMachine
