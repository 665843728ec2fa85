import ScriptMachine.Proofs.Machine.Lodging

/-!
# Frames from one instruction to the next

The frames of a state come from what was called.  A call of a function of the program adds a frame, with
the object that it is called on; an instruction that takes call sites from the stack leaves their frames;
all others leave the frames as they are.

* `State.calls`         the number of calls of the script that are not over;
* `framesAfter`         the frames behind an instruction;
* `blocksAfter`         the block scopes that there are behind it;
* `lives_loopExit`, `lives_ret`, `settled_call`   the instructions that change the frame;
* `settled_execute`     one instruction.
-/

namespace ScriptMachine

/-- from one state -/
theorem Leads.here {α : Type} {linked : Linked} {P : State → Prop} {Q Q' : α → State → Prop}
    {E : RuntimeError → State → Prop} {x : Exec α} {s : State} (hx : Leads linked P x Q E) (hs : P s)
    (h : ∀ a s, Q a s → Q' a s) : Leads linked (· = s) x Q' E :=
  since (fun _ heq => heq ▸ hs) (hx.weaken h)

/-! ## the trail -/

/-- a call by the script -/
def Slot.isCall : Slot → Bool
  | .callSite site => !site.fromHost
  | _ => false

/-- the environment of an object -/
def Value.object? : Value → Option EnvId
  | .object env => some env
  | _ => none

/-- the number of calls of the script that are not over -/
def State.calls (s : State) : Nat := s.stack.slots.countP Slot.isCall

/-- the object that a function is called on, below the callee and the arguments -/
def Op.receiver? (op : Op) (s : State) : Option EnvId :=
  match op with
  | .call argc true =>
    match s.stack.slots[argc + 1]? with
    | some (.value v) => v.object?
    | _ => none
  | _ => none

/-- The frames behind an instruction, the running one first.  A call puts a new one before the others,
and those of calls that are over are left. -/
def framesAfter (op : Op) (s s' : State) (frames : List Frame) : List Frame :=
  if s.calls < s'.calls then .call s'.env (op.receiver? s) :: frames
  else frames.drop (s.calls - s'.calls)

/-- the block scopes of a run behind an instruction, the latest first -/
def blocksAfter (op : Op) (s' : State) (blocks : List EnvId) : List EnvId :=
  match op with
  | .enterScope => s'.env :: blocks
  | _ => blocks

section
variable {linked : Linked} {T : Location → Shape} {blocks : List EnvId} {frames : List Frame}
  {s s' : State}

theorem Lodged.length {global : EnvId} {h : Heap} {slots : List Slot}
    (hl : Lodged T global blocks h frames slots) : frames.length = slots.countP Slot.isCall + 1 := by
  induction hl with
  | main => rfl
  | host hsite _ =>
    rw [List.countP_cons_of_neg (by rw [Slot.isCall, hsite]; exact Bool.false_ne_true)]
    rfl
  | @own _ _ _ slot hslot _ ih =>
    rw [List.countP_cons_of_neg, ih]
    cases slot with
    | callSite _ => exact hslot.elim
    | _ => exact Bool.false_ne_true
  | call hsite _ _ _ _ ih =>
    rw [List.countP_cons_of_pos (by rw [Slot.isCall, hsite]; rfl), List.length_cons, ih]

/-- there is a frame for every call, and one more -/
theorem Settled.length (h : Settled linked T blocks frames s) : frames.length = s.calls + 1 := by
  obtain ⟨f, fs, rfl, h⟩ := h
  exact h.lodged.length

/-- the frames that remain are as many as the calls -/
theorem Remains.after (op : Op) (h : Remains linked T blocks frames s')
    (hs : frames.length = s.calls + 1) : Settled linked T blocks (framesAfter op s s' frames) s' := by
  obtain ⟨k, h⟩ := h
  have hlength := h.length
  rw [List.length_drop] at hlength
  obtain rfl : k = s.calls - s'.calls := by omega
  rw [framesAfter, if_neg (by omega)]
  exact h

/-! ## instructions that change the frame or its scopes -/

/-- a thrown value and a jump go on with what is below some entries of the frame -/
theorem Lives.below {f : Frame} {fs : List Frame} {loc : Location} {d : Nat} {hands : List Value}
    (h : Lives linked T blocks f fs loc d hands s) {taken slots : List Slot}
    (hslots : s.stack.slots = taken ++ slots) (htaken : ∀ slot ∈ taken, slot.isOwn = true) :
    Lives linked T blocks f fs loc d hands { s with stack := .of slots } where
  location := h.location
  nested := h.nested
  lodged := by
    refine Slot.drop_own (fun slot slots hslot hl => hl.tail ?_) htaken (hslots ▸ h.lodged)
    exact Slot.ne_callSite hslot
  enclosed := by
    refine Slot.drop_own (fun slot slots hslot hl => hl.tail ?_) htaken (hslots ▸ h.enclosed)
    exact Slot.ne_callSite hslot
  scopes := h.scopes
  sane := h.sane
  stacked v hv := h.stacked v (hslots ▸ List.mem_append_right _ hv)
  held := h.held

namespace Exec

/-- the environment of the innermost loop is as deep as the place behind it needs -/
theorem lives_loopExit {hosted : Bool} {f : Frame} {fs : List Frame} {loc : Location} {i d d' : Nat}
    {l : Label} {inner es : List Entry} (hin : ∀ e ∈ inner, e.isLoop = false)
    (hland : Lands linked.program linked.labels T i l ⟨.loop d' :: es, d'⟩) :
    Leads linked
      (fun s => Here linked T hosted loc ⟨inner ++ .loop d' :: es, d⟩ s
        ∧ Lives linked T blocks f fs loc d [] s)
      (loopExit (some l)) (fun _ => Remains linked T blocks (f :: fs)) (FailsSane linked) := by
  rintro s ⟨⟨-, -, base, own, rest, hst, -, hholds, hscope⟩, h⟩
  obtain ⟨dropped, kept, rfl, hnone, hkept⟩ := hholds.drop hin
  cases hkept with
  | @loop _ env' _ below hloop hbelow =>
    have hslots : s.stack.slots = dropped ++ .loopMarker env' :: (below ++ rest) := by
      rw [hst, Stack.slots_of, List.append_assoc]
      rfl
    have hunwind : s.stack.unwind loopMarker? = some (some env', .of (below ++ rest)) := by
      rw [s.stack.eq_of, hslots]
      exact Stack.unwind_append loopMarker? dropped _ _ hnone rfl
    have hkept := h.below hslots fun slot hslot => by
      have hnone := hnone slot hslot
      cases slot with
      | callSite _ => cases hnone
      | _ => rfl
    cases hkept.lodged with
    | own hsaves _ =>
      -- a marker does not say how deep its environment is; the place behind the loop does
      obtain ⟨d'', hn⟩ := hsaves
      obtain rfl := h.nested.base_eq hscope
      obtain rfl := hn.depth_eq hloop
      have hlives : Lives linked T blocks f fs loc d'' []
          { s with env := env', stack := .of (.loopMarker env' :: (below ++ rest)) } :=
        { hkept with nested := hn, enclosed := ⟨Heap.mem_chain_self _ env', hkept.enclosed.2⟩ }
      rw [loopExit_result, hunwind]
      exact lives_jump hland _ hlives

/-- a value returns to the frame that has called the function, or to the host -/
theorem lives_ret {f : Frame} {fs : List Frame} {loc : Location} {d : Nat} {hands : List Value} :
    Leads linked (Lives linked T blocks f fs loc d hands) returnFromCall
      (fun toHost s => Sane linked s.heap ∧ (toHost = false → Remains linked T blocks (f :: fs) s))
      (FailsSane linked) := by
  intro s h
  rw [returnFromCall_eq]
  cases hpop : pop linked s with
  | error e s' => exact lives_pop.error h hpop
  | ok v s' =>
    have hlives := lives_pop.ok h hpop
    dsimp only
    cases hunwind : s'.stack.unwind callSite? with
    | none => exact hlives.sane
    | some found =>
      obtain ⟨site, ⟨below, depth, hdepth⟩⟩ := found
      obtain ⟨dropped, slot, hslots, hslot, -⟩ := Stack.unwind_split hunwind
      obtain rfl : slot = .callSite site := by
        cases slot <;> cases hslot
        rfl
      have hsuffix : .callSite site :: below <:+ s'.stack.slots := ⟨dropped, hslots.symm⟩
      obtain ⟨k, f', fs', hdrop, hl⟩ := hlives.lodged.suffix hsuffix
      refine ⟨hlives.sane, fun htoHost => ?_⟩
      cases hl with
      | own hsaves _ => exact hsaves.elim
      | host hsite _ => cases hsite.symm.trans htoHost
      | @call _ _ _ f' fs' _ hsite _ hat _ hrest =>
        obtain ⟨env, henclosed⟩ := hlives.enclosed.suffix hsuffix
        refine ⟨k + 1, f', fs', ?_, rfl, hat, .own trivial hrest, henclosed, hlives.scopes, hlives.sane,
          fun w hw => ?_, List.forall_mem_nil _⟩
        · rw [← List.drop_drop, hdrop]
          rfl
        · rcases List.mem_cons.mp hw with heq | hw
          · cases heq
            exact hlives.held v List.mem_cons_self
          · exact hlives.stacked w (hsuffix.subset (List.mem_cons_of_mem _ hw))

end Exec

/-! ## calls -/

/-- A callee with its arguments and, if it has one, its receiver stands on top, or a result that is
already there. -/
theorem Holds.ready {program : Program} {heap : Heap} {base : EnvId} {i argc : Nat} {bound : Bool}
    {es es' : List Entry} {own : List Slot} (h : Holds program T heap base i es own)
    (hready : Ready argc es (values (if bound then 1 else 0) ++ es')) :
    (∃ rest, own = .nativeResult :: rest)
      ∨ ∃ (v : Value) (args : List Value) (receiver : Option Value) (below : List Slot),
        own = .value v :: (args.map .value ++ (receiver.toList.map .value ++ below))
        ∧ args.length = argc ∧ receiver.isSome = bound ∧ v.Known program.functions.size := by
  have hreceiver {ss : List Slot}
      (h : Holds program T heap base i (values (if bound then 1 else 0) ++ es') ss) :
      ∃ (receiver : Option Value) (below : List Slot),
        ss = receiver.toList.map .value ++ below ∧ receiver.isSome = bound := by
    cases bound with
    | false => exact ⟨none, ss, rfl, rfl⟩
    | true =>
      cases h with
      | value _ _ => exact ⟨some _, _, rfl, rfl⟩
  generalize htail : values (if bound then 1 else 0) ++ es' = tail at hready hreceiver
  cases hready with
  | value _ =>
    cases h with
    | value hv h =>
      obtain ⟨args, ss, rfl, rfl, -, h⟩ := h.take_values
      obtain ⟨receiver, below, rfl, hbound⟩ := hreceiver h
      exact .inr ⟨_, args, receiver, below, rfl, rfl, hbound, hv⟩
  | prepared _ =>
    cases h with
    | @callee _ _ _ args hv _ h =>
      obtain ⟨receiver, below, rfl, hbound⟩ := hreceiver h
      exact .inr ⟨_, args, receiver, below, rfl, rfl, hbound, hv⟩
    | result _ _ => exact .inl ⟨_, rfl⟩

theorem Exec.calleeParent_eq (linked : Linked) (receiver : Option Value) :
    calleeParent linked receiver = (receiver.bind Value.object?).getD linked.global := by
  cases receiver with
  | none => rfl
  | some v => cases v <;> rfl

/-- the scope of a function that is called is new, and stands where the function was called on -/
theorem stands_callee (linked : Linked) (index : Nat) (entry : FunctionEntry) {args : List Value}
    {receiver : Option Value} (fromHost : Bool) {s : State} (hsane : Sane linked s.heap)
    (hargs : ∀ v ∈ args, v.Real linked.global s.heap)
    (hreceiver : ∀ v ∈ receiver, v.Real linked.global s.heap) :
    let s' := Exec.calleeState linked index entry args receiver fromHost s
    (ValueKind.real linked.program.functions.size linked.global).Step s.heap s'.heap
      ∧ (Frame.call s'.env (receiver.bind Value.object?)).Stands linked.global s'.heap := by
  intro s'
  have hnew (parent : EnvId) : (ValueKind.real linked.program.functions.size linked.global).Step s.heap
      (s.heap.newScope parent).2 := ValueKind.step_newEnv .scope (some parent)
  have hkind (parent : EnvId) :
      (s.heap.newScope parent).2.kind (s.heap.newScope parent).1 = .scope :=
    s.heap.kind_newEnv_self .scope (some parent)
  have hbind : (ValueKind.real linked.program.functions.size linked.global).Step
      (s.heap.newScope (Exec.calleeParent linked receiver)).2 s'.heap :=
    ValueKind.step_bindParameters _ entry.params args fun v hv => (hargs v hv).later (hnew _).grows
  refine ⟨(hnew _).trans hbind, Frame.Stands.later ?_ hbind.grows⟩
  have hparent := Exec.calleeParent_eq linked receiver
  cases hobject : receiver.bind Value.object? with
  | none =>
    rw [hobject] at hparent
    rw [hparent]
    exact ⟨hkind _, s.heap.parent?_newScope _ hsane.root.lt⟩
  | some env =>
    rw [hobject] at hparent
    rw [hparent]
    obtain ⟨v, hv, hobject⟩ := Option.bind_eq_some_iff.mp hobject
    have hreal := hreceiver v hv
    cases v with
    | object env' =>
      cases hobject
      exact ⟨hkind _, s.heap.parent?_newScope _ (Heap.lt_of_kind hreal.1), hreal.later (hnew _).grows⟩
    | _ => cases hobject

/-- a function of the program starts in a frame of its own -/
theorem settled_callee (hshape : WellShaped linked.program linked.labels T) {f : Frame} {fs : List Frame}
    {loc : Location} {d : Nat} {hands : List Value} (hfall : (T loc).depth = d)
    (h : Lives linked T blocks f fs loc d hands s) (index : Nat) (entry : FunctionEntry)
    {args : List Value} {receiver : Option Value} (hargs : ∀ v ∈ args, v ∈ hands)
    (hreceiver : ∀ v ∈ receiver, v ∈ hands)
    (hs' : s' = Exec.calleeState linked index entry args receiver false s) :
    Settled linked T blocks (.call s'.env (receiver.bind Value.object?) :: f :: fs) s' := by
  obtain rfl := h.location
  obtain ⟨hstep, hstands⟩ := stands_callee linked index entry false h.sane
    (fun v hv => h.held v (hargs v hv)) fun v hv => h.held v (hreceiver v hv)
  have hgrown := h.grow hstep.grows (hstep.all h.sane) s.events
  have hat : Nested blocks (Exec.calleeState linked index entry args receiver false s).heap
      (f.base linked.global) (T s.location).depth s.env := hfall ▸ hgrown.nested
  have hdepth : (T ⟨entry.body, 0⟩).depth = 0 := by rw [hshape.start]
  subst hs'
  refine ⟨_, _, rfl, rfl, ?_, .call rfl hstands hat (h.lodged.lt h.nested h.sane.root) hgrown.lodged,
    hgrown.enclosed, hgrown.scopes, hgrown.sane, fun v hv => ?_, List.forall_mem_nil _⟩
  · show Nested _ _ _ (T ⟨entry.body, 0⟩).depth _
    rw [hdepth]
    rfl
  · rcases List.mem_cons.mp hv with heq | hv
    · cases heq
    · exact hgrown.stacked v hv

/-- The function that a call finds on top is called on what is below its arguments. -/
theorem receiver?_of_slots {v : Value} {args : List Value} {receiver : Option Value} {below : List Slot}
    (hslots : s.stack.slots = .value v :: (args.map .value ++ (receiver.toList.map .value ++ below))) :
    (Op.call args.length receiver.isSome).receiver? s = receiver.bind Value.object? := by
  cases receiver with
  | none => rfl
  | some r =>
    have hget : s.stack.slots[args.length + 1]? = some (.value r) := by
      rw [hslots, List.getElem?_cons_succ, List.getElem?_append_right (by rw [List.length_map]),
        List.length_map, Nat.sub_self]
      rfl
    show (match s.stack.slots[args.length + 1]? with
      | some (.value v) => v.object?
      | _ => none) = r.object?
    rw [hget]

/-! ## instructions -/

section
variable (linked : Linked) (T : Location → Shape) (blocks : List EnvId) (frames : List Frame)

/-- An instruction from `s` goes on settled in the frames that it leads to.  If it ends the run, then the
heap that it leaves is all right. -/
def SettledAfter (op : Op) (s : State) : EStateM.Result RuntimeError State Signal → Prop
  | .ok .proceed s' | .ok .pause s' =>
    Settled linked T (blocksAfter op s' blocks) (framesAfter op s s' frames) s'
  | .ok .halt s' | .ok .hostReturn s' | .error _ s' => Sane linked s'.heap

end

theorem SettledAfter.of_perform {op : Op}
    (hop : Exec.dispatch op = (do Exec.perform op; return .proceed))
    (h : Leads linked (· = s.next) (Exec.perform op)
      (fun _ s' => Settled linked T (blocksAfter op s' blocks) (framesAfter op s s' frames) s')
      (Exec.FailsSane linked)) :
    SettledAfter linked T blocks frames op s (execute linked op s) := by
  show SettledAfter linked T blocks frames op s (Exec.dispatch op linked s.next)
  rw [hop]
  cases hr : Exec.perform op linked s.next with
  | ok _ s' =>
    rw [Exec.bind_ok hr]
    exact h.ok rfl hr
  | error e s' =>
    rw [Exec.bind_error hr]
    exact h.error rfl hr

/-- a function that a call finds on top starts in a new frame -/
theorem settled_callFunction (hshape : WellShaped linked.program linked.labels T) {f : Frame}
    {fs : List Frame} {d : Nat} (hfall : (T s.next.location).depth = d)
    (h : Lives linked T blocks f fs s.next.location d [] s.next)
    (hlength : (f :: fs).length = s.calls + 1) {index : Nat} {entry : FunctionEntry}
    (hentry : linked.program.functions[index]? = some entry) {args : List Value} {receiver : Option Value}
    {below : List Slot}
    (hslots : s.stack.slots
      = .value (.function index) :: (args.map .value ++ (receiver.toList.map .value ++ below))) :
    ∃ s', Exec.callValue args.length receiver.isSome linked s.next = .ok () s'
      ∧ Settled linked T blocks (framesAfter (.call args.length receiver.isSome) s s' (f :: fs)) s' := by
  have hown : ∀ slot : Slot,
      slot ∈ Slot.value (.function index) :: args.map .value ++ receiver.toList.map .value →
        slot.isOwn = true :=
    List.forall_mem_append.mpr ⟨List.forall_mem_cons.mpr ⟨rfl, forall_values (fun _ => rfl) args⟩,
      forall_values (fun _ => rfl) _⟩
  have htaken : s.next.stack.slots
      = (Slot.value (.function index) :: args.map .value ++ receiver.toList.map .value) ++ below := by
    simp only [State.next, hslots, List.cons_append, List.append_assoc]
  have hhands : Lives linked T blocks f fs s.next.location d (args ++ receiver.toList)
      { s.next with stack := .of below } := by
    refine { h.below htaken hown with held := fun v hv => h.stacked v ?_ }
    rw [htaken]
    refine List.mem_append_left _ (List.mem_cons_of_mem _ ?_)
    rw [List.append_eq, ← List.map_append]
    exact List.mem_map_of_mem hv
  obtain ⟨s', hs'⟩ : ∃ s', s' = Exec.calleeState linked index entry args receiver false
    { s.next with stack := .of below } := ⟨_, rfl⟩
  have hsettled := settled_callee hshape hfall hhands index entry (fun v hv => List.mem_append_left _ hv)
    (fun v hv => List.mem_append_right _ (Option.mem_toList.mpr hv)) hs'
  have hcall := Exec.callValue_function hentry args receiver below s.next
  have hstate : s.next = { s.next with stack := .of (.value (.function index) ::
      (args.map .value ++ (receiver.toList.map .value ++ below))) } := by
    rw [← hslots]
    exact congrArg (fun stack => { s.next with stack := stack }) s.stack.eq_of
  rw [← hs'] at hcall
  refine ⟨s', (congrArg (Exec.callValue _ _ linked) hstate).trans hcall, ?_⟩
  have hcalls := hsettled.length
  rw [List.length_cons, hlength] at hcalls
  rw [framesAfter, if_pos (by omega), receiver?_of_slots hslots]
  exact hsettled

/-- a call leads to a new frame or stays in the one that there is -/
theorem settled_call (hshape : WellShaped linked.program linked.labels T) (htab : Tabled linked.program)
    {hosted : Bool} {f : Frame} {fs : List Frame} {argc : Nat} {bound : Bool} {es es' : List Entry}
    {d : Nat} (hready : Ready argc es (values (if bound then 1 else 0) ++ es'))
    (hfall : (T s.next.location).depth = d) (hhere : Here linked T hosted s.next.location ⟨es, d⟩ s.next)
    (h : Lives linked T blocks f fs s.next.location d [] s.next)
    (hlength : (f :: fs).length = s.calls + 1) :
    Leads linked (· = s.next) (Exec.callValue argc bound)
      (fun _ s' => Settled linked T blocks (framesAfter (.call argc bound) s s' (f :: fs)) s')
      (Exec.FailsSane linked) := by
  have hother (htop : ∀ index, s.stack.slots.head? ≠ some (.value (.function index))) :
      Leads linked (· = s.next) (Exec.callValue argc bound)
        (fun _ s' => Settled linked T blocks (framesAfter (.call argc bound) s s' (f :: fs)) s')
        (Exec.FailsSane linked) :=
    (Exec.lives_callOther htab hfall argc bound).here ⟨htop, h⟩
      fun _ s' hs => hs.after (.call argc bound) hlength
  obtain ⟨-, -, base, own, rest, hst, -, hholds, -⟩ := hhere
  have hst : s.stack.slots = own ++ rest := congrArg Stack.slots hst
  rcases hholds.ready hready with ⟨below, rfl⟩ | ⟨v, args, receiver, below, rfl, rfl, rfl, hv⟩
  · refine hother fun index htop => ?_
    rw [hst] at htop
    cases htop
  · simp only [List.cons_append, List.append_assoc] at hst
    cases v with
    | function index =>
      obtain ⟨s', hcall, hsettled⟩ :=
        settled_callFunction hshape hfall h hlength (Array.getElem?_eq_getElem hv) hst
      rintro _ rfl
      rw [hcall]
      exact hsettled
    | _ =>
      refine hother fun index htop => ?_
      rw [hst] at htop
      cases htop

/-- **One instruction** of a sound and settled state. -/
theorem settled_execute (hshape : WellShaped linked.program linked.labels T)
    (htab : Tabled linked.program) {hosted : Bool} (hs : Sound linked T hosted s)
    (h : Settled linked T blocks frames s) {ins : Instruction}
    (hins : linked.program.instruction? s.location.sectionIndex s.location.pc = some ins) :
    SettledAfter linked T blocks frames ins.op s (execute linked ins.op s) := by
  have hlength := h.length
  have hhere : Here linked T hosted s.next.location (T s.location) s.next :=
    ⟨rfl, hs.here.heap, hs.here.frame⟩
  obtain ⟨f, fs, rfl, h⟩ := h
  have hop := hshape.typed s.location.sectionIndex s.location.pc ins hins
  have hnext : Lives linked T blocks f fs s.next.location (T s.location).depth [] s.next :=
    { h with location := rfl }
  have hplace : (⟨s.location.sectionIndex, s.location.pc⟩ : Location) = s.location := rfl
  rw [hplace] at hop
  generalize T s.location = σ at hop hhere hnext
  generalize hτ : T ⟨s.location.sectionIndex, s.location.pc + 1⟩ = τ at hop
  have hτ : T s.next.location = τ := hτ
  generalize ins.op = op at hop
  have hsteady (hsteady : op.isSteady = true) :
      Leads linked (· = s.next) (Exec.perform op)
        (fun _ s' => Settled linked T blocks (framesAfter op s s' (f :: fs)) s')
        (Exec.FailsSane linked) :=
    (Exec.lives_perform htab hop hsteady hτ).here hnext fun _ s' hs => hs.after op hlength
  cases op with
  | halt => exact hnext.sane
  | debugger =>
    cases hop with
    | debugger => exact (hnext.remains (congrArg Shape.depth hτ)).after .debugger hlength
  | ret =>
    have hret : Leads linked (Lives linked T blocks f fs s.next.location σ.depth [])
        Exec.returnFromCall _ _ := Exec.lives_ret
    show SettledAfter linked T blocks (f :: fs) .ret s (Exec.dispatch .ret linked s.next)
    rw [Exec.dispatch_ret]
    cases hr : Exec.returnFromCall linked s.next with
    | error e s' => exact hret.error hnext hr
    | ok toHost s' =>
      obtain ⟨hsane, hremains⟩ := hret.ok hnext hr
      cases toHost with
      | true => exact hsane
      | false => exact (hremains rfl).after .ret hlength
  | enterScope =>
    cases hop with
    | enterScope =>
      refine .of_perform rfl (Leads.here (Exec.lives_enterScope (congrArg Shape.depth hτ)) hnext ?_)
      exact fun _ s' hs => hs.after .enterScope hlength
  | leaveScope =>
    cases hop with
    | leaveScope hes =>
      have hfall := congrArg Shape.depth hτ
      refine .of_perform rfl (Leads.here (Exec.lives_leaveScope hes hfall) ⟨hhere, hnext⟩ ?_)
      exact fun _ s' hs => hs.after .leaveScope hlength
  | loopExit target =>
    cases hop with
    | loopExit hin hland =>
      refine .of_perform rfl (Leads.here (Exec.lives_loopExit hin hland) ⟨hhere, hnext⟩ ?_)
      exact fun _ s' hs => hs.after (.loopExit _) hlength
  | call argc bound =>
    cases hop with
    | call hready =>
      have hfall := congrArg Shape.depth hτ
      exact .of_perform rfl (settled_call hshape htab hready hfall hhere hnext hlength)
  | _ => exact .of_perform rfl (hsteady rfl)

end

end ScriptMachine
