import ScriptMachine.Proofs.Machine.Chains
import ScriptMachine.Proofs.Machine.Safe
import ScriptMachine.Proofs.Machine.Slots

/-!
# Instructions keep the environments of frames

An instruction stays in its frame or goes back to one below, with an environment that this frame has
held; or it calls a function, whose frame is new.

* `Lives`               a state in a frame, with what it has in its hands;
* `Settled`             a state between two instructions, with all its frames;
* `Remains`             the same with some of its frames left;
* `lives_popSlot`, `lives_throwValue`, ...   the parts of instructions;
* `lives_perform`       instructions that stay in their frame or throw;
* `lives_callOther`     calls that do.
-/

namespace ScriptMachine

/-! ## states -/

section
variable (linked : Linked) (T : Location → Shape) (blocks : List EnvId)

/-- all values on the heap are real -/
abbrev Sane (heap : Heap) : Prop := (ValueKind.real linked.program.functions.size linked.global).All heap

/-- The state is at `loc` in frame `f`, above the frames `fs` and inside of `d` block scopes.  The
instruction has taken the values `hands` from the stack or elsewhere. -/
structure Lives (f : Frame) (fs : List Frame) (loc : Location) (d : Nat) (hands : List Value)
    (s : State) : Prop where
  location : s.location = loc
  nested : Nested blocks s.heap (f.base linked.global) d s.env
  lodged : Lodged T linked.global blocks s.heap (f :: fs) s.stack.slots
  enclosed : s.heap.Enclosed s.env s.stack.slots
  scopes : s.heap.AreScopes blocks
  sane : Sane linked s.heap
  stacked : ∀ v, .value v ∈ s.stack.slots → v.Real linked.global s.heap
  held : ∀ v ∈ hands, v.Real linked.global s.heap

/-- the state is between two instructions, as deep in its frame as its place says -/
def Settled (frames : List Frame) (s : State) : Prop :=
  ∃ f fs, frames = f :: fs ∧ Lives linked T blocks f fs s.location (T s.location).depth [] s

/-- some frames are left -/
def Remains (frames : List Frame) (s : State) : Prop := ∃ k, Settled linked T blocks (frames.drop k) s

end

/-- an instruction that opens and ends no scope, leaves no loop and is neither a call nor a return -/
def Op.isSteady : Op → Bool
  | .enterScope | .leaveScope | .loopExit _ | .call _ _ | .ret | .halt => false
  | _ => true

/-- the value that is copied is on the stack -/
theorem Stack.mem_of_pick? {st : Stack} {n : Nat} {v : Value} (h : st.pick? n = some v) :
    .value v ∈ st.slots := by
  unfold pick? at h
  split at h
  · cases h
    exact List.mem_of_getElem? ‹_›
  · cases h

/-- the value of an entry -/
def Slot.values : Slot → List Value
  | .value v => [v]
  | _ => []

section
variable {linked : Linked} {T : Location → Shape} {blocks : List EnvId} {f : Frame} {fs : List Frame}
  {loc : Location} {d : Nat} {hands : List Value} {s : State}

namespace Lives

theorem hold (h : Lives linked T blocks f fs loc d hands s) {v : Value}
    (hv : v.Real linked.global s.heap) : Lives linked T blocks f fs loc d (v :: hands) s :=
  { h with held := List.forall_mem_cons.mpr ⟨hv, h.held⟩ }

theorem data (h : Lives linked T blocks f fs loc d hands s) {v : Value} (hv : v.isData = true) :
    Lives linked T blocks f fs loc d (v :: hands) s :=
  h.hold ((ValueKind.real 0 linked.global).data hv)

/-- only these are left in the hands -/
theorem keep {hands' : List Value} (h : Lives linked T blocks f fs loc d hands s)
    (hsub : hands' ⊆ hands) : Lives linked T blocks f fs loc d hands' s :=
  { h with held := fun v hv => h.held v (hsub hv) }

theorem push (h : Lives linked T blocks f fs loc d hands s) {slot : Slot}
    (hslot : f.Saves T linked.global blocks s.heap slot) (hvalues : ∀ v ∈ slot.values, v ∈ hands)
    (hsaved : ∀ env ∈ slot.saved, env = s.env) :
    Lives linked T blocks f fs loc d [] { s with stack := s.stack.push slot } where
  location := h.location
  nested := h.nested
  lodged := .own hslot h.lodged
  enclosed := by
    refine h.enclosed.push hsaved ?_
    rintro site rfl
    exact hslot
  scopes := h.scopes
  sane := h.sane
  stacked := by
    intro v hv
    rcases List.mem_cons.mp hv with rfl | hv
    · exact h.held v (hvalues v List.mem_cons_self)
    · exact h.stacked v hv
  held := List.forall_mem_nil _

theorem grow (h : Lives linked T blocks f fs loc d hands s) {heap : Heap} (hgrows : s.heap.Grows heap)
    (hsane : Sane linked heap) (events : List Event) :
    Lives linked T blocks f fs loc d hands { s with heap := heap, events := events } where
  location := h.location
  nested := h.nested.later hgrows fun _ hb => hb
  lodged := h.lodged.later hgrows fun _ hb => hb
  enclosed := h.enclosed.later hgrows
  scopes := h.scopes.later hgrows
  sane := hsane
  stacked v hv := (h.stacked v hv).later hgrows
  held v hv := (h.held v hv).later hgrows

theorem settled (h : Lives linked T blocks f fs loc d hands s) (hd : (T loc).depth = d) :
    Settled linked T blocks (f :: fs) s := by
  obtain rfl := h.location
  subst hd
  exact ⟨f, fs, rfl, h.keep (List.nil_subset _)⟩

theorem remains (h : Lives linked T blocks f fs loc d hands s) (hd : (T loc).depth = d) :
    Remains linked T blocks (f :: fs) s := ⟨0, h.settled hd⟩

end Lives

/-! ## the stack -/

namespace Exec

/-- an instruction fails on a heap that is all right -/
abbrev FailsSane (linked : Linked) : RuntimeError → State → Prop := fun _ s => Sane linked s.heap

theorem lives_popSlot :
    Leads linked (Lives linked T blocks f fs loc d hands) popSlot
      (fun slot s => Sane linked s.heap
        ∧ (slot.isOwn = true → Lives linked T blocks f fs loc d (slot.values ++ hands) s))
      (FailsSane linked) := by
  rintro ⟨loc, env, ⟨slots, depth, hdepth⟩, heap, events⟩
    ⟨hloc, hn, hl, henclosed, hscopes, hsane, hstacked, hheld⟩
  cases slots with
  | nil => exact hsane
  | cons slot slots =>
    refine ⟨hsane, fun hslot => ?_⟩
    have hvalues : ∀ v ∈ slot.values, v.Real linked.global heap := by
      cases slot with
      | value v => exact List.forall_mem_singleton.mpr (hstacked v List.mem_cons_self)
      | _ => exact nofun
    have hown := Slot.ne_callSite hslot
    exact ⟨hloc, hn, hl.tail hown, henclosed.tail hown, hscopes, hsane,
      fun v hv => hstacked v (List.mem_cons_of_mem _ hv), List.forall_mem_append.mpr ⟨hvalues, hheld⟩⟩

theorem lives_pop :
    Leads linked (Lives linked T blocks f fs loc d hands) pop
      (fun v => Lives linked T blocks f fs loc d (v :: hands)) (FailsSane linked) := by
  refine Leads.bind lives_popSlot fun slot => ?_
  cases slot with
  | value v => exact Leads.pure fun s hs => hs.2 rfl
  | _ => exact fun s hs => hs.1

theorem lives_popValues (n : Nat) :
    Leads linked (Lives linked T blocks f fs loc d hands) (popValues n)
      (fun vs => Lives linked T blocks f fs loc d (vs ++ hands)) (FailsSane linked) := by
  induction n generalizing hands with
  | zero => exact Leads.pure fun s hs => hs
  | succ n ih =>
    refine Leads.bind lives_pop fun v => Leads.bind ih fun vs => Leads.pure fun s hs => hs.keep ?_
    intro w hw
    rcases List.mem_append.mp hw with hw | hw
    · rcases List.mem_cons.mp hw with rfl | hw
      · exact List.mem_append_right _ List.mem_cons_self
      · exact List.mem_append_left _ hw
    · exact List.mem_append_right _ (List.mem_cons_of_mem _ hw)

theorem lives_peek :
    Leads linked (Lives linked T blocks f fs loc d hands) peek
      (fun v => Lives linked T blocks f fs loc d (v :: hands)) (FailsSane linked) := by
  rintro ⟨loc, env, ⟨slots, depth, hdepth⟩, heap, events⟩ hs
  cases slots with
  | nil => exact hs.sane
  | cons slot slots =>
    cases slot with
    | value v => exact hs.hold (hs.stacked v List.mem_cons_self)
    | _ => exact hs.sane

theorem lives_push {v : Value} :
    Leads linked (Lives linked T blocks f fs loc d (v :: hands)) (push v)
      (fun _ => Lives linked T blocks f fs loc d []) (FailsSane linked) :=
  fun _ h => h.push trivial (List.forall_mem_singleton.mpr List.mem_cons_self) nofun

theorem lives_pushResult {v : Value} :
    Leads linked (Lives linked T blocks f fs loc d (v :: hands)) (pushResult v)
      (fun _ => Lives linked T blocks f fs loc d []) (FailsSane linked) :=
  Leads.bind lives_push fun _ _ h => h.push trivial nofun nofun

/-! ## the heap -/

theorem lives_onHeap {α : Type} {g : Heap → α × Heap} {Q : α → Heap → Prop}
    (hg : ∀ heap, Sane linked heap → (∀ v ∈ hands, v.Real linked.global heap) →
      (ValueKind.real linked.program.functions.size linked.global).Step heap (g heap).2
        ∧ Q (g heap).1 (g heap).2) :
    Leads linked (Lives linked T blocks f fs loc d hands) (onHeap g)
      (fun a s => Q a s.heap ∧ Lives linked T blocks f fs loc d hands s) (FailsSane linked) := by
  intro s hs
  obtain ⟨hstep, hq⟩ := hg s.heap hs.sane hs.held
  exact ⟨hq, hs.grow hstep.grows (hstep.all hs.sane) s.events⟩

theorem lives_modifyHeap {g : Heap → Heap}
    (hg : ∀ heap, Sane linked heap → (∀ v ∈ hands, v.Real linked.global heap) →
      (ValueKind.real linked.program.functions.size linked.global).Step heap (g heap)) :
    Leads linked (Lives linked T blocks f fs loc d hands) (modifyHeap g)
      (fun _ => Lives linked T blocks f fs loc d hands) (FailsSane linked) := by
  intro s hs
  have hstep := hg s.heap hs.sane hs.held
  exact hs.grow hstep.grows (hstep.all hs.sane) s.events

theorem lives_note (event : Event) :
    Leads linked (Lives linked T blocks f fs loc d hands) (note event)
      (fun _ => Lives linked T blocks f fs loc d hands) (FailsSane linked) :=
  fun s hs => hs.grow (.refl s.heap) hs.sane (event :: s.events)

theorem lives_callNative (htab : Tabled linked.program) (name : String) (args : List Value) :
    Leads linked (Lives linked T blocks f fs loc d hands) (callNative name args)
      (fun r s => (ValueKind.real linked.program.functions.size linked.global).Either s.heap r
        ∧ Lives linked T blocks f fs loc d hands s) (FailsSane linked) := by
  have hfrom (v : HostValue) : Leads linked (Lives linked T blocks f fs loc d hands) (fromHost v)
      (fun v s => v.Real linked.global s.heap ∧ Lives linked T blocks f fs loc d hands s)
      (FailsSane linked) :=
    lives_onHeap (Q := fun (v : Value) heap => v.Real linked.global heap) fun heap hsane _ =>
      ValueKind.step_fromHost _ htab.names v heap hsane.root
  refine Leads.read ?_
  split
  · refine Leads.get fun s _ => Leads.bind (lives_note _) fun _ => ?_
    split
    · exact Leads.bind (hfrom _) fun v => Leads.pure fun s hs => hs
    · exact Leads.bind (hfrom _) fun v => Leads.pure fun s hs => hs
  · split
    · refine Leads.get fun s _ => Leads.bind (lives_note _) fun _ => ?_
      exact Leads.pure fun s hs => ⟨trivial, hs⟩
    · exact Leads.pure fun s hs => ⟨trivial, hs⟩

/-! ## throwing -/

/-- a thrown value goes on in the frame of its handler -/
theorem lives_throwValue {v : Value} :
    Leads linked (Lives linked T blocks f fs loc d (v :: hands)) (throwValue v)
      (fun _ => Remains linked T blocks (f :: fs)) (FailsSane linked) := by
  intro s hs
  rw [throwValue_eq]
  cases hunwind : s.stack.unwindThrow with
  | reachedHost site callers rest => exact hs.sane
  | uncaught callers => exact hs.sane
  | caught region rest =>
    have hsuffix := Stack.caught_suffix hunwind
    -- the handler belongs to the frame that has entered the region, whichever that is
    obtain ⟨k, f', fs', hdrop, hl⟩ := hs.lodged.suffix hsuffix
    cases hl with
    | own hslot hrest =>
      obtain ⟨env, -, henclosed⟩ := hs.enclosed.suffix hsuffix
      refine ⟨k, f', fs', hdrop, rfl, hslot, .own trivial hrest, henclosed, hs.scopes, hs.sane,
        fun w hw => ?_, List.forall_mem_nil _⟩
      rcases List.mem_cons.mp hw with heq | hw
      · cases heq
        exact hs.held v List.mem_cons_self
      · exact hs.stacked w (hsuffix.subset (List.mem_cons_of_mem _ hw))

theorem lives_throwData {v : Value} (hv : v.isData = true) :
    Leads linked (Lives linked T blocks f fs loc d hands) (throwValue v)
      (fun _ => Remains linked T blocks (f :: fs)) (FailsSane linked) :=
  Leads.since (fun _ hs => hs.data hv) lives_throwValue

/-! ## steps that end an instruction -/

section
variable (hfall : (T loc).depth = d)

include hfall

/-- the last step stays in the frame -/
theorem lives_falls {α : Type} {P : State → Prop} {x : Exec α}
    (hx : Leads linked P x (fun _ => Lives linked T blocks f fs loc d hands) (FailsSane linked)) :
    Leads linked P x (fun _ => Remains linked T blocks (f :: fs)) (FailsSane linked) :=
  hx.weaken fun _ _ hs => hs.remains hfall

theorem lives_give {v : Value} :
    Leads linked (Lives linked T blocks f fs loc d (v :: hands)) (push v)
      (fun _ => Remains linked T blocks (f :: fs)) (FailsSane linked) := lives_falls hfall lives_push

theorem lives_giveData {v : Value} (hv : v.isData = true) :
    Leads linked (Lives linked T blocks f fs loc d hands) (push v)
      (fun _ => Remains linked T blocks (f :: fs)) (FailsSane linked) :=
  Leads.since (fun _ hs => hs.data hv) (lives_give hfall)

/-- a result goes onto the stack in one of two ways, a thrown value to a handler -/
theorem lives_either {found : Value → Exec Unit}
    (hfound : ∀ v, Leads linked (Lives linked T blocks f fs loc d (v :: hands)) (found v)
      (fun _ => Lives linked T blocks f fs loc d []) (FailsSane linked)) (r : Except Value Value) :
    Leads linked
      (fun s => (ValueKind.real linked.program.functions.size linked.global).Either s.heap r
        ∧ Lives linked T blocks f fs loc d hands s)
      (match r with
        | .ok result => found result
        | .error thrown => throwValue thrown)
      (fun _ => Remains linked T blocks (f :: fs)) (FailsSane linked) := by
  cases r with
  | ok v => exact Leads.since (fun s hs => hs.2.hold hs.1) (lives_falls hfall (hfound v))
  | error v => exact Leads.since (fun s hs => hs.2.hold hs.1) lives_throwValue

theorem lives_fetchMethod (target : Value) (name : String) (argc : Nat) :
    Leads linked (Lives linked T blocks f fs loc d hands) (fetchMethod target name argc)
      (fun _ => Remains linked T blocks (f :: fs)) (FailsSane linked) := by
  intro s hs
  have hmethod := ValueKind.of_method hs.sane target name
  unfold fetchMethod
  rw [get_bind]
  cases heq : s.heap.method target name with
  | callee v =>
    rw [heq] at hmethod
    exact lives_give hfall s (hs.hold hmethod)
  | missing thrown =>
    rw [heq] at hmethod
    exact lives_throwData hmethod s hs
  | refusing thrown =>
    rw [heq] at hmethod
    exact Leads.bind (lives_popValues argc) (fun _ => lives_throwData hmethod) s hs
  | immediate run =>
    rw [heq] at hmethod
    refine Leads.bind (lives_popValues argc) (fun args => Leads.bind
      (lives_onHeap (Q := fun r heap => ValueKind.Either _ heap r) fun heap hsane hheld => ?_)
      (lives_either hfall fun _ => lives_pushResult)) s hs
    exact hmethod heap hsane args fun v hv => hheld v (List.mem_append_left _ hv)

/-! ## names -/

omit hfall

/-- what a name means to a script is real; `this` is what the frame was called on -/
theorem real_lookupScript (h : Lives linked T blocks f fs loc d hands s) {name : String} {v : Value}
    (hv : lookupScript? linked s name = some v) : v.Real linked.global s.heap := by
  unfold lookupScript? at hv
  split at hv
  · cases hv
    have hstands := h.lodged.stands h.nested
    rw [h.nested.thisObject? hstands h.sane.root h.scopes]
    match f, hstands with
    | .main, _ | .call _ none, _ => trivial
    | .call _ (some _), ⟨_, _, hreal⟩ => exact hreal
  · rcases Option.or_eq_some_iff.mp hv with hv | ⟨-, hv⟩
    · exact h.sane.lookup hv
    · obtain ⟨i, -, rfl⟩ := Option.map_eq_some_iff.mp hv
      trivial

include hfall

theorem lives_fetch (htab : Tabled linked.program) (name : String) (access : Access) :
    Leads linked (Lives linked T blocks f fs loc d hands) (fetch name access)
      (fun _ => Remains linked T blocks (f :: fs)) (FailsSane linked) := by
  match access with
  | .variable =>
    intro s hs
    cases hv : lookupScript? linked s name with
    | some v =>
      rw [fetchVariable_some hv]
      exact lives_give hfall s (hs.hold (real_lookupScript hs hv))
    | none =>
      rw [fetchVariable_none hv]
      exact lives_giveData hfall (by split <;> rfl) s hs
  | .callVariable argc =>
    intro s hs
    cases hv : lookupScript? linked s name with
    | some v =>
      rw [fetchCallee_some hv]
      exact lives_give hfall s (hs.hold (real_lookupScript hs hv))
    | none =>
      unfold fetch
      rw [read_bind]
      dsimp only
      rw [get_bind, hv]
      dsimp only
      cases linked.hasNative name with
      | true =>
        refine Leads.bind (lives_popValues argc) (fun args => ?_) s hs
        exact Leads.bind (lives_callNative htab name args) (lives_either hfall fun _ => lives_pushResult)
      | false => exact lives_throwData (v := notAFunction name) rfl s hs
  | .property =>
    refine Leads.read (Leads.bind lives_pop fun target => ?_)
    intro s hs
    rw [get_bind]
    cases hv : s.heap.getProperty target name with
    | ok v => exact lives_give hfall s (hs.hold (ValueKind.of_getProperty hs.sane hv))
    | error v => exact lives_throwData (ValueKind.isData_thrown_getProperty hv) s hs
  | .callProperty argc =>
    exact Leads.read (Leads.bind lives_pop fun target => lives_fetchMethod hfall target name argc)

theorem lives_storeVariable (name : String) {v : Value} :
    Leads linked (Lives linked T blocks f fs loc d (v :: hands)) (storeVariable name v)
      (fun _ => Remains linked T blocks (f :: fs)) (FailsSane linked) := by
  intro s hs
  have hstep : (ValueKind.real linked.program.functions.size linked.global).Step s.heap _ :=
    ValueKind.step_define ((s.heap.owner? s.env name).getD linked.global) name
      (hs.held v List.mem_cons_self)
  exact (hs.grow hstep.grows (hstep.all hs.sane) s.events).remains hfall

theorem lives_storeProperty (name : String) :
    Leads linked (Lives linked T blocks f fs loc d hands) (storeProperty name)
      (fun _ => Remains linked T blocks (f :: fs)) (FailsSane linked) := by
  refine Leads.bind lives_pop fun v => Leads.bind lives_pop fun target => ?_
  cases target with
  | object env =>
    refine Leads.bind (lives_modifyHeap fun heap _ hheld => ValueKind.step_define env name ?_)
      fun _ => ?_
    · exact hheld v (List.mem_cons_of_mem _ List.mem_cons_self)
    · exact Leads.since (fun _ hs => hs.keep (List.subset_cons_self _ _)) (lives_give hfall)
  | _ => exact lives_throwData rfl

/-! ## objects -/

theorem lives_createObject (htab : Tabled linked.program) (className : String) :
    Leads linked (Lives linked T blocks f fs loc d hands) (createObject className)
      (fun _ => Remains linked T blocks (f :: fs)) (FailsSane linked) := by
  refine Leads.read ?_
  cases hclass : linked.program.class? className with
  | none => exact lives_throwData rfl
  | some entry =>
    have hmethods := htab.classes entry (List.mem_of_find?_eq_some hclass)
    have hnew : Leads linked (Lives linked T blocks f fs loc d hands)
        (onHeap (·.newObject linked.global))
        (fun env s => (Value.object env).Real linked.global s.heap
          ∧ Lives linked T blocks f fs loc d hands s) (FailsSane linked) :=
      lives_onHeap (Q := fun env heap => (Value.object env).Real linked.global heap) fun heap hsane _ =>
        ⟨ValueKind.step_newEnv .object (some linked.global),
          (ValueKind.real linked.program.functions.size linked.global).object hsane.root⟩
    refine Leads.bind hnew fun env => Leads.since (fun s hs => hs.2.hold hs.1) ?_
    refine Leads.bind (lives_modifyHeap fun heap _ _ => ?_) fun _ => lives_give hfall
    exact ValueKind.step_defineMethods env entry.methods hmethods.2

theorem lives_makeArray (n : Nat) :
    Leads linked (Lives linked T blocks f fs loc d hands) (perform (.makeArray n))
      (fun _ => Remains linked T blocks (f :: fs)) (FailsSane linked) := by
  refine Leads.bind (lives_popValues n) fun items => ?_
  have hnew : Leads linked (Lives linked T blocks f fs loc d (items ++ hands))
      (onHeap (·.newArray items.toArray))
      (fun _ s => True ∧ Lives linked T blocks f fs loc d (items ++ hands) s) (FailsSane linked) :=
    lives_onHeap (Q := fun _ _ => True) fun heap _ hheld =>
      ⟨ValueKind.step_newArray fun v hv =>
        hheld v (List.mem_append_left _ (List.mem_toArray.mp hv)), trivial⟩
  exact Leads.bind hnew fun id => Leads.of_fact fun _ => lives_giveData hfall rfl

end

/-! ## jumps, loops and regions -/

theorem lives_resolve {l : Label} {i : Nat} {σ : Shape}
    (h : Lands linked.program linked.labels T i l σ) :
    Leads linked (Lives linked T blocks f fs loc d hands) (resolve l)
      (fun at_ s => T at_ = σ ∧ Lives linked T blocks f fs loc d hands s) (FailsSane linked) := by
  obtain ⟨pc, hresolve, -, hshape⟩ := h
  intro s hs
  rw [resolve_some hresolve]
  exact ⟨hshape, hs⟩

theorem lives_jump {l : Label} {i : Nat} {es : List Entry}
    (h : Lands linked.program linked.labels T i l ⟨es, d⟩) :
    Leads linked (Lives linked T blocks f fs loc d hands) (jump l)
      (fun _ => Remains linked T blocks (f :: fs)) (FailsSane linked) := by
  refine Leads.bind (lives_resolve h) fun at_ => Leads.of_fact fun hat s hs => ?_
  exact ⟨0, f, fs, rfl, rfl, hat ▸ hs.nested, hs.lodged, hs.enclosed, hs.scopes, hs.sane, hs.stacked,
    List.forall_mem_nil _⟩

theorem lives_jumpIf (test : Value → Bool) (hfall : (T loc).depth = d) {l : Label} {i : Nat}
    {es : List Entry} (h : Lands linked.program linked.labels T i l ⟨es, d⟩) :
    Leads linked (Lives linked T blocks f fs loc d hands) (do if test (← pop) then jump l)
      (fun _ => Remains linked T blocks (f :: fs)) (FailsSane linked) := by
  refine Leads.bind lives_pop fun v => ?_
  split
  · exact lives_jump h
  · exact lives_falls hfall (Leads.pure fun s hs => hs)

theorem lives_enterTry {l : Label} {i : Nat} {es : List Entry} (hfall : (T loc).depth = d)
    (h : Lands linked.program linked.labels T i l ⟨es, d⟩) :
    Leads linked (Lives linked T blocks f fs loc d hands) (perform (.enterTry l))
      (fun _ => Remains linked T blocks (f :: fs)) (FailsSane linked) := by
  refine Leads.bind (lives_resolve h) fun handler => Leads.of_fact fun hat s hs => ?_
  have hsaves : f.Saves T linked.global blocks s.heap (.tryRegion ⟨handler, s.env⟩) :=
    show Nested _ _ _ (T handler).depth _ from hat ▸ hs.nested
  exact (hs.push hsaves nofun (List.forall_mem_singleton.mpr rfl)).remains hfall

theorem lives_loopStart (hfall : (T loc).depth = d) :
    Leads linked (Lives linked T blocks f fs loc d hands) (perform .loopStart)
      (fun _ => Remains linked T blocks (f :: fs)) (FailsSane linked) := by
  intro s hs
  have hsaves : f.Saves T linked.global blocks s.heap (.loopMarker s.env) := ⟨d, hs.nested⟩
  exact (hs.push hsaves nofun (List.forall_mem_singleton.mpr rfl)).remains hfall

/-- The parent of a block scope is in the same frame.  No entry of the frame has saved the scope itself,
since none goes back as deep. -/
theorem lives_leaveScope {hosted : Bool} {es : List Entry} (hes : Shallow es d) (hfall : (T loc).depth = d) :
    Leads linked
      (fun s => Here linked T hosted loc ⟨es, d + 1⟩ s ∧ Lives linked T blocks f fs loc (d + 1) [] s)
      (perform .leaveScope) (fun _ => Remains linked T blocks (f :: fs)) (FailsSane linked) := by
  rintro s ⟨⟨-, -, base, own, rest, hst, hframes, hholds, hscope⟩, hs⟩
  have hslots : s.stack.slots = own ++ rest := congrArg Stack.slots hst
  obtain ⟨-, parent, hparent, hn⟩ := hs.nested
  rw [leaveScope_some hparent]
  have henclosed : s.heap.Enclosed parent s.stack.slots := by
    have henclosed := hs.enclosed
    rw [hslots] at henclosed ⊢
    exact hholds.enclosed_parent hframes hes hscope hparent henclosed
  have hlives : Lives linked T blocks f fs loc d [] { s with env := parent } :=
    { hs with nested := hn, enclosed := henclosed }
  exact hlives.remains hfall

/-- a new block scope is one more inside of the frame -/
theorem lives_enterScope (hfall : (T loc).depth = d + 1) :
    Leads linked (Lives linked T blocks f fs loc d []) (perform .enterScope)
      (fun _ s => Remains linked T (s.env :: blocks) (f :: fs) s) (FailsSane linked) := by
  intro s hs
  have hstep : (ValueKind.real linked.program.functions.size linked.global).Step s.heap
      (s.heap.newScope s.env).2 := ValueKind.step_newEnv .scope (some s.env)
  have hstands := hs.lodged.stands hs.nested
  have hlt := hs.nested.lt (hstands.base_lt hs.sane.root)
  have hgrown := hs.grow hstep.grows (hstep.all hs.sane) s.events
  have hsub : blocks ⊆ (s.heap.newScope s.env).1 :: blocks := List.subset_cons_self _ _
  have hnew : (s.heap.newScope s.env).2.AreScopes ((s.heap.newScope s.env).1 :: blocks) := by
    have hkind := s.heap.kind_newEnv_self .scope (some s.env)
    refine List.forall_mem_cons.mpr ⟨⟨?_, hkind⟩, hgrown.scopes⟩
    show s.heap.cells.size < (s.heap.newEnv _ _).2.cells.size
    rw [Heap.size_newEnv]
    exact Nat.lt_succ_self _
  have hparent := s.heap.parent?_newScope s.env hlt
  have henv : s.env ∈ (s.heap.newScope s.env).2.chain (s.heap.newScope s.env).1 := by
    rw [Heap.chain_parent hparent]
    exact List.mem_cons_of_mem _ (Heap.mem_chain_self _ s.env)
  have hlives : Lives linked T ((s.heap.newScope s.env).1 :: blocks) f fs loc (d + 1) []
      { s with env := (s.heap.newScope s.env).1, heap := (s.heap.newScope s.env).2 } :=
    ⟨hs.location, ⟨List.mem_cons_self, s.env, hparent, hgrown.nested.later (.refl _) hsub⟩,
      hgrown.lodged.later (.refl _) hsub, hgrown.enclosed.inner henv, hnew, hgrown.sane,
      hgrown.stacked, List.forall_mem_nil _⟩
  exact hlives.remains hfall

/-! ## instructions -/

theorem lives_perform (htab : Tabled linked.program) {inFunction : Bool} {i : Nat}
    {op : Op} {σ τ : Shape}
    (hop : OpTyped ⟨linked.program.constants.size, inFunction⟩ (Lands linked.program linked.labels T i)
      op σ τ) (hsteady : op.isSteady = true) (hfall : T loc = τ) :
    Leads linked (Lives linked T blocks f fs loc σ.depth []) (perform op)
      (fun _ => Remains linked T blocks (f :: fs)) (FailsSane linked) := by
  have hfall : (T loc).depth = τ.depth := congrArg Shape.depth hfall
  cases hop with
  | enterScope | leaveScope _ | loopExit _ _ | call _ | ret _ | halt _ => cases hsteady
  | nop | label | debugger => exact lives_falls hfall (Leads.pure fun s hs => hs)
  | @const index _ _ h =>
    obtain ⟨v, hget⟩ : ∃ v, linked.program.constants[index]? = some v :=
      ⟨_, Array.getElem?_eq_getElem h⟩
    have hplain := htab.constants v (Array.mem_toList_iff.mpr (Array.mem_of_getElem? hget))
    have hdata : v.isData = true := by
      cases v <;> first | rfl | cases hplain
    intro s hs
    rw [const_some hget]
    exact lives_giveData hfall hdata s hs
  | pop => exact Leads.bind lives_pop fun v => lives_falls hfall (Leads.pure fun s hs => hs)
  | dup => exact Leads.bind lives_peek fun v => lives_give hfall
  | @pick n =>
    intro s hs
    cases hpick : s.stack.pick? n with
    | some v =>
      rw [pick_some hpick]
      exact lives_give hfall s (hs.hold (hs.stacked v (Stack.mem_of_pick? hpick)))
    | none =>
      rw [pick_none hpick]
      exact hs.sane
  | binary =>
    refine Leads.bind lives_pop fun b => Leads.bind lives_pop fun a => Leads.get fun s _ => ?_
    exact lives_giveData hfall (ValueKind.isData_applyBinary _ _ _)
  | neg => exact Leads.bind lives_pop fun v => lives_giveData hfall rfl
  | not => exact Leads.bind lives_pop fun v => lives_giveData hfall rfl
  | jump h => exact lives_jump h
  | jumpFalse h => exact lives_jumpIf (fun v => !v.isTruthy) hfall h
  | jumpTrue h => exact lives_jumpIf Value.isTruthy hfall h
  | @declare name =>
    refine Leads.get fun s₀ _ => lives_falls hfall (lives_modifyHeap fun heap _ _ => ?_)
    exact ValueKind.step_define s₀.env name (ValueKind.data _ rfl)
  | storeVariable => exact Leads.bind lives_peek fun v => lives_storeVariable hfall _
  | storeProperty => exact lives_storeProperty hfall _
  | @fetchVariable name => exact lives_fetch hfall htab name .variable
  | @fetchProperty name => exact lives_fetch hfall htab name .property
  | @fetchCallee name argc => exact lives_fetch hfall htab name (.callVariable argc)
  | @fetchMethod name argc => exact lives_fetch hfall htab name (.callProperty argc)
  | loopStart => exact lives_loopStart hfall
  | loopEnd =>
    refine Leads.bind lives_popSlot fun slot => ?_
    cases slot with
    | loopMarker _ => exact lives_falls hfall (Leads.pure fun s hs => hs.2 rfl)
    | _ => exact fun s hs => hs.1
  | enterTry h => exact lives_enterTry hfall h
  | leaveTry =>
    refine Leads.bind lives_popSlot fun slot => ?_
    cases slot with
    | tryRegion _ => exact lives_falls hfall (Leads.pure fun s hs => hs.2 rfl)
    | _ => exact fun s hs => hs.1
  | throw => exact Leads.bind lives_pop fun v => lives_throwValue
  | createObject => exact lives_createObject hfall htab _
  | makeArray => exact lives_makeArray hfall _

/-! ## calls -/

/-- the result of a call is already there -/
theorem lives_callDone (hfall : (T loc).depth = d) (bound : Bool) :
    Leads linked (Lives linked T blocks f fs loc d hands) (do
      if bound then
        let result ← pop
        let _ ← pop
        push result) (fun _ => Remains linked T blocks (f :: fs)) (FailsSane linked) := by
  cases bound with
  | false => exact lives_falls hfall (Leads.pure fun s hs => hs)
  | true =>
    refine Leads.bind lives_pop fun result => Leads.bind lives_pop fun _ => ?_
    exact Leads.since (fun s hs => hs.keep (List.subset_cons_self _ _)) (lives_give hfall)

/-- a function of the host is called -/
theorem lives_callHost (htab : Tabled linked.program) (hfall : (T loc).depth = d) (name : String)
    (argc : Nat) (bound : Bool) :
    Leads linked (Lives linked T blocks f fs loc d hands) (do
      let args ← popValues argc
      if bound then
        let _ ← pop
      match ← callNative name args with
      | .ok result => push result
      | .error thrown => throwValue thrown)
      (fun _ => Remains linked T blocks (f :: fs)) (FailsSane linked) := by
  have hcall {hands : List Value} (args : List Value) :
      Leads linked (Lives linked T blocks f fs loc d hands) (do
        match ← callNative name args with
        | .ok result => push result
        | .error thrown => throwValue thrown)
        (fun _ => Remains linked T blocks (f :: fs)) (FailsSane linked) :=
    Leads.bind (lives_callNative htab name args) (lives_either hfall fun _ => lives_push)
  refine Leads.bind (lives_popValues argc) fun args => ?_
  cases bound with
  | false => exact hcall args
  | true => exact Leads.bind lives_pop fun _ => hcall args

/-- a call of what is no function of the program stays in the frame -/
theorem lives_callOther (htab : Tabled linked.program) (hfall : (T loc).depth = d) (argc : Nat)
    (bound : Bool) :
    Leads linked
      (fun s => (∀ index, s.stack.slots.head? ≠ some (.value (.function index)))
        ∧ Lives linked T blocks f fs loc d [] s)
      (callValue argc bound) (fun _ => Remains linked T blocks (f :: fs)) (FailsSane linked) := by
  have hpop : Leads linked
      (fun s => (∀ index, s.stack.slots.head? ≠ some (.value (.function index)))
        ∧ Lives linked T blocks f fs loc d [] s) popSlot
      (fun slot s => (∀ index, slot ≠ .value (.function index)) ∧ Sane linked s.heap
        ∧ (slot.isOwn = true → Lives linked T blocks f fs loc d (slot.values ++ []) s))
      (FailsSane linked) := by
    rintro ⟨at_, env, ⟨slots, depth, hdepth⟩, heap, events⟩ ⟨htop, hs⟩
    have hlives := lives_popSlot _ hs
    cases slots with
    | nil => exact hlives
    | cons slot slots => exact ⟨fun index heq => htop index (congrArg some heq), hlives⟩
  refine Leads.bind hpop fun slot => Leads.of_fact fun hslot => ?_
  cases slot with
  | nativeResult => exact Leads.since (fun s hs => hs.2 rfl) (lives_callDone hfall bound)
  | value v =>
    refine Leads.since (fun s hs => hs.2 rfl) ?_
    cases v with
    | function index => exact absurd rfl (hslot index)
    | native name => exact lives_callHost htab hfall name argc bound
    | _ => exact Leads.get fun s _ => lives_throwData rfl
  | _ => exact fun s hs => hs.1

end Exec

end

end ScriptMachine
