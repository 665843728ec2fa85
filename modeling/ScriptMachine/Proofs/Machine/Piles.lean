import ScriptMachine.Proofs.Machine.Countable

/-!
# Counting the values of running frames

In a countable program every frame holds as many values as the check counts, down to the frames of the
callers, and so does what is below the markers of loops and regions.

* `Piled`               a stack whose frames, loops and regions all hold what the check counts;
* `Piled.caught`, `Piled.returns`, `Piled.exits`   what unwinding leaves is such a stack again;
* `Tallied`             the states of runs of countable programs;
* `Now`                 a state between the steps of an instruction;
* `Excused`             failures for too few values that markers are to blame for;
* `kept_dispatch`       one instruction.
-/

namespace ScriptMachine

/-! ## stacks -/

section
variable (program : Program) (table : LabelTable)

/-- A stack whose running frame is of section `i`, holds `n` values and stands inside `loops`.  Where a
region catches and where a call returns to, the check counts one value more than is below. -/
inductive Piled (hosted : Bool) : Nat → List Nat → Nat → List Slot → Prop
  | main (h : hosted = false) : Piled hosted i [] 0 []
  | host {site : CallSite} (h : hosted = true) (hsite : site.fromHost = true) :
    Piled hosted i [] 0 (.callSite site :: below)
  | call {site : CallSite} (hsite : site.fromHost = false)
      (hat : Meets program table site.caller loops (n + 1))
      (h : Piled hosted site.caller.sectionIndex loops n below) :
    Piled hosted i [] 0 (.callSite site :: below)
  | value (h : Piled hosted i loops n below) : Piled hosted i loops (n + 1) (.value v :: below)
  | loop (h : Piled hosted i loops n below) :
    Piled hosted i (n :: loops) n (.loopMarker env :: below)
  | guard {region : TryRegion} (hi : region.handler.sectionIndex = i)
      (hat : Meets program table region.handler loops (n + 1))
      (h : Piled hosted i loops n below) : Piled hosted i loops n (.tryRegion region :: below)

/-- A state of a run.  Its frame holds what the check counts, or the next instruction is a call whose
result is there in place of the callee and its arguments. -/
def Tallied (hosted : Bool) (s : State) : Prop :=
  ∃ loops n, Meets program table s.location loops n
    ∧ (Piled program table hosted s.location.sectionIndex loops n s.stack.slots
      ∨ ∃ argc k rest, CallBehind program s.location argc ∧ k + argc = n
        ∧ s.stack.slots = .nativeResult :: rest
        ∧ Piled program table hosted s.location.sectionIndex loops k rest)

end

/-! ## unwinding -/

namespace Piled

variable {program : Program} {table : LabelTable} {hosted : Bool} {i n : Nat} {loops : List Nat}
  {slots : List Slot}

/-- a region that catches has its handler where one value more is counted -/
theorem caught (h : Piled program table hosted i loops n slots) {region : TryRegion} {rest : Stack}
    (hcaught : (Stack.of slots).unwindThrow = .caught region rest) :
    ∃ loops' n', Meets program table region.handler loops' (n' + 1)
      ∧ Piled program table hosted region.handler.sectionIndex loops' n' rest.slots := by
  induction h with
  | main _ => cases hcaught
  | host _ hsite =>
    rw [Stack.unwindThrow_site, if_pos hsite] at hcaught
    cases hcaught
  | call hsite _ _ ih =>
    rw [Stack.unwindThrow_site, if_neg (by rw [hsite]; exact Bool.false_ne_true)] at hcaught
    exact ih (Unwound.of_through hcaught)
  | value _ ih | loop _ ih => exact ih hcaught
  | guard hi hat h _ =>
    cases hcaught
    subst hi
    exact ⟨_, _, hat, h⟩

/-- a call returns to where one value more is counted, or to the host -/
theorem returns (h : Piled program table hosted i loops n slots) {site : CallSite} {rest : Stack}
    (hunwind : (Stack.of slots).unwind Exec.callSite? = some (site, rest)) :
    (site.fromHost = true ∧ hosted = true)
      ∨ site.fromHost = false ∧ ∃ loops' n', Meets program table site.caller loops' (n' + 1)
        ∧ Piled program table hosted site.caller.sectionIndex loops' n' rest.slots := by
  induction h with
  | main _ => cases hunwind
  | host hhost hsite =>
    cases hunwind
    exact .inl ⟨hsite, hhost⟩
  | call hsite hat h _ =>
    cases hunwind
    exact .inr ⟨hsite, _, _, hat, h⟩
  | value _ ih | loop _ ih | guard _ _ _ ih => exact ih hunwind

/-- the innermost loop is the first one around -/
theorem exits (h : Piled program table hosted i loops n slots) {env : EnvId} {rest : Stack}
    (hunwind : (Stack.of slots).unwind Exec.loopMarker? = some (some env, rest)) :
    ∃ k loops', loops = k :: loops' ∧ Piled program table hosted i loops' k rest.slots := by
  induction h with
  | main _ | host _ _ | call _ _ _ _ => cases hunwind
  | value _ ih | guard _ _ _ ih => exact ih hunwind
  | loop h _ =>
    cases hunwind
    exact ⟨_, _, rfl, h⟩

/-- the values of the running frame -/
theorem tally_frame (h : Piled program table hosted i loops n slots) :
    tally (Stack.of slots).frame = n := by
  show tally (slots.takeWhile fun slot => (Exec.callSite? slot).isNone) = n
  induction h with
  | main _ | host _ _ | call _ _ _ _ => rfl
  | value _ ih | loop _ ih | guard _ _ _ ih =>
    rw [List.takeWhile_cons_of_pos rfl]
    simp [ih]

end Piled

/-! ## steps -/

/-- there were too few values for the instruction -/
def RuntimeError.isShort : RuntimeError → Bool
  | .defect .stackUnderflow _ => true
  | .defect (.pickedNoValue _) _ => true
  | _ => false

/-- a failure that is not for too few values -/
def Mild (e : RuntimeError) (_ : State) : Prop := e.isShort = false

/-- the state is at `loc`, and its running frame holds `n` values inside `loops` -/
structure Now (program : Program) (table : LabelTable) (hosted : Bool) (loc : Location)
    (loops : List Nat) (n : Nat) (s : State) : Prop where
  location : s.location = loc
  piled : Piled program table hosted loc.sectionIndex loops n s.stack.slots

/-- a frame with what the check counts at its place -/
theorem Now.tallied {program : Program} {table : LabelTable} {hosted : Bool} {loc : Location}
    {loops : List Nat} {n : Nat} {s : State} (hs : Now program table hosted loc loops n s)
    (hat : Meets program table loc loops n) : Tallied program table hosted s := by
  obtain ⟨rfl, hpiled⟩ := hs
  exact ⟨loops, n, hat, .inl hpiled⟩

namespace Exec

section
variable {α : Type} {linked : Linked} {program : Program} {table : LabelTable} {hosted : Bool}
  {loc : Location} {loops : List Nat} {n : Nat}

theorem counts_fail {P : State → Prop} {Q : α → State → Prop} (cause : Defect)
    (hcause : ∀ at_, (RuntimeError.defect cause at_).isShort = false) :
    Leads linked P (fail cause : Exec α) Q Mild := fun _ _ => hcause _

/-- the entry on top is a value or a marker, never the mark of a result -/
theorem counts_popSlot : Leads linked (Now program table hosted loc loops (n + 1)) popSlot
    (fun slot s => match slot with
      | .value _ => Now program table hosted loc loops n s
      | .nativeResult => False
      | _ => True) Mild := by
  rintro ⟨_, env, ⟨slots, depth, hdepth⟩, heap, events⟩ ⟨rfl, hpiled⟩
  cases hpiled with
  | value h => exact ⟨rfl, h⟩
  | loop _ | guard _ _ _ => exact trivial

theorem counts_pop : Leads linked (Now program table hosted loc loops (n + 1)) pop
    (fun _ => Now program table hosted loc loops n) Mild := by
  refine Leads.bind counts_popSlot fun slot => ?_
  cases slot with
  | value v => exact Leads.pure fun s hs => hs
  | _ => exact counts_fail _ fun _ => rfl

theorem counts_popValues (k : Nat) :
    Leads linked (Now program table hosted loc loops (n + k)) (popValues k)
      (fun _ => Now program table hosted loc loops n) Mild := by
  induction k with
  | zero => exact Leads.pure fun s hs => hs
  | succ k ih =>
    refine Leads.bind counts_pop fun v => Leads.bind ih fun vs => ?_
    exact Leads.pure fun s hs => hs

theorem counts_peek : Leads linked (Now program table hosted loc loops (n + 1)) peek
    (fun _ => Now program table hosted loc loops (n + 1)) Mild := by
  rintro ⟨_, env, ⟨slots, depth, hdepth⟩, heap, events⟩ ⟨rfl, hpiled⟩
  cases hpiled with
  | value h => exact ⟨rfl, .value h⟩
  | loop _ | guard _ _ _ => exact rfl

theorem counts_push (v : Value) : Leads linked (Now program table hosted loc loops n) (push v)
    (fun _ => Now program table hosted loc loops (n + 1)) Mild :=
  fun _ hs => ⟨hs.location, .value hs.piled⟩

theorem counts_setEnv (env : EnvId) :
    Leads linked (Now program table hosted loc loops n) (setEnv env)
      (fun _ => Now program table hosted loc loops n) Mild := fun _ hs => ⟨hs.location, hs.piled⟩

theorem counts_modifyHeap (f : Heap → Heap) :
    Leads linked (Now program table hosted loc loops n) (modifyHeap f)
      (fun _ => Now program table hosted loc loops n) Mild := fun _ hs => ⟨hs.location, hs.piled⟩

theorem counts_onHeap (f : Heap → α × Heap) :
    Leads linked (Now program table hosted loc loops n) (onHeap f)
      (fun _ => Now program table hosted loc loops n) Mild := fun _ hs => ⟨hs.location, hs.piled⟩

theorem counts_note (event : Event) :
    Leads linked (Now program table hosted loc loops n) (note event)
      (fun _ => Now program table hosted loc loops n) Mild := fun _ hs => ⟨hs.location, hs.piled⟩

theorem counts_callNative (name : String) (args : List Value) :
    Leads linked (Now program table hosted loc loops n) (callNative name args)
      (fun _ => Now program table hosted loc loops n) Mild := by
  have hfrom (v : HostValue) : Leads linked (Now program table hosted loc loops n) (fromHost v)
      (fun _ => Now program table hosted loc loops n) Mild := Leads.read (counts_onHeap _)
  refine Leads.read ?_
  split
  · refine Leads.get fun s _ => Leads.bind (counts_note _) fun _ => ?_
    split
    · exact Leads.bind (hfrom _) fun v => Leads.pure fun s hs => hs
    · exact Leads.bind (hfrom _) fun v => Leads.pure fun s hs => hs
  · split
    · refine Leads.get fun s _ => Leads.bind (counts_note _) fun _ => ?_
      exact Leads.pure fun s hs => hs
    · exact Leads.pure fun s hs => hs

theorem counts_resolve {l : Label} {target : Location}
    (hl : linked.labels.resolve? l = some target) :
    Leads linked (Now program table hosted loc loops n) (resolve l)
      (fun at_ s => at_ = target ∧ Now program table hosted loc loops n s) Mild := by
  refine Leads.read ?_
  rw [hl]
  exact Leads.pure fun s hs => ⟨rfl, hs⟩

theorem counts_jump {l : Label} {target : Location} (hl : linked.labels.resolve? l = some target)
    (hi : target.sectionIndex = loc.sectionIndex) :
    Leads linked (Now program table hosted loc loops n) (jump l)
      (fun _ => Now program table hosted target loops n) Mild := by
  refine Leads.bind (counts_resolve hl) fun _ => Leads.of_fact fun hat s hs => ⟨hat, ?_⟩
  rw [hi]
  exact hs.piled

/-- a thrown value goes on where one value more is counted -/
theorem counts_throwValue (v : Value) :
    Leads linked (Now program table hosted loc loops n) (throwValue v)
      (fun _ => Tallied program table hosted) Mild := by
  rintro s ⟨rfl, hpiled⟩
  rw [throwValue_eq]
  cases hunwind : s.stack.unwindThrow with
  | caught region rest =>
    rw [s.stack.eq_of] at hunwind
    obtain ⟨loops', n', hat, hrest⟩ := hpiled.caught hunwind
    exact ⟨loops', n' + 1, hat, .inl (.value hrest)⟩
  | reachedHost site callers rest => exact rfl
  | uncaught callers => exact rfl

theorem counts_either (hat : Meets program table loc loops (n + 1)) (r : Except Value Value) :
    Leads linked (Now program table hosted loc loops n) (match r with
      | .ok result => push result
      | .error thrown => throwValue thrown) (fun _ => Tallied program table hosted) Mild := by
  cases r with
  | ok v => exact (counts_push v).weaken fun _ s hs => hs.tallied hat
  | error v => exact counts_throwValue v

/-- the result of a call that is already made, in place of the callee and its arguments -/
theorem counts_eitherResult {argc : Nat} (hcall : CallBehind program loc argc)
    (hat : Meets program table loc loops (n + 1 + argc)) (r : Except Value Value) :
    Leads linked (Now program table hosted loc loops n) (match r with
      | .ok result => pushResult result
      | .error thrown => throwValue thrown) (fun _ => Tallied program table hosted) Mild := by
  cases r with
  | ok v =>
    rintro s ⟨rfl, hpiled⟩
    exact ⟨loops, _, hat, .inr ⟨argc, n + 1, _, hcall, rfl, rfl, .value hpiled⟩⟩
  | error v => exact counts_throwValue v

/-- a function starts without values, and returns where one value more is counted -/
theorem counts_enterFunction (h : program.Entered table) (hlinked : linked.Of program table)
    (hat : Meets program table loc loops (n + 1)) (index : Nat) (args : List Value)
    (receiver : Option Value) :
    Leads linked (Now program table hosted loc loops n) (enterFunction index args receiver false)
      (fun _ => Tallied program table hosted) Mild := by
  rintro s ⟨rfl, hpiled⟩
  cases hentry : linked.program.functions[index]? with
  | none =>
    rw [enterFunction_none hentry]
    exact rfl
  | some entry =>
    rw [enterFunction_eq hentry]
    rw [hlinked.program] at hentry
    exact ⟨[], 0, .start h.accepted (h.body_lt hentry), .inl (.call rfl hat hpiled)⟩

end

/-! ## instructions -/

section
variable {linked : Linked} {program : Program} {table : LabelTable} {hosted : Bool} {i pc k : Nat}
  {loops : List Nat} {op : Op}

/-- a step that goes on behind itself -/
theorem counts_falls {α : Type} {x : Exec α} {P : State → Prop}
    (h : Due linked program table i pc op loops k) (hgo : op.isTerminator = false)
    (hstart : op ≠ .loopStart) (hend : op ≠ .loopEnd)
    (hx : Leads linked P x (fun _ => Now program table hosted ⟨i, pc + 1⟩ loops (k + op.leaves))
      Mild) : Leads linked P x (fun _ => Tallied program table hosted) Mild :=
  hx.weaken fun _ _ hs => hs.tallied (h.next hgo hstart hend)

theorem counts_jumpIf (test : Value → Bool) {l : Label} (hgo : op.isTerminator = false)
    (htakes : op.takes = 1) (hleaves : op.leaves = 0) (hjump : op.jump? = some (l, 0))
    (h : Due linked program table i pc op loops k) :
    Leads linked (Now program table hosted ⟨i, pc + 1⟩ loops (k + op.takes))
      (do if test (← pop) then jump l) (fun _ => Tallied program table hosted) Mild := by
  obtain ⟨pc', hl⟩ := h.lands (Op.jumpTarget?_of_jump? hjump)
  have hthere := h.jump hjump hl
  rw [hleaves] at hthere
  rw [htakes]
  refine Leads.bind counts_pop fun v => ?_
  split
  · exact Leads.weaken (counts_jump hl (by rfl)) fun _ _ hs => hs.tallied hthere
  · refine counts_falls h hgo ?_ ?_ (Leads.pure fun s hs => ?_)
    · rintro rfl
      cases hjump
    · rintro rfl
      cases hjump
    · rw [hleaves]
      exact hs

theorem counts_fetchMethod (target : Value) (name : String) {argc : Nat}
    (hcall : CallBehind program ⟨i, pc + 1⟩ argc)
    (hat : Meets program table ⟨i, pc + 1⟩ loops (k + argc + 1)) :
    Leads linked (Now program table hosted ⟨i, pc + 1⟩ loops (k + argc)) (fetchMethod target name argc)
      (fun _ => Tallied program table hosted) Mild := by
  refine Leads.get fun s _ => ?_
  split
  · exact (counts_push _).weaken fun _ _ hs => hs.tallied hat
  · exact counts_throwValue _
  · exact Leads.bind (counts_popValues argc) fun _ => counts_throwValue _
  · refine Leads.bind (counts_popValues argc) fun args => Leads.bind (counts_onHeap _) fun r => ?_
    refine counts_eitherResult hcall ?_ r
    rwa [Nat.add_right_comm]

theorem counts_fetch (name : String) (access : Access)
    (h : Due linked program table i pc (.fetch name access) loops k) :
    Leads linked (Now program table hosted ⟨i, pc + 1⟩ loops (k + (Op.fetch name access).takes))
      (fetch name access) (fun _ => Tallied program table hosted) Mild := by
  refine Leads.read ?_
  match access with
  | .variable =>
    refine Leads.get fun s _ => ?_
    split <;> exact counts_falls h rfl nofun nofun (counts_push _)
  | .callVariable argc =>
    obtain ⟨hcall, hnext, hargc⟩ := h.callBehind rfl
    obtain ⟨k, rfl⟩ := Nat.exists_eq_add_of_le' hargc
    refine Leads.get fun s _ => ?_
    split
    · exact (counts_push _).weaken fun _ _ hs => hs.tallied hnext
    · split
      · refine Leads.bind (counts_popValues argc) fun args => ?_
        refine Leads.bind (counts_callNative name args) fun r => counts_eitherResult hcall ?_ r
        rwa [Nat.add_right_comm]
      · exact counts_throwValue _
  | .property =>
    refine Leads.bind counts_pop fun target => Leads.get fun s _ => ?_
    exact counts_either (h.next rfl nofun nofun) _
  | .callProperty argc =>
    obtain ⟨hcall, hnext, hargc⟩ := h.callBehind rfl
    obtain ⟨k, rfl⟩ := Nat.exists_eq_add_of_le' hargc
    exact Leads.bind counts_pop fun target => counts_fetchMethod target name hcall hnext

/-! ### calls -/

/-- a call that finds its callee and its arguments -/
theorem counts_callValue (argc : Nat) (bound : Bool)
    (h : Due linked program table i pc (.call argc bound) loops k) :
    Leads linked (Now program table hosted ⟨i, pc + 1⟩ loops (k + (Op.call argc bound).takes))
      (callValue argc bound) (fun _ => Tallied program table hosted) Mild := by
  have hnext : Meets program table ⟨i, pc + 1⟩ loops (k + 1) := h.next rfl nofun nofun
  have htakes : k + (Op.call argc bound).takes = k + (if bound then 1 else 0) + argc + 1 := by
    show k + (argc + 1 + if bound then 1 else 0) = _
    omega
  rw [htakes]
  refine Leads.bind counts_popSlot fun slot => ?_
  cases slot with
  | nativeResult => exact fun s hs => hs.elim
  | callSite _ | tryRegion _ | loopMarker _ => exact counts_fail _ fun _ => rfl
  | value v =>
    cases v with
    | function index =>
      refine Leads.bind (counts_popValues argc) fun args => ?_
      cases bound with
      | false => exact counts_enterFunction h.entered h.linked hnext index args none
      | true =>
        refine Leads.bind (counts_pop.map some) fun receiver => ?_
        rintro s ⟨_, -, hs⟩
        exact counts_enterFunction h.entered h.linked hnext index args receiver s hs
    | native name =>
      refine Leads.bind (counts_popValues argc) fun args => ?_
      cases bound with
      | false => exact Leads.bind (counts_callNative name args) fun r => counts_either hnext r
      | true =>
        refine Leads.bind counts_pop fun _ => ?_
        exact Leads.bind (counts_callNative name args) fun r => counts_either hnext r
    | _ => exact Leads.get fun s _ => counts_throwValue _

/-- a call that is already made keeps its result and drops the receiver -/
theorem counts_callResult (argc : Nat) (bound : Bool)
    (h : Due linked program table i pc (.call argc bound) loops k) :
    Leads linked (fun s => s.location = ⟨i, pc + 1⟩ ∧ ∃ rest, s.stack.slots = .nativeResult :: rest
        ∧ Piled program table hosted i loops (k + 1 + (if bound then 1 else 0)) rest)
      (callValue argc bound) (fun _ => Tallied program table hosted) Mild := by
  have hpop : Leads linked
      (fun s => s.location = ⟨i, pc + 1⟩ ∧ ∃ rest, s.stack.slots = .nativeResult :: rest
        ∧ Piled program table hosted i loops (k + 1 + (if bound then 1 else 0)) rest) popSlot
      (fun slot s => slot = .nativeResult
        ∧ Now program table hosted ⟨i, pc + 1⟩ loops (k + 1 + (if bound then 1 else 0)) s) Mild := by
    rintro ⟨_, env, ⟨slots, depth, hdepth⟩, heap, events⟩ ⟨rfl, rest, rfl, hpiled⟩
    exact ⟨rfl, rfl, hpiled⟩
  refine Leads.bind hpop fun slot => Leads.of_fact fun hslot => ?_
  subst hslot
  refine counts_falls h rfl nofun nofun ?_
  cases bound with
  | false => exact Leads.pure fun s hs => hs
  | true =>
    refine Leads.bind counts_pop fun result => Leads.bind counts_pop fun _ => ?_
    exact counts_push result

/-! ### loops, regions and objects -/

theorem counts_loopExit (target : Option Label)
    (h : Due linked program table i pc (.loopExit target) loops k) :
    Leads linked (Now program table hosted ⟨i, pc + 1⟩ loops k) (loopExit target)
      (fun _ => Tallied program table hosted) Mild := by
  intro s hs
  rw [loopExit_result]
  cases hunwind : s.stack.unwind loopMarker? with
  | none => exact rfl
  | some found =>
    obtain ⟨_ | env, rest⟩ := found
    · exact rfl
    · rw [s.stack.eq_of] at hunwind
      obtain ⟨n, loops', rfl, hrest⟩ := hs.piled.exits hunwind
      have hnow : Now program table hosted ⟨i, pc + 1⟩ (n :: loops') n
          { s with env := env, stack := rest.push (.loopMarker env) } := ⟨hs.location, .loop hrest⟩
      cases target with
      | none => exact hnow.tallied (h.loopExit rfl)
      | some l =>
        obtain ⟨pc', hl⟩ := h.lands rfl
        have hjump : Leads linked (Now program table hosted ⟨i, pc + 1⟩ (n :: loops') n) (jump l)
            (fun _ => Tallied program table hosted) Mild :=
          Leads.weaken (counts_jump hl (by rfl)) fun _ _ hs => hs.tallied (h.loopExit hl)
        exact hjump _ hnow

theorem counts_storeProperty (name : String)
    (h : Due linked program table i pc (.store name true) loops k) :
    Leads linked (Now program table hosted ⟨i, pc + 1⟩ loops (k + 2)) (storeProperty name)
      (fun _ => Tallied program table hosted) Mild := by
  refine Leads.bind counts_pop fun v => Leads.bind counts_pop fun target => ?_
  cases target with
  | object env =>
    refine counts_falls h rfl nofun nofun ?_
    exact Leads.bind (counts_modifyHeap _) fun _ => counts_push v
  | _ => exact counts_throwValue _

theorem counts_createObject (className : String)
    (h : Due linked program table i pc (.createObject className) loops k) :
    Leads linked (Now program table hosted ⟨i, pc + 1⟩ loops k) (createObject className)
      (fun _ => Tallied program table hosted) Mild := by
  refine Leads.read ?_
  split
  · exact counts_throwValue _
  · refine counts_falls h rfl nofun nofun (Leads.bind (counts_onHeap _) fun env => ?_)
    exact Leads.bind (counts_modifyHeap _) fun _ => counts_push _

/-! ### all instructions -/

/-- An instruction that does not take a marker off the stack, and does not stop the run. -/
theorem counts_perform (h : Due linked program table i pc op loops k) (hpick : ∀ n, op ≠ .pick n)
    (hloop : op ≠ .loopEnd) (htry : op ≠ .leaveTry) (hret : op ≠ .ret) (hhalt : op ≠ .halt) :
    Leads linked (Now program table hosted ⟨i, pc + 1⟩ loops (k + op.takes)) (perform op)
      (fun _ => Tallied program table hosted) Mild := by
  have hfalls {α : Type} {x : Exec α} {P : State → Prop} (hgo : op.isTerminator = false)
      (hstart : op ≠ .loopStart)
      (hx : Leads linked P x (fun _ => Now program table hosted ⟨i, pc + 1⟩ loops (k + op.leaves))
        Mild) : Leads linked P x (fun _ => Tallied program table hosted) Mild :=
    counts_falls h hgo hstart hloop hx
  cases op with
  | ret => exact absurd rfl hret
  | halt => exact absurd rfl hhalt
  | pick n => exact absurd rfl (hpick n)
  | loopEnd => exact absurd rfl hloop
  | leaveTry => exact absurd rfl htry
  | nop | label _ | debugger => exact hfalls rfl nofun (Leads.pure fun s hs => hs)
  | const index =>
    refine Leads.read ?_
    split
    · exact hfalls rfl nofun (counts_push _)
    · exact counts_fail _ fun _ => rfl
  | pop => exact hfalls rfl nofun (Leads.bind counts_pop fun _ => Leads.pure fun s hs => hs)
  | dup => exact hfalls rfl nofun (Leads.bind counts_peek fun v => counts_push v)
  | binary op =>
    refine Leads.bind counts_pop fun b => Leads.bind counts_pop fun a => Leads.get fun s _ => ?_
    exact hfalls rfl nofun (counts_push _)
  | neg => exact hfalls rfl nofun (Leads.bind counts_pop fun v => counts_push _)
  | not => exact hfalls rfl nofun (Leads.bind counts_pop fun v => counts_push _)
  | jump l =>
    obtain ⟨pc', hl⟩ := h.lands rfl
    exact Leads.weaken (counts_jump hl (by rfl)) fun _ _ hs => hs.tallied (h.jump rfl hl)
  | jumpFalse l => exact counts_jumpIf (fun v => !v.isTruthy) rfl rfl rfl rfl h
  | jumpTrue l => exact counts_jumpIf Value.isTruthy rfl rfl rfl rfl h
  | enterScope =>
    refine Leads.get fun s _ => hfalls rfl nofun ?_
    exact Leads.bind (counts_onHeap _) fun scope => counts_setEnv scope
  | leaveScope =>
    refine Leads.get fun s _ => ?_
    split
    · exact hfalls rfl nofun (counts_setEnv _)
    · exact counts_fail _ fun _ => rfl
  | declare name => exact Leads.get fun s _ => hfalls rfl nofun (counts_modifyHeap _)
  | store name property =>
    cases property with
    | true => exact counts_storeProperty name h
    | false =>
      refine hfalls rfl nofun (Leads.bind counts_peek fun v => ?_)
      exact fun s hs => ⟨hs.location, hs.piled⟩
  | fetch name access => exact counts_fetch name access h
  | call argc bound => exact counts_callValue argc bound h
  | loopStart =>
    refine Leads.get fun s _ s' hs => ?_
    exact Now.tallied ⟨hs.location, .loop hs.piled⟩ h.loopStart
  | loopExit target => exact counts_loopExit target h
  | enterTry l =>
    obtain ⟨pc', hl⟩ := h.lands rfl
    refine Leads.bind (counts_resolve hl) fun handler => Leads.of_fact fun hhandler => ?_
    subst hhandler
    refine Leads.get fun s _ => hfalls rfl nofun fun s hs => ⟨hs.location, ?_⟩
    exact .guard rfl (h.jump rfl hl) hs.piled
  | throw => exact Leads.bind counts_pop fun v => counts_throwValue v
  | createObject className => exact counts_createObject className h
  | makeArray size =>
    refine Leads.bind (counts_popValues size) fun items => ?_
    exact hfalls rfl nofun (Leads.bind (counts_onHeap _) fun id => counts_push _)

end

end Exec

/-! ## failures for too few values -/

def Op.endsMarker : Op → Bool
  | loopEnd | leaveTry => true
  | _ => false

/-- A failure of `op` for too few values, which can only be because of markers: it wants one and the
stack is empty, or it picks an entry of its frame that is one. -/
def Excused (op : Op) (at_ : Location) (st : Stack) : RuntimeError → Prop
  | .defect .stackUnderflow loc => loc = at_ ∧ op.endsMarker = true ∧ st.slots = []
  | .defect (.pickedNoValue n) loc =>
    loc = at_ ∧ op = .pick n ∧ ∃ slot, st.frame[n]? = some slot ∧ slot.isValue = false
  | _ => True

theorem Excused.of_mild {op : Op} {at_ : Location} {st : Stack} {e : RuntimeError} {s : State}
    (h : Mild e s) : Excused op at_ st e := by
  cases e with
  | defect cause _ =>
    cases cause with
    | stackUnderflow | pickedNoValue _ => cases h
    | _ => trivial
  | _ => trivial

section
variable {linked : Linked} {program : Program} {table : LabelTable} {hosted : Bool} {i pc k : Nat}
  {loops : List Nat} {op : Op} {s : State}

/-- a frame reaches as far down as there are values in it -/
theorem Piled.frame_get {n : Nat} {slots : List Slot}
    (h : Piled program table hosted i loops (k + (n + 1)) slots) :
    ∃ slot, (Stack.of slots).frame[n]? = some slot ∧ slots[n]? = some slot := by
  have hlt : n < (Stack.of slots).frame.length := by
    have htally := h.tally_frame
    have hle : tally (Stack.of slots).frame ≤ (Stack.of slots).frame.length := List.countP_le_length
    omega
  exact ⟨_, List.getElem?_eq_getElem hlt,
    List.prefix_iff_getElem?.mp (List.takeWhile_prefix _) n hlt⟩

/-- an entry that is picked in vain is no value -/
theorem Stack.pick?_eq_none {st : Stack} {n : Nat} {slot : Slot} (hget : st.slots[n]? = some slot)
    (h : st.pick? n = none) : slot.isValue = false := by
  unfold pick? at h
  rw [hget] at h
  cases slot with
  | value _ => cases h
  | _ => rfl

theorem excused_pick {n : Nat} (h : Due linked program table i pc (.pick n) loops k)
    (hs : Now program table hosted ⟨i, pc + 1⟩ loops (k + (n + 1)) s) :
    Leads linked (· = s) (Exec.perform (.pick n)) (fun _ => Tallied program table hosted)
      fun e _ => Excused (.pick n) ⟨i, pc⟩ s.stack e := by
  obtain ⟨slot, hframe, hget⟩ := hs.piled.frame_get
  rw [← s.stack.eq_of] at hframe
  refine Leads.get fun s' hs' => ?_
  subst hs'
  split
  · rintro _ rfl
    exact Now.tallied ⟨hs.location, .value hs.piled⟩ (h.next rfl nofun nofun)
  · next hnone =>
    rintro _ rfl
    refine ⟨?_, rfl, slot, hframe, Stack.pick?_eq_none hget hnone⟩
    rw [hs.location]
    rfl

theorem excused_loopEnd (h : Due linked program table i pc .loopEnd loops k)
    (hs : Now program table hosted ⟨i, pc + 1⟩ loops k s) :
    Leads linked (· = s) (Exec.perform .loopEnd) (fun _ => Tallied program table hosted)
      fun e _ => Excused .loopEnd ⟨i, pc⟩ s.stack e := by
  obtain ⟨_, env, ⟨slots, depth, hdepth⟩, heap, events⟩ := s
  obtain ⟨rfl, hpiled⟩ := hs
  rintro _ rfl
  cases hpiled with
  | main _ => exact ⟨rfl, rfl, rfl⟩
  | host _ _ | call _ _ _ | value _ | guard _ _ _ => exact trivial
  | loop hbelow => exact Now.tallied ⟨rfl, hbelow⟩ h.loopEnd

theorem excused_leaveTry (h : Due linked program table i pc .leaveTry loops k)
    (hs : Now program table hosted ⟨i, pc + 1⟩ loops k s) :
    Leads linked (· = s) (Exec.perform .leaveTry) (fun _ => Tallied program table hosted)
      fun e _ => Excused .leaveTry ⟨i, pc⟩ s.stack e := by
  obtain ⟨_, env, ⟨slots, depth, hdepth⟩, heap, events⟩ := s
  obtain ⟨rfl, hpiled⟩ := hs
  rintro _ rfl
  cases hpiled with
  | main _ => exact ⟨rfl, rfl, rfl⟩
  | host _ _ | call _ _ _ | value _ | loop _ => exact trivial
  | guard _ _ hbelow => exact Now.tallied ⟨rfl, hbelow⟩ (h.next rfl nofun nofun)

/-- a value returns to where one value more is counted -/
theorem kept_ret (hs : Now program table hosted ⟨i, pc + 1⟩ loops (k + 1) s) :
    Kept (Tallied program table) (fun _ => True) (Excused .ret ⟨i, pc⟩ s.stack) hosted
      (Exec.dispatch .ret linked s) := by
  rw [Exec.dispatch_ret, Exec.returnFromCall_eq]
  have hpop : Leads linked (Now program table hosted ⟨i, pc + 1⟩ loops (k + 1)) Exec.pop
    (fun _ => Now program table hosted ⟨i, pc + 1⟩ loops k) Mild := Exec.counts_pop
  replace hpop := hpop s hs
  cases hr : Exec.pop linked s with
  | error e s' =>
    rw [hr] at hpop
    exact .of_mild hpop
  | ok v s' =>
    rw [hr] at hpop
    dsimp only
    cases hunwind : s'.stack.unwind Exec.callSite? with
    | none => exact trivial
    | some found =>
      obtain ⟨site, rest⟩ := found
      rw [s'.stack.eq_of] at hunwind
      show Kept _ _ _ hosted (.ok (if site.fromHost then .hostReturn else .proceed) _)
      rcases hpop.piled.returns hunwind with ⟨hsite, hhosted⟩ | ⟨hsite, loops', n, hat, hrest⟩
      · rw [if_pos hsite]
        exact hhosted
      · rw [if_neg (by rw [hsite]; exact Bool.false_ne_true)]
        exact ⟨loops', n + 1, hat, .inl (.value hrest)⟩

/-- the state in which an instruction starts, the place already behind it -/
def Starts (program : Program) (table : LabelTable) (hosted : Bool) (i pc : Nat) (op : Op)
    (loops : List Nat) (k : Nat) (s : State) : Prop :=
  Now program table hosted ⟨i, pc + 1⟩ loops (k + op.takes) s
    ∨ ∃ argc bound rest, op = .call argc bound ∧ s.location = ⟨i, pc + 1⟩
      ∧ s.stack.slots = .nativeResult :: rest
      ∧ Piled program table hosted i loops (k + 1 + (if bound then 1 else 0)) rest

/-- an instruction that has no say in how the run goes on -/
theorem Leads.kept {J : Bool → State → Prop} {D : List Slot → Prop} {E : RuntimeError → Prop}
    {x : Exec Unit} {P : State → Prop} (hx : Leads linked P x (fun _ => J hosted) fun e _ => E e)
    (hs : P s) :
    Kept J D E hosted ((x >>= fun _ => Pure.pure Signal.proceed : Exec Signal) linked s) := by
  have h := hx s hs
  cases hr : x linked s with
  | ok _ s' =>
    rw [hr] at h
    rw [Exec.bind_ok hr]
    exact h
  | error e s' =>
    rw [hr] at h
    rw [Exec.bind_error hr]
    exact h

theorem Leads.excused {P : State → Prop} {x : Exec Unit} {at_ : Location} {st : Stack}
    (hx : Leads linked P x (fun _ => Tallied program table hosted) Mild) :
    Leads linked P x (fun _ => Tallied program table hosted) fun e _ => Excused op at_ st e := by
  intro s hs
  have hend := hx s hs
  cases hr : x linked s with
  | ok _ s' =>
    rw [hr] at hend
    exact hend
  | error e s' =>
    rw [hr] at hend
    exact .of_mild hend

/-- One instruction of a countable program.  The running frame holds what the check counts behind it,
and if there are too few values, markers are to blame. -/
theorem kept_dispatch (h : Due linked program table i pc op loops k)
    (hs : Starts program table hosted i pc op loops k s) :
    Kept (Tallied program table) (fun _ => True) (Excused op ⟨i, pc⟩ s.stack) hosted
      (Exec.dispatch op linked s) := by
  rcases hs with hs | ⟨argc, bound, rest, rfl, hcall⟩
  · cases op with
    | ret => exact kept_ret hs
    | halt => exact fun _ => trivial
    | debugger => exact hs.tallied (h.next rfl nofun nofun)
    | pick n => exact (excused_pick h hs).kept rfl
    | loopEnd => exact (excused_loopEnd h hs).kept rfl
    | leaveTry => exact (excused_leaveTry h hs).kept rfl
    | _ => exact (Exec.counts_perform h nofun nofun nofun nofun nofun).excused.kept hs
  · exact (Exec.counts_callResult argc bound h).excused.kept ⟨hcall.1, rest, hcall.2⟩

end

end ScriptMachine
