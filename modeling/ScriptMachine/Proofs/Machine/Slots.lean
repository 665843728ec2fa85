import ScriptMachine.Proofs.Machine.Moves

/-!
# Where an instruction goes, and what it leaves on the stack

Whatever the program, an instruction leads to one of few places, and every entry that it leaves was
there before or is one of few kinds.  So a property of single entries is kept by runs if it holds of
values and of the entries that the program itself makes.

* `Stack.caught_suffix`  what a value that is caught leaves was there before;
* `tally`               the number of values among entries;
* `Goes`                the places that an instruction can lead to;
* `Puts`                the markers that it can put onto the stack;
* `Filled`              entries of one kind, maybe below the result of a call that is already made;
* `Moved.onward`, `leads_dispatch`   one instruction.
-/

namespace ScriptMachine

/-! ## unwinding -/

namespace Stack

/-- a value that is caught leaves what is below the region that catches it -/
theorem caught_suffix {s rest : Stack} {region : TryRegion}
    (h : s.unwindThrow = .caught region rest) : .tryRegion region :: rest.slots <:+ s.slots := by
  rw [s.eq_of] at h ⊢
  generalize s.slots = slots at h
  induction slots with
  | nil => cases h
  | cons slot slots ih =>
    cases slot with
    | tryRegion _ =>
      cases h
      exact List.suffix_rfl
    | callSite site =>
      rw [unwindThrow_site] at h
      split at h
      · cases h
      · exact (ih (Unwound.of_through h)).trans (List.suffix_cons _ _)
    | value _ | loopMarker _ | nativeResult => exact (ih h).trans (List.suffix_cons _ _)

end Stack

/-! ## counting values -/

def Slot.isValue : Slot → Bool
  | .value _ => true
  | _ => false

/-- the number of values among entries -/
def tally (slots : List Slot) : Nat := slots.countP Slot.isValue

section
variable (slots slots' : List Slot)

@[simp] theorem tally_nil : tally [] = 0 := rfl

@[simp] theorem tally_value (v : Value) : tally (.value v :: slots) = tally slots + 1 :=
  List.countP_cons_of_pos rfl

@[simp] theorem tally_loopMarker (env : EnvId) : tally (.loopMarker env :: slots) = tally slots :=
  List.countP_cons_of_neg nofun

@[simp] theorem tally_tryRegion (region : TryRegion) :
    tally (.tryRegion region :: slots) = tally slots := List.countP_cons_of_neg nofun

@[simp] theorem tally_nativeResult : tally (.nativeResult :: slots) = tally slots :=
  List.countP_cons_of_neg nofun

@[simp] theorem tally_append : tally (slots ++ slots') = tally slots + tally slots' :=
  List.countP_append

@[simp] theorem tally_values (vs : List Value) : tally (vs.map .value) = vs.length := by
  induction vs with
  | nil => rfl
  | cons v vs ih => rw [List.map_cons, tally_value, ih, List.length_cons]

end

/-! ## places and entries -/

section
variable (linked : Linked) (p : Slot → Prop)

/-- The places that an instruction can lead to from `loc`, the place behind it, if the entries of the
stack are of the kind `p`. -/
inductive Goes (op : Op) (loc : Location) : Location → Prop
  | next (h : op.isTerminator = false) : Goes op loc loc
  | jump {l : Label} {target : Location} (h : op.jumpTarget? = some l)
      (hl : linked.labels.resolve? l = some target) : Goes op loc target
  | handler {region : TryRegion} (h : p (.tryRegion region)) : Goes op loc region.handler
  | callee {index : Nat} {entry : FunctionEntry}
      (h : linked.program.functions[index]? = some entry) : Goes op loc ⟨entry.body, 0⟩
  | back {site : CallSite} (h : p (.callSite site)) (hsite : site.fromHost = false) :
    Goes op loc site.caller

/-- the markers that an instruction can put onto the stack -/
inductive Puts (op : Op) (loc : Location) : Slot → Prop
  | loop {env : EnvId} (h : op = .loopStart) : Puts op loc (.loopMarker env)
  | region {l : Label} {handler : Location} {env : EnvId} (h : op = .enterTry l)
      (hl : linked.labels.resolve? l = some handler) : Puts op loc (.tryRegion ⟨handler, env⟩)
  | site {argc index : Nat} {bound : Bool} {env : EnvId} (h : op = .call argc bound) :
    Puts op loc (.callSite ⟨loc, env, index, false⟩)

/-- all entries are of the kind `p` -/
def All (slots : List Slot) : Prop := ∀ slot ∈ slots, p slot

/-- all entries are of the kind `p`; if `top` holds there may be the mark of a result above them -/
def Filled (top : Prop) (slots : List Slot) : Prop :=
  All p slots ∨ top ∧ ∃ rest, slots = .nativeResult :: rest ∧ All p rest

/-- an instruction that `loc` is behind has led to this state -/
structure Gone (op : Op) (loc : Location) (s : State) : Prop where
  goes : Goes linked p op loc s.location
  slots : Filled p (op.calleeArgc?.isSome ∧ s.location = loc) s.stack.slots

end

theorem All.suffix {p : Slot → Prop} {slots slots' : List Slot} (h : All p slots)
    (hsuffix : slots' <:+ slots) : All p slots' := fun slot hslot => h slot (hsuffix.subset hslot)

theorem All.cons {p : Slot → Prop} {slot : Slot} {slots : List Slot} (hslot : p slot)
    (h : All p slots) : All p (slot :: slots) := List.forall_mem_cons.mpr ⟨hslot, h⟩

theorem Filled.all {p : Slot → Prop} {top : Prop} {slots : List Slot} (h : Filled p top slots)
    (htop : ¬top) : All p slots := by
  rcases h with h | ⟨h, -⟩
  · exact h
  · exact absurd h htop

/-! ## instructions -/

/-- How a run goes on after an instruction.  When it stops the place does not matter. -/
def Onward (linked : Linked) (p : Slot → Prop) (op : Op) (loc : Location) (signal : Signal)
    (s : State) : Prop :=
  match signal with
  | .proceed | .pause => Gone linked p op loc s
  | .halt => All p s.stack.slots
  | .hostReturn => All p s.stack.slots ∧ ∃ site, p (.callSite site) ∧ site.fromHost = true

section
variable {linked : Linked} {p : Slot → Prop} {op : Op} {loc : Location}

theorem Onto.goes {target : Location} (h : Onto linked op loc target) :
    Goes linked p op loc target := by
  cases h with
  | next hgo => exact .next hgo
  | jump hop hl => exact .jump hop hl

/-- only instructions that go on behind themselves leave the mark of a result -/
theorem Onto.eq_of_callee {target : Location} (h : Onto linked op loc target)
    (hop : op.calleeArgc?.isSome) : target = loc := by
  cases h with
  | next _ => rfl
  | jump hjump _ =>
    cases op with
    | fetch _ _ => cases hjump
    | _ => cases hop

theorem Lays.filled {put rest : List Slot} (h : Lays linked op put) (hvalue : ∀ v, p (.value v))
    (hput : ∀ slot, Puts linked op loc slot → p slot) (hrest : All p rest) :
    Filled p op.calleeArgc?.isSome (put ++ rest) := by
  cases h with
  | nothing => exact .inl hrest
  | value v => exact .inl (hrest.cons (hvalue v))
  | result hop v => exact .inr ⟨hop, _, rfl, hrest.cons (hvalue v)⟩
  | loop hop env => exact .inl (hrest.cons (hput _ (.loop hop)))
  | region hop hl env => exact .inl (hrest.cons (hput _ (.region hop hl)))

/-- what an instruction does to entries of one kind -/
theorem Moved.onward {s₀ s : State} {signal : Signal} (h : Moved linked op s₀ signal s)
    (hvalue : ∀ v, p (.value v)) (hput : ∀ slot, Puts linked op s₀.location slot → p slot)
    (hall : All p s₀.stack.slots) : Onward linked p op s₀.location signal s := by
  cases h with
  | within hsignal honto htaken hbefore hlays hafter =>
    have hgone : Gone linked p op s₀.location s := by
      refine ⟨honto.goes, ?_⟩
      have hfilled := hlays.filled hvalue hput (hall.suffix ⟨_, hbefore.symm⟩)
      rw [hafter]
      exact hfilled.imp_right fun ⟨hop, h⟩ => ⟨⟨hop, honto.eq_of_callee hop⟩, h⟩
    rcases hsignal with rfl | rfl <;> exact hgone
  | called hop hentry htaken hbefore hloc hafter =>
    have hrest := hall.suffix ⟨_, hbefore.symm⟩
    refine ⟨?_, .inl ?_⟩
    · rw [hloc]
      exact .callee hentry
    · rw [hafter]
      exact hrest.cons (hput _ (.site hop))
  | caught hunwind hloc _ hafter =>
    obtain ⟨hregion, hrest⟩ := List.forall_mem_cons.mp (hall.suffix (Stack.caught_suffix hunwind))
    refine ⟨?_, .inl ?_⟩
    · rw [hloc]
      exact .handler hregion
    · rw [hafter]
      exact All.cons (hvalue _) hrest
  | @returned _ _ rest below site v hop hbefore hunwind hsignal hloc _ hafter =>
    obtain ⟨dropped, slot, hslots, hslot, -⟩ := Stack.unwind_split hunwind
    obtain rfl : slot = .callSite site := by
      cases slot <;> cases hslot
      rfl
    have hsuffix : .callSite site :: below.slots <:+ s₀.stack.slots :=
      List.IsSuffix.trans ⟨dropped, hslots.symm⟩ (hbefore ▸ List.suffix_cons _ _)
    obtain ⟨hsite, hrest⟩ := List.forall_mem_cons.mp (hall.suffix hsuffix)
    have hafter : All p s.stack.slots := hafter ▸ All.cons (hvalue v) hrest
    rw [hsignal]
    cases hhost : site.fromHost with
    | true => exact ⟨hafter, site, hsite, hhost⟩
    | false => exact ⟨hloc ▸ .back hsite hhost, .inl hafter⟩
  | halted hop => exact hall

/-- an instruction whose constant and label exist does not fail for want of them -/
theorem Fails.notLost {s₀ s : State} {e : RuntimeError} (h : Fails linked op s₀ e s)
    (hconst : ∀ index, op = .const index → index < linked.program.constants.size)
    (hlabel : ∀ l, op.jumpTarget? = some l → ∃ target, linked.labels.resolve? l = some target) :
    e.isLost = false := by
  cases h with
  | stuck h => exact h
  | noConstant hop h => exact absurd (hconst _ hop) (Nat.not_lt.mpr (Array.getElem?_eq_none_iff.mp h))
  | unresolved hop h =>
    obtain ⟨target, hl⟩ := hlabel _ hop
    rw [h] at hl
    cases hl
  | uncaught h => rfl

end

namespace Exec

variable {linked : Linked} {p : Slot → Prop} {op : Op} {loc : Location}

/-- a function starts at the first instruction of its body, right above its call site -/
theorem enterFunction_ok {index : Nat} {args : List Value} {receiver : Option Value}
    {fromHost : Bool} {s s' : State}
    (h : enterFunction index args receiver fromHost linked s = .ok () s') :
    ∃ entry, linked.program.functions[index]? = some entry ∧ s'.location = ⟨entry.body, 0⟩
      ∧ s'.stack.slots = .callSite ⟨s.location, s.env, index, fromHost⟩ :: s.stack.slots := by
  cases hentry : linked.program.functions[index]? with
  | none =>
    rw [enterFunction_none hentry] at h
    cases h
  | some entry =>
    rw [enterFunction_eq hentry] at h
    cases h
    exact ⟨entry, rfl, rfl, rfl⟩

/-- One instruction whose constant and label exist. -/
theorem leads_dispatch (hvalue : ∀ v, p (.value v)) (hput : ∀ slot, Puts linked op loc slot → p slot)
    (hconst : ∀ index, op = .const index → index < linked.program.constants.size)
    (hlabel : ∀ l, op.jumpTarget? = some l → ∃ target, linked.labels.resolve? l = some target) :
    Leads linked (fun s => s.location = loc ∧ Filled p (op.isCall = true) s.stack.slots) (dispatch op)
      (Onward linked p op loc) fun e _ => e.isLost = false := by
  rintro s ⟨rfl, hall | ⟨hcall, rest, hslots, hrest⟩⟩
  · exact Leads.imp moved_dispatch (fun _ _ hs => hs.onward hvalue hput hall)
      (fun _ _ hs => hs.notLost hconst hlabel) s rfl
  · -- the mark of a result is on top, and the call takes it
    cases op with
    | call argc bound =>
      have hmoved := Leads.bind (moved_already linked argc bound hslots) fun _ =>
        Leads.pure fun s hs => hs
      exact Leads.imp hmoved (fun _ _ hs => hs.onward hvalue hput hrest)
        (fun _ _ hs => hs.notLost hconst hlabel) s rfl
    | _ => cases hcall

end Exec

end ScriptMachine
