import ScriptMachine.Proofs.Machine.Lasting
import ScriptMachine.Proofs.Machine.Moves

/-!
# Calls keep what the caller has on the stack

A call leaves its call site on the stack, above what the caller has there.  As long as the call is
not over, that part of the stack stays as it is.  A call is over when it returns, when a value is
thrown past it, or when the run fails.

* `Open`                 a call that is not over;
* `Concludes`            how an instruction ends a call;
* `Moved.open_or_over`   one instruction;
* `Advances`             one instruction of a run that may be paused at any time;
* `open_chain`           many instructions;
* `call_keepsCaller`     calls, whatever the program.
-/

namespace ScriptMachine

section
variable (site : CallSite) (below : List Slot)

/-- The call is not over: its call site stands on what the caller has, and above it there are only
call sites of the script. -/
def Open (slots : List Slot) : Prop :=
  ∃ upper, slots = upper ++ .callSite site :: below
    ∧ ∀ inner, .callSite inner ∈ upper → inner.fromHost = false

/-- How an instruction ends a call.  It returns the value on top, and the caller is back with its
entries, its place and its environment; or it throws a value to a handler that the caller or one of
its callers has set up. -/
inductive Concludes (op : Op) (slots : List Slot) (s' : State) : Prop
  | returned {v : Value} {rest : List Slot} (hop : op = .ret)
      (htop : slots = .value v :: rest) (hloc : s'.location = site.caller)
      (henv : s'.env = site.env) (hslots : s'.stack.slots = .value v :: below)
  | thrown {v : Value} {region : TryRegion} {rest : Stack}
      (hcaught : (Stack.of below).unwindThrow = .caught region rest)
      (hloc : s'.location = region.handler) (henv : s'.env = region.env)
      (hslots : s'.stack.slots = .value v :: rest.slots)

/-- If a run stops and has not failed, then the call is still open. -/
def Stop.Spares : Stop → Prop
  | .paused s | .halted s => Open site below s.stack.slots
  | .returned _ => False
  | .failed _ _ => True

end

section
variable {linked : Linked} {site : CallSite} {below : List Slot}

/-! ## stacks -/

namespace Open

/-- the call site is no entry of a frame above it -/
theorem tail {slot : Slot} {slots : List Slot} (h : Open site below (slot :: slots))
    (hslot : slot.isOwn = true) : Open site below slots := by
  obtain ⟨upper, hupper, hinner⟩ := h
  cases upper with
  | nil =>
    cases hupper
    cases hslot
  | cons _ upper =>
    cases hupper
    exact ⟨upper, rfl, fun inner hmem => hinner inner (List.mem_cons_of_mem _ hmem)⟩

theorem drop {taken rest : List Slot} (h : Open site below (taken ++ rest))
    (htaken : ∀ slot ∈ taken, slot.isOwn = true) : Open site below rest :=
  Slot.drop_own (fun _ _ hslot h => tail h hslot) htaken h

theorem append {put slots : List Slot} (h : Open site below slots)
    (hput : ∀ inner, .callSite inner ∈ put → inner.fromHost = false) :
    Open site below (put ++ slots) := by
  obtain ⟨upper, rfl, hinner⟩ := h
  refine ⟨put ++ upper, (List.append_assoc _ _ _).symm, fun inner hmem => ?_⟩
  rcases List.mem_append.mp hmem with hmem | hmem
  · exact hput inner hmem
  · exact hinner inner hmem

theorem push {slot : Slot} {slots : List Slot} (h : Open site below slots)
    (hslot : ∀ inner, slot = .callSite inner → inner.fromHost = false) :
    Open site below (slot :: slots) := by
  have hput : ∀ inner, .callSite inner ∈ [slot] → inner.fromHost = false := fun inner hmem =>
    hslot inner (List.mem_singleton.mp hmem).symm
  exact h.append hput

/-- a thrown value is caught above the call site, or where one would be that the caller throws -/
theorem caught {slots : List Slot} (hsite : site.fromHost = false) (h : Open site below slots)
    {region : TryRegion} {rest : Stack} (hcaught : (Stack.of slots).unwindThrow = .caught region rest) :
    Open site below rest.slots ∨ (Stack.of below).unwindThrow = .caught region rest := by
  obtain ⟨upper, rfl, hinner⟩ := h
  rcases Stack.unwindThrow_upper upper hinner with ⟨region', rest', hrest, h⟩ | ⟨callers, h⟩
  · rw [h] at hcaught
    cases hcaught
    exact .inl ⟨rest', rfl, fun inner hmem => hinner inner (hrest.subset hmem)⟩
  · rw [h, Stack.unwindThrow_site, if_neg (by rw [hsite]; exact Bool.false_ne_true),
      Unwound.foldr_through] at hcaught
    cases hbelow : (Stack.of below).unwindThrow with
    | caught _ _ =>
      rw [hbelow] at hcaught
      exact .inr hcaught
    | reachedHost _ _ _ | uncaught _ =>
      rw [hbelow] at hcaught
      cases hcaught

/-- the nearest caller is above the call site, or the call site is its own -/
theorem nearest {slots : List Slot} (h : Open site below slots) {caller : CallSite} {rest : Stack}
    (hunwind : (Stack.of slots).unwind Exec.callSite? = some (caller, rest)) :
    caller.fromHost = false ∧ Open site below rest.slots ∨ caller = site ∧ rest.slots = below := by
  obtain ⟨upper, rfl, hinner⟩ := h
  rcases Stack.unwind_upper Exec.callSite? upper with
    ⟨caller', rest', ⟨slot, hmem, hslot⟩, hrest, h⟩ | ⟨-, h⟩
  · rw [h] at hunwind
    cases hunwind
    obtain rfl : slot = .callSite caller := by
      cases slot <;> cases hslot
      rfl
    exact .inl ⟨hinner _ hmem, rest', rfl, fun inner hmem => hinner inner (hrest.subset hmem)⟩
  · rw [h, Stack.unwind_cons] at hunwind
    cases hunwind
    exact .inr ⟨rfl, rfl⟩

end Open

/-! ## instructions -/

theorem Lays.noSite {op : Op} {put : List Slot} (h : Lays linked op put) :
    ∀ inner, .callSite inner ∉ put := by
  intro inner hmem
  cases h <;> simp at hmem

/-- One instruction: the call stays open, or it is over. -/
theorem Moved.open_or_over {op : Op} {signal : Signal} {s₀ s : State}
    (h : Moved linked op s₀ signal s) (hsite : site.fromHost = false)
    (hopen : Open site below s₀.stack.slots) :
    signal ≠ .hostReturn ∧ Open site below s.stack.slots
      ∨ signal = .proceed ∧ Concludes site below op s₀.stack.slots s := by
  cases h with
  | within hsignal honto htaken hbefore hput hafter =>
    refine .inl ⟨fun heq => ?_, ?_⟩
    · rw [heq] at hsignal
      rcases hsignal with h | h <;> cases h
    · rw [hafter]
      rw [hbefore] at hopen
      exact (hopen.drop htaken).append fun inner hmem => absurd hmem (hput.noSite inner)
  | called hop hentry htaken hbefore hloc hafter =>
    refine .inl ⟨nofun, ?_⟩
    rw [hafter]
    rw [hbefore] at hopen
    refine (hopen.drop htaken).push fun inner hinner => ?_
    cases hinner
    rfl
  | caught hunwind hloc henv hafter =>
    rw [s₀.stack.eq_of] at hunwind
    rcases hopen.caught hsite hunwind with hrest | hbelow
    · refine .inl ⟨nofun, ?_⟩
      rw [hafter]
      exact hrest.push nofun
    · exact .inr ⟨rfl, .thrown hbelow hloc henv hafter⟩
  | returned hop hbefore hunwind hsignal hloc henv hafter =>
    rw [hbefore] at hopen
    rcases (hopen.tail rfl).nearest hunwind with
      ⟨hscript, hrest⟩ | ⟨rfl, hslots⟩
    · rw [hscript] at hsignal
      cases hsignal
      refine .inl ⟨nofun, ?_⟩
      rw [hafter]
      exact hrest.push nofun
    · rw [hsite] at hsignal
      rw [hslots] at hafter
      exact .inr ⟨hsignal, .returned hop hbefore hloc henv hafter⟩
  | halted hop => exact .inl ⟨nofun, hopen⟩

end

/-! ## runs -/

section
variable (program : Program) (table : LabelTable)

/-- One instruction of a run, or a pause.  From one to the next the limits, the functions that the host
has registered and the way in which it drives the run may be others. -/
inductive Advances : State → State → Prop
  | goes {linked : Linked} {limits : Limits} {drive : Drive} {run run' : Run}
      (hlinked : linked.Of program table) (h : tick linked limits drive run = .going run') :
    Advances run.state run'.state
  | pauses {linked : Linked} {limits : Limits} {drive : Drive} {run : Run} {s : State}
      (hlinked : linked.Of program table)
      (h : tick linked limits drive run = .stopped (.paused s)) : Advances run.state s

end

section
variable {program : Program} {table : LabelTable} {site : CallSite} {below : List Slot}

/-- One instruction of a run: the call stays open, it is over, or the run fails. -/
theorem tick_open (linked : Linked) (limits : Limits) (drive : Drive) (run : Run)
    (hsite : site.fromHost = false) (hopen : Open site below run.state.stack.slots) :
    match tick linked limits drive run with
    | .going run' => Open site below run'.state.stack.slots
      ∨ ∃ ins, run.IsAt linked ins ∧ Concludes site below ins.op run.state.stack.slots run'.state
    | .stopped stop => stop.Spares site below := by
  have hend {op : Op} {signal : Signal} {s : State} (h : execute linked op run.state = .ok signal s) :=
    (moved_of_execute h).open_or_over hsite hopen
  have hticks := ticks linked limits drive run
  generalize tick linked limits drive run = progress at hticks
  cases hticks with
  | lost | limited | fails => trivial
  | waits hdrive => exact hopen
  | goes hins h hsignal =>
    rcases hend h with ⟨-, hopen⟩ | ⟨-, hover⟩
    · exact .inl hopen
    · exact .inr ⟨_, hins, hover⟩
  | pauses hins h _ | halts hins h =>
    rcases hend h with ⟨-, hopen⟩ | ⟨hsignal, -⟩
    · exact hopen
    · cases hsignal
  | returns hins h =>
    rcases hend h with ⟨hsignal, -⟩ | ⟨hsignal, -⟩
    · exact hsignal rfl
    · cases hsignal

/-- the same if the run may be paused -/
theorem Advances.open_or_over (hsite : site.fromHost = false) {s s' : State}
    (h : Advances program table s s') (hopen : Open site below s.stack.slots) :
    Open site below s'.stack.slots
      ∨ ∃ ins, program.instruction? s.location.sectionIndex s.location.pc = some ins
        ∧ Concludes site below ins.op s.stack.slots s' := by
  cases h with
  | @goes linked limits drive run run' hlinked h =>
    have hone := tick_open linked limits drive run hsite hopen
    rw [h] at hone
    rw [← hlinked.program]
    exact hone
  | @pauses linked limits drive run s hlinked h =>
    have hone := tick_open linked limits drive run hsite hopen
    rw [h] at hone
    exact .inl hone

/-- Many instructions: the call is open all the time, or up to an instruction that ends it. -/
theorem open_chain (hsite : site.fromHost = false) {σ : Nat → State} {n : Nat}
    (hstart : Open site below (σ 0).stack.slots)
    (hsteps : ∀ i < n, Advances program table (σ i) (σ (i + 1))) :
    (∀ i ≤ n, Open site below (σ i).stack.slots)
      ∨ ∃ k < n, (∀ i ≤ k, Open site below (σ i).stack.slots)
        ∧ ∃ ins, program.instruction? (σ k).location.sectionIndex (σ k).location.pc = some ins
          ∧ Concludes site below ins.op (σ k).stack.slots (σ (k + 1)) := by
  induction n with
  | zero =>
    refine .inl fun i hi => ?_
    rw [Nat.le_zero.mp hi]
    exact hstart
  | succ n ih =>
    rcases ih fun i hi => hsteps i (Nat.lt_succ_of_lt hi) with hopen | ⟨k, hk, hover⟩
    · rcases (hsteps n (Nat.lt_succ_self n)).open_or_over hsite (hopen n (Nat.le_refl n)) with
        hlast | hover
      · refine .inl fun i hi => ?_
        rcases Nat.le_succ_iff.mp hi with hi | rfl
        · exact hopen i hi
        · exact hlast
      · exact .inr ⟨n, Nat.lt_succ_self n, hopen, hover⟩
    · exact .inr ⟨k, Nat.lt_succ_of_lt hk, hover⟩

end

/-! ## calls -/

/-- the call site that a call leaves at a state -/
def State.siteOf (s : State) (index : Nat) : CallSite := ⟨s.next.location, s.env, index, false⟩

/-- **Calls keep what the caller has on the stack.**  Take any program, checked or not, and any state
in which a call finds its callee, which is a function of the program, on top of the arguments and, if
it has one, of the receiver.  It enters the function and leaves its call site on the rest of the stack.
From then on, whatever the function does and wherever the host pauses, the call is open, and the rest is
there unchanged; it ends only by a return, behind which the caller has the value on top of the rest, its
place and its environment, or by a value that is thrown to a handler of the rest.  A run that stops
while the call is open leaves it open, or has failed. -/
theorem call_keepsCaller (linked : Linked) (s : State) (index : Nat) (entry : FunctionEntry)
    (args : List Value) (receiver : Option Value) (below : List Slot)
    (hentry : linked.program.functions[index]? = some entry)
    (hslots : s.stack.slots
      = .value (.function index) :: (args.map .value ++ (receiver.toList.map .value ++ below))) :
    ∃ s₁, execute linked (.call args.length receiver.isSome) s = .ok .proceed s₁
      ∧ s₁.location = ⟨entry.body, 0⟩ ∧ s₁.stack.slots = .callSite (s.siteOf index) :: below
      ∧ ∀ (σ : Nat → State) (n : Nat), σ 0 = s₁ →
        (∀ i < n, Advances linked.program linked.labels (σ i) (σ (i + 1))) →
        ((∀ i ≤ n, Open (s.siteOf index) below (σ i).stack.slots)
          ∧ ∀ (linked' : Linked) limits drive cycles moved stop,
            tick linked' limits drive ⟨σ n, cycles, moved⟩ = .stopped stop →
            stop.Spares (s.siteOf index) below)
        ∨ ∃ k < n, (∀ i ≤ k, Open (s.siteOf index) below (σ i).stack.slots)
          ∧ ∃ ins, linked.program.instruction? (σ k).location.sectionIndex (σ k).location.pc = some ins
            ∧ Concludes (s.siteOf index) below ins.op (σ k).stack.slots (σ (k + 1)) := by
  obtain ⟨loc, env, stack, heap, events⟩ := s
  obtain rfl : stack = .of _ := stack.eq_of.trans (congrArg Stack.of hslots)
  have hcall := Exec.callValue_function hentry args receiver below
    (State.next ⟨loc, env, .of below, heap, events⟩)
  refine ⟨_, Exec.bind_ok hcall _, rfl, rfl, ?_⟩
  rintro σ n hstart hsteps
  have hopen : Open ⟨⟨loc.sectionIndex, loc.pc + 1⟩, env, index, false⟩ below (σ 0).stack.slots := by
    rw [hstart]
    exact ⟨[], rfl, nofun⟩
  refine (open_chain rfl hopen hsteps).imp_left fun hall => ⟨hall, ?_⟩
  intro linked' limits drive cycles moved stop hstop
  have hone := tick_open linked' limits drive ⟨σ n, cycles, moved⟩ rfl (hall n (Nat.le_refl n))
  rw [hstop] at hone
  exact hone

/-- a function that is called above a value of its caller -/
def calledAbove : Program :=
  let code (ops : List Op) : Array Instruction := (ops.map fun op => ⟨op, none, false⟩).toArray
  { constants := #[.null, .function 0]
    sections := #[⟨"main", code [.const 0, .const 1, .call 0 false, .halt]⟩, ⟨"f", code [.const 0, .ret]⟩]
    functions := #[⟨"f", 1, []⟩]
    classes := []
    source := ⟨#[], ""⟩
    functionNames := ["f"] }

/-- the function returns, and that ends the call -/
theorem call_keepsCaller_returning :
    let linked : Linked := ⟨calledAbove, {}, ⟨0⟩, []⟩
    let s : State := ⟨⟨0, 2⟩, ⟨0⟩, .of [.value (.function 0), .value .null], Heap.empty.newGlobal.2, []⟩
    linked.program.functions[0]? = some ⟨"f", 1, []⟩
      ∧ ∃ s₁ s₂ s₃ : State, execute linked (.call 0 false) s = .ok .proceed s₁
        ∧ s₁.stack.slots = [.callSite (s.siteOf 0), .value .null]
        ∧ execute linked (.const 0) s₁ = .ok .proceed s₂ ∧ execute linked .ret s₂ = .ok .proceed s₃
        ∧ s₃.stack.slots = [.value .null, .value .null]
        ∧ Concludes (s.siteOf 0) [.value .null] .ret s₂.stack.slots s₃ := by
  intro linked s
  obtain ⟨s₁, hcall, hloc, hslots, hlater⟩ :=
    call_keepsCaller linked s 0 ⟨"f", 1, []⟩ [] none [.value .null] rfl rfl
  obtain ⟨loc₁, env₁, stack₁, heap₁, events₁⟩ := s₁
  obtain rfl : loc₁ = ⟨1, 0⟩ := hloc
  obtain rfl : stack₁ = .of _ := stack₁.eq_of.trans (congrArg Stack.of hslots)
  -- the states of the run: behind the call, behind `CONST` and behind `RETURN`
  let s₁ : State := ⟨⟨1, 0⟩, env₁, .of [.callSite (s.siteOf 0), .value .null], heap₁, events₁⟩
  let s₂ : State := ⟨⟨1, 1⟩, env₁, s₁.stack.push (.value .null), heap₁, events₁⟩
  let s₃ : State := ⟨⟨0, 3⟩, ⟨0⟩, .of [.value .null, .value .null], heap₁, events₁⟩
  have h₁ : execute linked (.const 0) s₁ = .ok .proceed s₂ := rfl
  have h₂ : execute linked .ret s₂ = .ok .proceed s₃ := rfl
  refine ⟨rfl, s₁, s₂, s₃, hcall, rfl, h₁, h₂, rfl, ?_⟩
  let σ : Nat → State
    | 0 => s₁
    | 1 => s₂
    | _ => s₃
  have hsteps : ∀ i < 2, Advances linked.program linked.labels (σ i) (σ (i + 1))
    | 0, _ => @Advances.goes _ _ linked {} .run ⟨s₁, 0, true⟩ ⟨s₂, 1, true⟩ ⟨rfl, rfl⟩ rfl
    | 1, _ => @Advances.goes _ _ linked {} .run ⟨s₂, 1, true⟩ ⟨s₃, 2, true⟩ ⟨rfl, rfl⟩ rfl
  rcases hlater σ 2 rfl hsteps with ⟨hopen, -⟩ | ⟨k, hk, -, ins, hins, hover⟩
  · obtain ⟨upper, hupper, -⟩ := hopen 2 (Nat.le_refl 2)
    have hmem : .callSite (s.siteOf 0) ∈ s₃.stack.slots :=
      hupper ▸ List.mem_append_right _ List.mem_cons_self
    cases hmem
    contradiction
  · match k, hk with
    | 0, _ =>
      cases hins
      cases hover with
      | returned hop => cases hop
      | thrown hcaught => cases hcaught
    | 1, _ =>
      cases hins
      exact hover

end ScriptMachine
