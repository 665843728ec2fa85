import ScriptMachine.Proofs.Checked
import ScriptMachine.Proofs.Machine.Lasting
import ScriptMachine.Proofs.Machine.Slots

/-!
# Checked programs stay on the rails

Where a program that passes the check goes on there is an instruction, and the places that its stack
remembers are places of instructions too.  The program may be written by hand.

* `Program.Has`         there is an instruction at a place;
* `Program.Entered`     a program that passes the check, with a body for every function;
* `Anchored`            an entry of the stack that remembers only places of instructions;
* `Goes.has`, `Puts.anchored`   instructions lead to instructions;
* `Kind`                a kind of entries that instructions keep;
* `Kind.lasting`        runs stay at instructions, with entries of that kind;
* `session_onRails`     all runs of all sessions stay on the rails.
-/

namespace ScriptMachine

/-- there is an instruction at a place -/
def Program.Has (program : Program) (loc : Location) : Prop :=
  (program.instruction? loc.sectionIndex loc.pc).isSome

/-- A program that passes the check has a main section, and a section for each function. -/
structure Program.Entered (program : Program) (table : LabelTable) : Prop where
  accepted : Accepted program table
  main : 0 < program.sections.size
  bodies : ∀ f ∈ program.functions.toList, f.body < program.sections.size

section
variable {program : Program} {table : LabelTable} {index : Nat} {entry : FunctionEntry}

theorem Program.Entered.body_lt (h : program.Entered table)
    (hentry : program.functions[index]? = some entry) : entry.body < program.sections.size :=
  h.bodies _ (Array.mem_toList_iff.mpr (Array.mem_of_getElem? hentry))

theorem Program.Entered.body (h : program.Entered table)
    (hentry : program.functions[index]? = some entry) : program.Has ⟨entry.body, 0⟩ :=
  h.accepted.first (h.body_lt hentry)

end

/-- there is a machine for every program that passes the check -/
theorem load_of_verify {program : Program} (h : program.verify = .ok ()) (limits : Limits) :
    ∃ m, Machine.load program limits = .ok m := by
  obtain ⟨table, htable⟩ := labelTable_of_verify h
  unfold Machine.load Program.checkedLabels
  rw [h, htable]
  exact ⟨_, rfl⟩

theorem Machine.verify_of_load {program : Program} {limits : Limits} {m : Machine}
    (h : Machine.load program limits = .ok m) : program.verify = .ok () := by
  unfold Machine.load at h
  cases hverify : program.verify with
  | error e =>
    rw [hverify] at h
    cases h
  | ok _ => rfl

/-! ## entries -/

section
variable (program : Program)

/-- An entry of the stack that remembers only places of instructions.  Where the host called from does
not matter. -/
def Anchored : Slot → Prop
  | .callSite site => site.fromHost = false → program.Has site.caller
  | .tryRegion region => program.Has region.handler
  | _ => True

/-- the same, and only if the host made a call there is a call of the host -/
structure Anchors (hosted : Bool) (slot : Slot) : Prop where
  anchored : Anchored program slot
  inner : ∀ site, slot = .callSite site → site.fromHost = true → hosted = true

/-- A kind of entries that instructions keep, if `top` says where the mark of a result may stand above
them. -/
structure Kind (table : LabelTable) (p : Bool → Slot → Prop) (top : Location → Prop) : Prop where
  anchors : ∀ {hosted slot}, p hosted slot → Anchors program hosted slot
  value : ∀ {hosted v}, p hosted (.value v)
  puts : ∀ {linked : Linked} {hosted i pc ins slot}, linked.Of program table →
    program.instruction? i pc = some ins → Puts linked ins.op ⟨i, pc + 1⟩ slot → p hosted slot
  site : ∀ {site : CallSite}, site.fromHost = true → p true (.callSite site)
  hosted : ∀ {slot}, p false slot → p true slot
  before : ∀ {hosted i pc ins slots}, program.instruction? i pc = some ins →
    Filled (p hosted) (top ⟨i, pc⟩) slots → Filled (p hosted) (ins.op.isCall = true) slots
  behind : ∀ {hosted i pc ins loc slots}, program.instruction? i pc = some ins →
    Filled (p hosted) (ins.op.calleeArgc?.isSome ∧ loc = ⟨i, pc + 1⟩) slots →
    Filled (p hosted) (top loc) slots

/-- the run is at an instruction, its entries of one kind -/
structure OnRails (p : Bool → Slot → Prop) (top : Location → Prop) (hosted : Bool) (s : State) :
    Prop where
  here : program.Has s.location
  slots : Filled (p hosted) (top s.location) s.stack.slots

end

section
variable {program : Program} {table : LabelTable} {hosted : Bool} {ins : Instruction}
  {linked : Linked} {i pc : Nat}

/-- an entry that is no call site -/
theorem Anchors.plain {slot : Slot} (hanchored : Anchored program slot)
    (hsite : ∀ site, slot ≠ .callSite site) : Anchors program hosted slot :=
  ⟨hanchored, fun site heq _ => absurd heq (hsite site)⟩

theorem All.ofFilled {p : Slot → Prop} {top : Prop} {slots : List Slot} (hresult : p .nativeResult)
    (h : Filled p top slots) : All p slots := by
  rcases h with hall | ⟨-, rest, rfl, hrest⟩
  · exact hall
  · exact hrest.cons hresult

/-! ## instructions -/

/-- an instruction that passed the check, whose constant and label are there -/
theorem Accepted.leads (acc : Accepted program table) (hlinked : linked.Of program table)
    (hins : program.instruction? i pc = some ins) {p : Slot → Prop} (hvalue : ∀ v, p (.value v))
    (hput : ∀ slot, Puts linked ins.op ⟨i, pc + 1⟩ slot → p slot) :
    Leads linked
      (fun s => s.location = ⟨i, pc + 1⟩ ∧ Filled p (ins.op.isCall = true) s.stack.slots)
      (Exec.dispatch ins.op) (Onward linked p ins.op ⟨i, pc + 1⟩) fun e _ => e.isLost = false := by
  have hop := acc.operands i pc ins hins
  refine Exec.leads_dispatch hvalue hput (fun index hconst => ?_) fun l hl => ?_
  · rw [hlinked.program]
    exact hop.constant index hconst
  · obtain ⟨target, hl, -⟩ := hop.target l hl
    exact ⟨target, by rw [hlinked.labels, hl]⟩

/-- an instruction leads to an instruction -/
theorem Goes.has {p : Slot → Prop} (h : program.Entered table) (hlinked : linked.Of program table)
    (hp : ∀ slot, p slot → Anchors program hosted slot)
    (hins : program.instruction? i pc = some ins) {loc : Location}
    (hgoes : Goes linked p ins.op ⟨i, pc + 1⟩ loc) : program.Has loc := by
  cases hgoes with
  | next hgo => exact h.accepted.next hins hgo
  | jump hop hl =>
    obtain ⟨pc', hl', hhas⟩ := h.accepted.lands hins hop
    rw [hlinked.labels, hl'] at hl
    cases hl
    exact hhas
  | handler hregion => exact (hp _ hregion).anchored
  | callee hentry =>
    rw [hlinked.program] at hentry
    exact h.body hentry
  | back hcall hsite => exact (hp _ hcall).anchored hsite

/-- the markers that an instruction makes remember places of instructions -/
theorem Puts.anchored (h : program.Entered table) (hlinked : linked.Of program table)
    (hins : program.instruction? i pc = some ins) {slot : Slot}
    (hputs : Puts linked ins.op ⟨i, pc + 1⟩ slot) : Anchors program hosted slot := by
  cases hputs with
  | loop _ => exact .plain trivial nofun
  | region hop hl =>
    obtain ⟨pc', hl', hhas⟩ := h.accepted.lands hins (by rw [hop]; rfl)
    rw [hlinked.labels, hl'] at hl
    cases hl
    exact .plain hhas nofun
  | site hop =>
    refine ⟨fun _ => h.accepted.next hins (by rw [hop]; rfl), fun site heq hhost => ?_⟩
    cases heq
    cases hhost

namespace Kind

variable {p : Bool → Slot → Prop} {top : Location → Prop}

/-- one instruction -/
theorem step (hkind : Kind program table p top) (h : program.Entered table)
    (hlinked : linked.Of program table) {s : State} (hs : OnRails program p top hosted s)
    (hins : program.instruction? s.location.sectionIndex s.location.pc = some ins) :
    Kept (OnRails program p top) (All (p false)) (fun e => e.isLost = false) hosted
      (execute linked ins.op s) := by
  obtain ⟨⟨i, pc⟩, env, stack, heap, events⟩ := s
  have hend := h.accepted.leads hlinked hins (fun v => hkind.value)
    (fun slot => hkind.puts hlinked hins) ⟨⟨i, pc + 1⟩, env, stack, heap, events⟩
    ⟨rfl, hkind.before hins hs.slots⟩
  show Kept _ _ _ hosted ((Exec.dispatch ins.op) linked ⟨⟨i, pc + 1⟩, env, stack, heap, events⟩)
  cases hr : (Exec.dispatch ins.op) linked ⟨⟨i, pc + 1⟩, env, stack, heap, events⟩ with
  | error e s' =>
    rw [hr] at hend
    exact hend
  | ok signal s' =>
    rw [hr] at hend
    cases signal with
    | proceed | pause =>
      exact ⟨hend.goes.has h hlinked (fun _ => hkind.anchors) hins, hkind.behind hins hend.slots⟩
    | halt =>
      rintro rfl
      exact hend
    | hostReturn =>
      obtain ⟨-, site, hsite, hhost⟩ := hend
      exact (hkind.anchors hsite).inner site rfl hhost

/-- Instructions lead to instructions and keep the kind of the entries.  No run is ever without an
instruction, a label or a constant. -/
theorem lasting (hkind : Kind program table p top) (h : program.Entered table) :
    Lasting (OnRails program p top) (All (p false)) (fun e => e.isLost = false) program table := by
  refine .of_here ⟨h.accepted.first h.main, .inl nofun⟩ (fun hs => hs.here)
    (fun hlinked hs hins => hkind.step h hlinked hs hins) ?_ nofun ?_
  · intro linked s s' index args hlinked hslots hs
    obtain ⟨entry, hentry, hloc, hstack⟩ := Exec.enterFunction_ok hs
    refine ⟨?_, .inl ?_⟩
    · rw [hloc]
      exact h.body (by rw [← hlinked.program]; exact hentry)
    · rw [hstack]
      exact All.cons (hkind.site rfl) fun slot hslot => hkind.hosted (hslots slot hslot)
  · intro e he
    cases e with
    | defect cause _ =>
      cases cause with
      | outOfCode | unresolvedLabel _ | noConstant _ => cases he
      | _ => rfl
    | _ => rfl

end Kind

/-- entries that remember only places of instructions, be they marks of results or not -/
theorem kind_anchors (h : program.Entered table) :
    Kind program table (Anchors program) fun _ => False := by
  have hall {hosted : Bool} {top : Prop} {slots : List Slot}
      (hfilled : Filled (Anchors program hosted) top slots) : All (Anchors program hosted) slots :=
    All.ofFilled (.plain trivial nofun) hfilled
  refine ⟨id, .plain trivial nofun, fun hlinked hins hputs => hputs.anchored h hlinked hins, ?_, ?_,
    fun _ hfilled => .inl (hall hfilled), fun _ hfilled => .inl (hall hfilled)⟩
  · intro site hhost
    refine ⟨fun hscript => ?_, fun _ _ _ => rfl⟩
    rw [hhost] at hscript
    cases hscript
  · rintro slot ⟨hanchored, -⟩
    exact ⟨hanchored, fun _ _ _ => rfl⟩

end

/-- **Programs that pass the check stay on the rails.**  Take a program that passes, with at least one
section and a section for each function, be it compiled or not.  There is a machine for it, and
whatever a host does, in whatever order: between operations, and before every instruction of every
run, the next instruction exists, and so do those that script calls return to and those that handle
thrown values.  No operation fails for want of an instruction, a label or a constant. -/
theorem session_onRails (program : Program) (hverify : program.verify = .ok ())
    (hmain : 0 < program.sections.size)
    (hbodies : ∀ f ∈ program.functions.toList, f.body < program.sections.size) (limits : Limits) :
    ∃ m₀, Machine.load program limits = .ok m₀ ∧ ∀ ops m, m₀.after ops = some m →
      (m.mode = .paused → program.Has m.state.location
        ∧ ∀ slot ∈ m.state.stack.slots, Anchored program slot)
      ∧ (∀ drive first n run, m.Enters drive first →
        first.ahead m.linked m.limits drive n = some run → program.Has run.state.location
          ∧ ∀ slot ∈ run.state.stack.slots, Anchored program slot)
      ∧ ∀ op outcome, m.apply op = some outcome → ∀ e, outcome.1 = .error e → e.isLost = false := by
  obtain ⟨table, htable⟩ := labelTable_of_verify hverify
  obtain ⟨m₀, hload⟩ := load_of_verify hverify limits
  have hentered : program.Entered table := ⟨accepted_of_verify htable hverify, hmain, hbodies⟩
  have hlasting := (kind_anchors hentered).lasting hentered
  refine ⟨m₀, hload, fun ops m hm => ?_⟩
  have hheld := hlasting.after (hlasting.loaded htable hload) hm
  have hplaces {hosted : Bool} {s : State}
      (hs : OnRails program (Anchors program) (fun _ => False) hosted s) :
      program.Has s.location ∧ ∀ slot ∈ s.stack.slots, Anchored program slot :=
    ⟨hs.here, fun slot hslot => (hs.slots.all id slot hslot).anchored⟩
  refine ⟨fun hmode => hplaces (hheld.paused hmode), fun drive first n run hfirst hrun => ?_,
    fun op outcome ho => (hlasting.apply hheld ho).1⟩
  exact hplaces (hlasting.ahead hheld.linked (hlasting.enters hheld hfirst) hrun)

/-- a function that throws, called in a region; nothing of it is compiled -/
def throwingCallee : Program :=
  let code (ops : List Op) : Array Instruction := (ops.map fun op => ⟨op, none, false⟩).toArray
  { constants := #[.function 0, .null]
    sections := #[
      ⟨"main", code [.enterTry 0, .const 0, .call 0 false, .pop, .leaveTry, .halt, .label 0, .pop, .halt]⟩,
      ⟨"f", code [.const 1, .throw]⟩]
    functions := #[⟨"f", 1, []⟩]
    classes := []
    source := ⟨#[], ""⟩
    functionNames := ["f"] }

/-- why the main section of a program fails within so many instructions -/
def Program.failure? (program : Program) (fuel : Nat) : Option RuntimeError :=
  match Machine.load program {} with
  | .error _ => none
  | .ok m => match m.run fuel with
    | some (.error e, _) => some e
    | _ => none

/-- the kinds of all entries of the stack after so many instructions of a program -/
def Program.stackAfter (program : Program) (n : Nat) : Option (List String) :=
  match Machine.load program {} with
  | .error _ => none
  | .ok m => (Run.ahead m.linked m.limits .run n ⟨m.state, 0, m.moved⟩).map fun run =>
    run.state.stack.slots.map Slot.kind

/-- before the function throws, its call site and the region remember instructions -/
theorem session_onRails_throwing :
    throwingCallee.verify = .ok () ∧ ∃ (m : Machine) (run : Run),
      Machine.load throwingCallee {} = .ok m
      ∧ Run.ahead m.linked m.limits .run 4 ⟨m.state, 0, m.moved⟩ = some run
      ∧ run.state.stack.slots.map Slot.kind = ["value", "call site", "try region"]
      ∧ throwingCallee.Has run.state.location
      ∧ ∀ slot ∈ run.state.stack.slots, Anchored throwingCallee slot := by
  have hverify : throwingCallee.verify = .ok () := by cbv
  have hstack : throwingCallee.stackAfter 4 = some ["value", "call site", "try region"] := by cbv
  obtain ⟨m, hload, hsession⟩ :=
    session_onRails throwingCallee hverify (by decide) (by decide) {}
  unfold Program.stackAfter at hstack
  rw [hload] at hstack
  obtain ⟨run, hrun, hkinds⟩ := Option.map_eq_some_iff.mp hstack
  have hmode : m.mode = .paused := by
    obtain ⟨_, -, rfl⟩ := Machine.load_ok hload
    rfl
  exact ⟨hverify, m, run, hload, hrun, hkinds, (hsession [] m rfl).2.1 .run _ 4 run (.run hmode) hrun⟩

end ScriptMachine
