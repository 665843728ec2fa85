import ScriptMachine.Machine.Run
import ScriptMachine.Proofs.Machine.Equations
import ScriptMachine.Proofs.Machine.HeapStep
import ScriptMachine.Proofs.Shape.Sections

/-!
# Stacks that have the shape of their place

The stack of a run is made of frames.  What a frame holds above its call site has the shape of the
instruction that is next there, and what it has saved (the environments of loops, the handlers and
environments of regions, the place to return to) fits the shapes of the places that it leads to.

* `Holds`               slots that are as the entries of a shape say;
* `Frames`              the frames below the running one, down to the main code or a call of the host;
* `Here`                a state whose running frame has a given shape;
* `Sound`               a state whose running frame has the shape of the next instruction;
* `Frames.unwindThrow`  a thrown value goes on at a handler that fits, or leaves the script.
-/

namespace ScriptMachine

/-! ## stacks -/

namespace Stack

variable {α : Type}

/-- entries that are not looked for are dropped -/
theorem unwind_append (wanted : Slot → Option α) (dropped : List Slot) (slot : Slot)
    (rest : List Slot) {a : α} (hnone : ∀ s ∈ dropped, wanted s = none) (ha : wanted slot = some a) :
    (of (dropped ++ slot :: rest)).unwind wanted = some (a, of rest) := by
  induction dropped with
  | nil => rw [List.nil_append, unwind_cons, ha]
  | cons first dropped ih =>
    rw [List.cons_append, unwind_cons, hnone first List.mem_cons_self]
    exact ih fun s hs => hnone s (List.mem_cons_of_mem _ hs)

theorem unwindThrow_nil : (of []).unwindThrow = .uncaught [] := rfl

theorem unwindThrow_region (region : TryRegion) (rest : List Slot) :
    (of (.tryRegion region :: rest)).unwindThrow = .caught region (of rest) := rfl

theorem unwindThrow_site (site : CallSite) (rest : List Slot) :
    (of (.callSite site :: rest)).unwindThrow
      = if site.fromHost then .reachedHost site [] (of rest)
        else (of rest).unwindThrow.through site.caller := rfl

/-- neither a handler nor a frame -/
def isPassed : Slot → Bool
  | .tryRegion _ => false
  | .callSite _ => false
  | _ => true

/-- a thrown value passes entries that are neither handlers nor frames -/
theorem unwindThrow_passed (dropped rest : List Slot) (h : ∀ s ∈ dropped, isPassed s = true) :
    (of (dropped ++ rest)).unwindThrow = (of rest).unwindThrow := by
  induction dropped with
  | nil => rfl
  | cons first dropped ih =>
    have hfirst := h first List.mem_cons_self
    rw [← ih fun s hs => h s (List.mem_cons_of_mem _ hs)]
    cases first with
    | tryRegion _ => cases hfirst
    | callSite _ => cases hfirst
    | value _ | loopMarker _ | nativeResult => rfl

end Stack

theorem Unwound.of_through {u : Unwound} {caller : Location} {region : TryRegion} {st : Stack}
    (h : u.through caller = .caught region st) : u = .caught region st := by
  cases u with
  | caught _ _ => exact h
  | reachedHost _ _ _ => cases h
  | uncaught _ => cases h

/-! ## frames -/

/-- the place is in section `i`, and its instruction needs the shape -/
structure Stands (program : Program) (T : Location → Shape) (i : Nat) (loc : Location) (σ : Shape) :
    Prop where
  inside : loc.sectionIndex = i
  exists_ : (program.instruction? i loc.pc).isSome
  shape : T loc = σ

section
variable (program : Program) (T : Location → Shape) (heap : Heap)

/-- The slots of a frame of section `i` whose function runs in `base`.  A region's handler finds the
thrown value on top of what is below the region. -/
inductive Holds (base : EnvId) (i : Nat) : List Entry → List Slot → Prop
  | nil : Holds base i [] []
  | value (hv : v.Known program.functions.size) (h : Holds base i es ss) :
    Holds base i (.value :: es) (.value v :: ss)
  | loop (hs : ScopeAt heap base d env) (h : Holds base i es ss) :
    Holds base i (.loop d :: es) (.loopMarker env :: ss)
  | guard (hat : Stands program T i region.handler ⟨.value :: es, d⟩)
      (hs : ScopeAt heap base d region.env) (h : Holds base i es ss) :
    Holds base i (.guard d :: es) (.tryRegion region :: ss)
  | callee {vs : List Value} (hv : v.Known program.functions.size)
      (hvs : ∀ w ∈ vs, w.Known program.functions.size) (h : Holds base i es ss) :
    Holds base i (.prepared vs.length :: es) (.value v :: vs.map .value ++ ss)
  | result (hv : v.Known program.functions.size) (h : Holds base i es ss) :
    Holds base i (.prepared argc :: es) (.nativeResult :: .value v :: ss)

/-- The frames below the running one, which is in section `i` and whose function runs in `base`.
The lowest one is the main code or, if `hosted`, a function that the host called. -/
inductive Frames (global : EnvId) (hosted : Bool) : Nat → EnvId → List Slot → Prop
  | main (h : hosted = false) (hglobal : base = global) : Frames global hosted 0 base []
  | host (h : hosted = true) (hi : i ≠ 0) (hsite : site.fromHost = true) :
    Frames global hosted i base [.callSite site]
  | call (hi : i ≠ 0) (hsite : site.fromHost = false)
      (hat : Stands program T i' site.caller ⟨.value :: es, d⟩)
      (hs : ScopeAt heap base' d site.env) (hown : Holds program T heap base' i' es own)
      (h : Frames global hosted i' base' rest) :
    Frames global hosted i base (.callSite site :: (own ++ rest))

end

/-- what holds of value slots -/
theorem forall_values {p : Slot → Prop} (h : ∀ v, p (.value v)) (vs : List Value) :
    ∀ s ∈ vs.map Slot.value, p s := by
  intro s hs
  obtain ⟨v, -, rfl⟩ := List.mem_map.mp hs
  exact h v

namespace Holds

variable {program : Program} {T : Location → Shape} {heap heap' : Heap} {base : EnvId} {i : Nat}
  {es : List Entry} {ss : List Slot}

theorem later (h : Holds program T heap base i es ss) (hl : heap.Later heap') :
    Holds program T heap' base i es ss := by
  induction h with
  | nil => exact .nil
  | value hv _ ih => exact .value hv ih
  | loop hs _ ih => exact .loop (hs.later hl) ih
  | guard hat hs _ ih => exact .guard hat (hs.later hl) ih
  | callee hv hvs _ ih => exact .callee hv hvs ih
  | result hv _ ih => exact .result hv ih

/-- no call site is among the slots of a frame -/
theorem noSite (h : Holds program T heap base i es ss) : ∀ s ∈ ss, Exec.callSite? s = none := by
  induction h with
  | nil => exact nofun
  | value _ _ ih => exact List.forall_mem_cons.mpr ⟨rfl, ih⟩
  | loop _ _ ih => exact List.forall_mem_cons.mpr ⟨rfl, ih⟩
  | guard _ _ _ ih => exact List.forall_mem_cons.mpr ⟨rfl, ih⟩
  | callee _ _ _ ih =>
    exact List.forall_mem_append.mpr
      ⟨List.forall_mem_cons.mpr ⟨rfl, forall_values (fun _ => rfl) _⟩, ih⟩
  | result _ _ ih => exact List.forall_mem_cons.mpr ⟨rfl, List.forall_mem_cons.mpr ⟨rfl, ih⟩⟩

/-- the values on top -/
theorem take_values {n : Nat} (h : Holds program T heap base i (values n ++ es) ss) :
    ∃ (vs : List Value) (rest : List Slot), ss = vs.map .value ++ rest ∧ vs.length = n
      ∧ (∀ v ∈ vs, v.Known program.functions.size) ∧ Holds program T heap base i es rest := by
  induction n generalizing ss with
  | zero => exact ⟨[], ss, rfl, rfl, nofun, h⟩
  | succ n ih =>
    cases h with
    | value hv h =>
      obtain ⟨vs, rest, rfl, hlen, hvs, hrest⟩ := ih h
      exact ⟨_ :: vs, rest, rfl, congrArg (· + 1) hlen, List.forall_mem_cons.mpr ⟨hv, hvs⟩, hrest⟩

theorem ofValues {vs : List Value} (hvs : ∀ v ∈ vs, v.Known program.functions.size)
    (h : Holds program T heap base i es ss) :
    Holds program T heap base i (values vs.length ++ es) (vs.map .value ++ ss) := by
  induction vs with
  | nil => exact h
  | cons v vs ih =>
    obtain ⟨hv, hvs⟩ := List.forall_mem_cons.mp hvs
    exact .value hv (ih hvs)

/-- what stands below entries -/
theorem drop {inner : List Entry} (h : Holds program T heap base i (inner ++ es) ss)
    (hinner : ∀ e ∈ inner, e.isLoop = false) :
    ∃ dropped rest, ss = dropped ++ rest ∧ (∀ s ∈ dropped, Exec.loopMarker? s = none)
      ∧ Holds program T heap base i es rest := by
  induction inner generalizing ss with
  | nil => exact ⟨[], ss, rfl, nofun, h⟩
  | cons e inner ih =>
    have hrest := fun e he => hinner e (List.mem_cons_of_mem _ he)
    cases h with
    | value _ h | guard _ _ h =>
      obtain ⟨dropped, rest, rfl, hnone, hholds⟩ := ih h hrest
      exact ⟨_ :: dropped, rest, rfl, List.forall_mem_cons.mpr ⟨rfl, hnone⟩, hholds⟩
    | loop _ _ => cases hinner _ List.mem_cons_self
    | callee _ _ h =>
      obtain ⟨dropped, rest, rfl, hnone, hholds⟩ := ih h hrest
      exact ⟨_ :: _ ++ dropped, rest, (List.append_assoc _ _ _).symm, List.forall_mem_append.mpr
        ⟨List.forall_mem_cons.mpr ⟨rfl, forall_values (fun _ => rfl) _⟩, hnone⟩, hholds⟩
    | result _ h =>
      obtain ⟨dropped, rest, rfl, hnone, hholds⟩ := ih h hrest
      exact ⟨_ :: _ :: dropped, rest, rfl,
        List.forall_mem_cons.mpr ⟨rfl, List.forall_mem_cons.mpr ⟨rfl, hnone⟩⟩, hholds⟩

/-- The first handler of a frame, if it has one. -/
theorem handler (h : Holds program T heap base i es ss) :
    (∀ s ∈ ss, Stack.isPassed s = true)
      ∨ ∃ dropped region es' d rest, ss = dropped ++ .tryRegion region :: rest
        ∧ (∀ s ∈ dropped, Stack.isPassed s = true)
        ∧ Stands program T i region.handler ⟨.value :: es', d⟩ ∧ ScopeAt heap base d region.env
        ∧ Holds program T heap base i es' rest := by
  induction h with
  | nil => exact .inl nofun
  | guard hat hs h _ => exact .inr ⟨[], _, _, _, _, rfl, nofun, hat, hs, h⟩
  | value _ _ ih | loop _ _ ih =>
    rcases ih with ih | ⟨dropped, region, es', d, rest, rfl, hpass, hat, hs, hrest⟩
    · exact .inl (List.forall_mem_cons.mpr ⟨rfl, ih⟩)
    · exact .inr ⟨_ :: dropped, region, es', d, rest, rfl, List.forall_mem_cons.mpr ⟨rfl, hpass⟩,
        hat, hs, hrest⟩
  | callee _ _ _ ih =>
    have hvs (v : Value) (vs : List Value) : ∀ s ∈ Slot.value v :: vs.map .value,
        Stack.isPassed s = true :=
      List.forall_mem_cons.mpr ⟨rfl, forall_values (fun _ => rfl) vs⟩
    rcases ih with ih | ⟨dropped, region, es', d, rest, rfl, hpass, hat, hs, hrest⟩
    · exact .inl (List.forall_mem_append.mpr ⟨hvs _ _, ih⟩)
    · exact .inr ⟨_ ++ dropped, region, es', d, rest, (List.append_assoc _ _ _).symm,
        List.forall_mem_append.mpr ⟨hvs _ _, hpass⟩, hat, hs, hrest⟩
  | result _ _ ih =>
    rcases ih with ih | ⟨dropped, region, es', d, rest, rfl, hpass, hat, hs, hrest⟩
    · exact .inl (List.forall_mem_cons.mpr ⟨rfl, List.forall_mem_cons.mpr ⟨rfl, ih⟩⟩)
    · exact .inr ⟨_ :: _ :: dropped, region, es', d, rest, rfl,
        List.forall_mem_cons.mpr ⟨rfl, List.forall_mem_cons.mpr ⟨rfl, hpass⟩⟩, hat, hs, hrest⟩

/-- a thrown value passes the slots of a frame or finds a handler there -/
theorem unwindThrow (h : Holds program T heap base i es ss) (rest : List Slot) :
    (Stack.of (ss ++ rest)).unwindThrow = (Stack.of rest).unwindThrow
      ∨ ∃ region es' d ss', (Stack.of (ss ++ rest)).unwindThrow = .caught region (.of (ss' ++ rest))
        ∧ Stands program T i region.handler ⟨.value :: es', d⟩ ∧ ScopeAt heap base d region.env
        ∧ Holds program T heap base i es' ss' := by
  rcases h.handler with hpass | ⟨dropped, region, es', d, ss', rfl, hpass, hat, hs, hrest⟩
  · exact .inl (Stack.unwindThrow_passed _ _ hpass)
  · refine .inr ⟨region, es', d, ss', ?_, hat, hs, hrest⟩
    rw [List.append_assoc, Stack.unwindThrow_passed _ _ hpass]
    rfl

end Holds

namespace Frames

variable {program : Program} {T : Location → Shape} {heap heap' : Heap} {global base : EnvId}
  {hosted : Bool} {i : Nat} {es : List Entry} {own rest : List Slot}

theorem later (h : Frames program T heap global hosted i base rest) (hl : heap.Later heap') :
    Frames program T heap' global hosted i base rest := by
  induction h with
  | main h hglobal => exact .main h hglobal
  | host h hi hsite => exact .host h hi hsite
  | call hi hsite hat hs hown _ ih => exact .call hi hsite hat (hs.later hl) (hown.later hl) ih

/-- Where a thrown value is caught, the handler's frame has the shape that the handler needs. -/
theorem unwindThrow (h : Frames program T heap global hosted i base rest)
    (hown : Holds program T heap base i es own) {region : TryRegion} {st : Stack}
    (hst : (Stack.of (own ++ rest)).unwindThrow = .caught region st) :
    ∃ i' base' es' d own' rest', st = .of (own' ++ rest')
      ∧ Stands program T i' region.handler ⟨.value :: es', d⟩ ∧ ScopeAt heap base' d region.env
      ∧ Holds program T heap base' i' es' own' ∧ Frames program T heap global hosted i' base' rest' := by
  induction h generalizing es own with
  | main h hglobal =>
    rcases hown.unwindThrow [] with hpass | ⟨region', es', d, own', hcaught, hat, hs, hrest⟩
    · rw [hpass, Stack.unwindThrow_nil] at hst
      cases hst
    · rw [hcaught] at hst
      cases hst
      exact ⟨_, _, es', d, own', _, rfl, hat, hs, hrest, .main h hglobal⟩
  | host h hi hsite =>
    rcases hown.unwindThrow [.callSite _] with hpass | ⟨region', es', d, own', hcaught, hat, hs, hrest⟩
    · rw [hpass, Stack.unwindThrow_site, if_pos hsite] at hst
      cases hst
    · rw [hcaught] at hst
      cases hst
      exact ⟨_, _, es', d, own', _, rfl, hat, hs, hrest, .host h hi hsite⟩
  | call hi hsite hat' hs' hown' hframes ih =>
    rcases hown.unwindThrow (.callSite _ :: _) with
      hpass | ⟨region', es', d, own', hcaught, hat, hs, hrest⟩
    · rw [hpass, Stack.unwindThrow_site, if_neg (by rw [hsite]; exact Bool.false_ne_true)] at hst
      exact ih hown' (Unwound.of_through hst)
    · rw [hcaught] at hst
      cases hst
      exact ⟨_, _, es', d, own', _, rfl, hat, hs, hrest, .call hi hsite hat' hs' hown' hframes⟩

/-- below a function's own slots is its call site -/
theorem site (h : Frames program T heap global hosted i base rest) (hi : i ≠ 0) :
    ∃ site below, rest = .callSite site :: below
      ∧ ((site.fromHost = true ∧ hosted = true ∧ below = [])
        ∨ (site.fromHost = false ∧ ∃ i' base' es d own rest', below = own ++ rest'
          ∧ Stands program T i' site.caller ⟨.value :: es, d⟩ ∧ ScopeAt heap base' d site.env
          ∧ Holds program T heap base' i' es own
          ∧ Frames program T heap global hosted i' base' rest')) := by
  cases h with
  | main => exact absurd rfl hi
  | host h _ hsite => exact ⟨_, _, rfl, .inl ⟨hsite, h, rfl⟩⟩
  | call _ hsite hat hs hown h =>
    exact ⟨_, _, rfl, .inr ⟨hsite, _, _, _, _, _, _, rfl, hat, hs, hown, h⟩⟩

/-- nothing is below the main code -/
theorem main_eq (h : Frames program T heap global hosted 0 base rest) :
    hosted = false ∧ rest = [] := by
  cases h with
  | main h _ => exact ⟨h, rfl⟩
  | host _ hi _ => exact absurd rfl hi
  | call hi _ _ _ _ _ => exact absurd rfl hi

end Frames

/-! ## states -/

/-- the heap names no unknown function, and the global scope is on it -/
structure HeapOk (linked : Linked) (heap : Heap) : Prop where
  known : heap.Known linked.program.functions.size
  global : linked.global.index < heap.cells.size

theorem HeapOk.step {linked : Linked} {heap heap' : Heap} (h : HeapOk linked heap)
    (hstep : HeapStep linked.program.functions.size heap heap') : HeapOk linked heap' :=
  ⟨hstep.known h.known, Nat.lt_of_lt_of_le h.global hstep.later.size⟩

/-- The state is at `loc`, and the running frame has the shape `σ`.  While an instruction runs this
need not be the shape of the place. -/
structure Here (linked : Linked) (T : Location → Shape) (hosted : Bool) (loc : Location) (σ : Shape)
    (s : State) : Prop where
  location : s.location = loc
  heap : HeapOk linked s.heap
  frame : ∃ base own rest, s.stack = .of (own ++ rest)
    ∧ Frames linked.program T s.heap linked.global hosted loc.sectionIndex base rest
    ∧ Holds linked.program T s.heap base loc.sectionIndex σ.entries own
    ∧ ScopeAt s.heap base σ.depth s.env

/-- the running frame has the shape that the next instruction needs -/
structure Sound (linked : Linked) (T : Location → Shape) (hosted : Bool) (s : State) : Prop where
  exists_ : (linked.program.instruction? s.location.sectionIndex s.location.pc).isSome
  here : Here linked T hosted s.location (T s.location) s

/-- a frame goes on with a value, at a place that needs it -/
theorem Stands.sound {linked : Linked} {T : Location → Shape} {hosted : Bool} {i d : Nat}
    {loc : Location} {es : List Entry} {base env : EnvId} {own rest : List Slot} {heap : Heap}
    {events : List Event} {v : Value} (hat : Stands linked.program T i loc ⟨.value :: es, d⟩)
    (hv : v.Known linked.program.functions.size) (hheap : HeapOk linked heap)
    (hs : ScopeAt heap base d env) (hown : Holds linked.program T heap base i es own)
    (hrest : Frames linked.program T heap linked.global hosted i base rest) :
    Sound linked T hosted ⟨loc, env, (Stack.of (own ++ rest)).push (.value v), heap, events⟩ := by
  obtain ⟨rfl, hexists, hshape⟩ := hat
  refine ⟨hexists, rfl, hheap, base, .value v :: own, rest, rfl, hrest, ?_, ?_⟩
  · rw [hshape]
    exact .value hv hown
  · rw [hshape]
    exact hs

end ScriptMachine
