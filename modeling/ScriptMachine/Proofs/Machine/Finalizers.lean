import ScriptMachine.Proofs.Machine.Assignment

/-!
# The environments of finalizers

A region remembers the environment that it is entered in.  At the end of its body this is the environment
in use again, and a value that the region catches goes on there.  A jump that crosses the region leaves no
scope before the finalizer, which then runs inside of the scopes of the jump.  There a name means what it
means outside of the region if and only if none of these scopes has declared it.

* `openRegions`         the regions of the running frame;
* `Heap.Around`         an environment around another one, with the scopes in between;
* `Heap.Around.owner?_iff`   which names these scopes leave alone;
* `State.Guarded`       what the regions of a state have to do with its environment;
* `session_guarded`     all states of all sessions.
-/

namespace ScriptMachine

/-- the regions that are open in the running frame, the innermost first -/
def openRegions : List Slot → List TryRegion
  | [] => []
  | .callSite _ :: _ => []
  | .tryRegion region :: slots => region :: openRegions slots
  | _ :: slots => openRegions slots

theorem mem_openRegions {region : TryRegion} {slots below : List Slot}
    (h : slots = .tryRegion region :: below) : region ∈ openRegions slots := by
  rw [h]
  exact List.mem_cons_self

/-! ## environments around each other -/

/-- `outer` stands around `env`, and from `env` on there are only the scopes `inner` before it -/
structure Heap.Around (h : Heap) (outer env : EnvId) (inner : List EnvId) : Prop where
  chain : h.chain env = inner ++ h.chain outer
  scopes : ∀ e ∈ inner, h.kind e = .scope

section
variable {h h' : Heap} {outer env base : EnvId} {inner blocks : List EnvId} {name : String} {d : Nat}

namespace Heap

/-- A name means the same binding inside and outside if and only if no scope in between has it. -/
theorem Around.owner?_iff (ha : h.Around outer env inner) :
    h.owner? env name = h.owner? outer name ↔ ∀ e ∈ inner, h.getOwn? e name = none := by
  have hown (e : EnvId) : h.getOwn? e name = none ↔ ¬ h.hasOwn e name = true := by
    rw [hasOwn, Option.not_isSome_iff_eq_none]
  have hsplit : h.owner? env name
      = (inner.find? fun e => h.hasOwn e name).or (h.owner? outer name) := by
    unfold owner?
    rw [ha.chain, List.find?_append]
  constructor
  · intro hsame e he
    cases hfind : inner.find? fun e => h.hasOwn e name with
    | none => exact (hown e).mpr (List.find?_eq_none.mp hfind e he)
    | some o =>
      -- the scope that has the name is not around `outer` as well
      rw [hfind] at hsplit
      have houter : o ∈ h.chain outer := List.mem_of_find?_eq_some (hsame.symm.trans hsplit)
      have hnodup := h.nodup_chain env
      rw [ha.chain] at hnodup
      exact absurd houter (List.disjoint_of_nodup_append hnodup (List.mem_of_find?_eq_some hfind))
  · intro hnone
    rw [hsplit, List.find?_eq_none.mpr fun e he => (hown e).mp (hnone e he)]
    rfl

/-- in a new scope every name means what it means around it -/
theorem owner?_newScope (hlt : env.index < h.cells.size) :
    (h.newScope env).2.owner? (h.newScope env).1 name = h.owner? env name := by
  have hown (e : EnvId) : (h.newScope env).2.hasOwn e name = h.hasOwn e name :=
    congrArg Option.isSome (h.getOwn?_newEnv .scope (some env) e name)
  have hfresh : h.hasOwn (h.newScope env).1 name = false := by
    have hout : h.cell? (h.newScope env).1 = none := Array.getElem?_eq_none (Nat.le_refl _)
    rw [hasOwn, getOwn?, hout]
    rfl
  have hchain : (h.newScope env).2.chain env = h.chain env := (Grows.newEnv .scope (some env)).chain hlt
  unfold owner?
  rw [chain_parent (h.parent?_newScope env hlt), hchain, funext hown, List.find?_cons, hfresh]

/-- all regions of the running frame have been entered around the environment in use -/
theorem Enclosed.regions {slots : List Slot} (hs : h.Enclosed env slots) :
    ∀ region ∈ openRegions slots, region.env ∈ h.chain env := by
  induction slots generalizing env with
  | nil => exact nofun
  | cons slot slots ih =>
    cases slot with
    | tryRegion region =>
      refine List.forall_mem_cons.mpr ⟨hs.1, fun region' hmem => ?_⟩
      exact (chain_suffix hs.1).subset (ih hs.2 region' hmem)
    | callSite _ => exact nofun
    | loopMarker _ => exact ih (Enclosed.inner hs.2 hs.1)
    | value _ | nativeResult => exact ih hs

end Heap

/-- between two environments of a frame there are only block scopes -/
theorem Nested.around {d' : Nat} (hn : Nested blocks h base d env) (hn' : Nested blocks h base d' outer)
    (hblocks : h.AreScopes blocks) (hmem : outer ∈ h.chain env) : ∃ inner, h.Around outer env inner := by
  obtain ⟨inner, hchain⟩ := Heap.chain_suffix hmem
  obtain ⟨all, hall, -, hscopes⟩ := hn.chain
  obtain ⟨further, hfurther, -⟩ := hn'.chain
  have hsplit : inner ++ further = all := by
    rw [hfurther, ← List.append_assoc, hall] at hchain
    exact List.append_cancel_right hchain
  refine ⟨inner, hchain.symm, fun e he => (hblocks e ?_).2⟩
  exact (hscopes e (hsplit ▸ List.mem_append_left _ he)).1

/-- environments of a frame around each other that are as deep as each other are the same -/
theorem ScopeAt.eq_of_mem_chain (hs : ScopeAt h base d env) (hs' : ScopeAt h base d outer)
    (hmem : outer ∈ h.chain env) : env = outer := by
  have hlength := hs.length_chain.trans hs'.length_chain.symm
  have hchain := (Heap.chain_suffix hmem).eq_of_length hlength.symm
  rw [Heap.chain_eq h env, Heap.chain_eq h outer] at hchain
  exact (List.cons.inj hchain).1.symm

theorem Lodged.regions {T : Location → Shape} {global : EnvId} {f : Frame} {fs : List Frame}
    {slots : List Slot} (hl : Lodged T global blocks h (f :: fs) slots) :
    ∀ region ∈ openRegions slots, ∃ d, Nested blocks h (f.base global) d region.env := by
  generalize hfs : f :: fs = frames at hl
  induction hl with
  | main | host | call => exact nofun
  | @own _ _ _ slot hslot _ ih =>
    cases hfs
    cases slot with
    | tryRegion region => exact List.forall_mem_cons.mpr ⟨⟨_, hslot⟩, ih rfl⟩
    | callSite _ => exact hslot.elim
    | value _ | loopMarker _ | nativeResult => exact ih rfl

end

/-! ## states -/

/-- What the regions of a state have to do with its environment. -/
structure State.Guarded (linked : Linked) (s : State) : Prop where
  /-- a region is entered in the environment in use -/
  entered : ∀ label s', execute linked (.enterTry label) s = .ok .proceed s' → s'.env = s.env
    ∧ ∃ handler, s'.stack.slots = .tryRegion ⟨handler, s.env⟩ :: s.stack.slots
  /-- Until a region is left, there are only scopes between the environment in use and the one that the
  region was entered in.  A name means the same in both if and only if none of them has it. -/
  inside : ∀ region ∈ openRegions s.stack.slots, ∃ inner, s.heap.Around region.env s.env inner
    ∧ ∀ name, s.heap.owner? s.env name = s.heap.owner? region.env name
      ↔ ∀ e ∈ inner, s.heap.getOwn? e name = none
  /-- What leaves a region leaves the innermost one and stays in its environment.  At the end of a body
  this is the one that the region was entered in. -/
  left : ∀ ins, linked.program.instruction? s.location.sectionIndex s.location.pc = some ins →
    ins.op = .leaveTry → ∃ region below, s.stack.slots = .tryRegion region :: below
      ∧ (∃ s', execute linked .leaveTry s = .ok .proceed s' ∧ s'.env = s.env ∧ s'.stack.slots = below)
      ∧ ((∀ next, linked.program.instruction? s.location.sectionIndex (s.location.pc + 1) = some next →
        next.op.followsBody = true) → s.env = region.env)
  /-- a thrown value goes on in the environment that the region was entered in which catches it -/
  caught : ∀ v region rest, s.stack.unwindThrow = .caught region rest →
    ∃ s', Exec.throwValue v linked s = .ok () s' ∧ s'.env = region.env ∧ s'.location = region.handler
  /-- a finalizer has a new scope of its own in the environment that it is started in -/
  opened : ∀ s', execute linked .enterScope s = .ok .proceed s' →
    s'.heap.parent? s'.env = some s.env ∧ s.heap.cells.size ≤ s'.env.index
      ∧ ∀ name, s'.heap.owner? s'.env name = s.heap.owner? s.env name

section
variable {linked : Linked} {T : Location → Shape} {hosted : Bool} {blocks : List EnvId} {f : Frame}
  {fs : List Frame} {s s' : State}

theorem execute_enterTry {label : Label} (h : execute linked (.enterTry label) s = .ok .proceed s') :
    s'.env = s.env ∧ ∃ handler, s'.stack.slots = .tryRegion ⟨handler, s.env⟩ :: s.stack.slots := by
  cases hlabel : linked.labels.resolve? label with
  | none =>
    have hresolve : Exec.resolve label linked s.next
        = .error (Exec.defectAt s.next (.unresolvedLabel label)) s.next := by
      unfold Exec.resolve
      rw [Exec.read_bind, hlabel]
      rfl
    cases (Exec.bind_error (Exec.bind_error hresolve _) _).symm.trans h
  | some handler =>
    have hperform : Exec.perform (.enterTry label) linked s.next
        = .ok () { s.next with stack := s.stack.push (.tryRegion ⟨handler, s.env⟩) } :=
      Exec.bind_ok (Exec.resolve_some hlabel) _
    cases (Exec.bind_ok hperform _).symm.trans h
    exact ⟨rfl, handler, rfl⟩

theorem execute_leaveTry {region : TryRegion} {below : List Slot}
    (hslots : s.stack.slots = .tryRegion region :: below) :
    ∃ s', execute linked .leaveTry s = .ok .proceed s' ∧ s'.env = s.env ∧ s'.stack.slots = below := by
  obtain ⟨loc, env, ⟨slots, depth, hdepth⟩, heap, events⟩ := s
  cases hslots
  exact ⟨_, rfl, rfl, rfl⟩

/-- The region that an instruction leaves is on top.  At the end of a body it has been entered as deep as the
instruction stands, so in the same environment. -/
theorem Sound.leaveTry (hshape : WellShaped linked.program linked.labels T) (hs : Sound linked T hosted s)
    (henclosed : s.heap.Enclosed s.env s.stack.slots) {ins : Instruction}
    (hins : linked.program.instruction? s.location.sectionIndex s.location.pc = some ins)
    (hop : ins.op = .leaveTry) :
    ∃ region below, s.stack.slots = .tryRegion region :: below
      ∧ ((∀ next, linked.program.instruction? s.location.sectionIndex (s.location.pc + 1) = some next →
        next.op.followsBody = true) → s.env = region.env) := by
  obtain ⟨-, -, base, own, rest, hst, -, hholds, hscope⟩ := hs.here
  have hslots : s.stack.slots = own ++ rest := congrArg Stack.slots hst
  have htyped := hshape.typed _ _ ins hins
  have hlevels := hshape.levels _ _ ins hins hop
  rw [hop] at htyped
  generalize T s.location = σ, T ⟨s.location.sectionIndex, s.location.pc + 1⟩ = τ
    at htyped hlevels hholds hscope
  cases htyped with
  | leaveTry =>
    cases hholds with
    | guard _ hsaved _ =>
      rw [hslots] at henclosed
      refine ⟨_, _, hslots, fun hnext => ?_⟩
      have hdepth := Entry.guard.inj (Option.some.inj (hlevels hnext))
      exact hscope.eq_of_mem_chain (hdepth ▸ hsaved) henclosed.1

/-- **The environment of a finalizer.**  In every state of every session, a region that is open in the
running frame remembers the environment that it was entered in, and there are only scopes between this one
and the environment in use.  At the end of the body of a `try` and of a `catch` clause it is the environment
in use, and a thrown value goes on in it.  So there, but for the scope of the clause, a finalizer is started
in the environment of its `try`.  A jump that crosses regions leaves them in the environment of the jump and
starts their finalizers there: a name means in a finalizer what it means around the region if and only if
none of the scopes in between has it. -/
theorem session_guarded (h : InSession linked s) : s.Guarded linked := by
  obtain ⟨T, hosted, f, fs, blocks, hshape, hsound, hlives⟩ := h.settled
  have hlt := hlives.nested.lt ((hlives.lodged.stands hlives.nested).base_lt hlives.sane.root)
  refine ⟨fun label s' hs' => execute_enterTry hs', fun region hregion => ?_, fun ins hins hop => ?_,
    fun v region rest hcaught => ?_, fun s' hs' => ?_⟩
  · obtain ⟨d, hnested⟩ := hlives.lodged.regions region hregion
    obtain ⟨inner, haround⟩ :=
      hlives.nested.around hnested hlives.scopes (hlives.enclosed.regions region hregion)
    exact ⟨inner, haround, fun name => haround.owner?_iff⟩
  · obtain ⟨region, below, hslots, hsame⟩ := hsound.leaveTry hshape hlives.enclosed hins hop
    exact ⟨region, below, hslots, execute_leaveTry hslots, hsame⟩
  · rw [Exec.throwValue_eq, hcaught]
    exact ⟨_, rfl, rfl, rfl⟩
  · cases hs'
    exact ⟨s.heap.parent?_newScope s.env hlt, Nat.le_refl _, fun name => Heap.owner?_newScope hlt⟩

end

/-- a `try` that ends in the first call of its function and that a `return` crosses in the second -/
def crossedOnce : String :=
  "function f(b) \x7b var x; try \x7b var x; if (b) return 0; \x7d finally \x7b x; \x7d \x7d "
    ++ "f(false); f(true);"

/-- the next two operations after so many instructions, and what `x` belongs to in the environment in use
and around the open regions -/
def leavingAfter (text : String) (n : Nat) : Option (List (Option Op) × List (Option EnvId)) :=
  (sessionAfter text n).map fun (linked, s) =>
    ([s.location.pc, s.location.pc + 1].map fun pc =>
        (linked.program.instruction? s.location.sectionIndex pc).map Instruction.op,
      (s.env :: (openRegions s.stack.slots).map TryRegion.env).map fun e => s.heap.owner? e "x")

theorem exists_of_leavingAfter {text : String} {n : Nat} {next : Op} {o o' : EnvId}
    (h : leavingAfter text n = some ([some .leaveTry, some next], [some o, some o'])) :
    ∃ (linked : Linked) (s : State) (ins : Instruction), InSession linked s
      ∧ linked.program.instruction? s.location.sectionIndex s.location.pc = some ins ∧ ins.op = .leaveTry
      ∧ (∀ ins', linked.program.instruction? s.location.sectionIndex (s.location.pc + 1) = some ins' →
        ins'.op = next)
      ∧ s.heap.owner? s.env "x" = some o
      ∧ ∀ region ∈ openRegions s.stack.slots, s.heap.owner? region.env "x" = some o' := by
  obtain ⟨⟨linked, s⟩, hafter, hfacts⟩ := Option.map_eq_some_iff.mp h
  simp only [List.map_cons, List.map_nil, List.map_map, Prod.mk.injEq, List.cons.injEq, and_true] at hfacts
  obtain ⟨⟨hop, hnext⟩, howner, houter⟩ := hfacts
  obtain ⟨ins, hins, hop⟩ := Option.map_eq_some_iff.mp hop
  refine ⟨linked, s, ins, inSession_of_after hafter, hins, hop, fun ins' hins' => ?_, howner,
    fun region hregion => ?_⟩
  · rw [hins'] at hnext
    exact Option.some.inj hnext
  · have hmem := List.mem_map_of_mem (f := (fun e => s.heap.owner? e "x") ∘ TryRegion.env) hregion
    rw [houter] at hmem
    exact List.mem_singleton.mp hmem

/-- the finalizer finds the `x` of the function in the first call, and that of the body in the second -/
theorem session_guarded_crossed :
    (∃ (linked : Linked) (s s' : State) (region : TryRegion), InSession linked s
      ∧ execute linked .leaveTry s = .ok .proceed s'
      ∧ s.stack.slots = .tryRegion region :: s'.stack.slots ∧ s'.env = region.env
      ∧ s.heap.owner? region.env "x" = some ⟨1⟩ ∧ s.heap.owner? s'.env "x" = some ⟨1⟩)
    ∧ ∃ (linked : Linked) (s s' : State) (region : TryRegion) (inner : List EnvId), InSession linked s
      ∧ execute linked .leaveTry s = .ok .proceed s'
      ∧ s.stack.slots = .tryRegion region :: s'.stack.slots ∧ s.heap.Around region.env s'.env inner
      ∧ s.heap.owner? region.env "x" = some ⟨4⟩ ∧ s.heap.owner? s'.env "x" = some ⟨5⟩
      ∧ ∃ e ∈ inner, s.heap.getOwn? e "x" ≠ none := by
  have hfacts : [18, 47].map (leavingAfter crossedOnce)
      = [some ([some .leaveTry, some (.jump 1)], [some ⟨1⟩, some ⟨1⟩]),
        some ([some .leaveTry, some .enterScope], [some ⟨5⟩, some ⟨4⟩])] := by cbv
  simp only [List.map_cons, List.map_nil, List.cons.injEq, and_true] at hfacts
  obtain ⟨hended, hcrossed⟩ := hfacts
  constructor
  · obtain ⟨linked, s, ins, hsession, hins, hop, hnext, howner, houter⟩ := exists_of_leavingAfter hended
    obtain ⟨region, below, hslots, ⟨s', hexec, henv, hbelow⟩, hsame⟩ :=
      (session_guarded hsession).left ins hins hop
    refine ⟨linked, s, s', region, hsession, hexec, by rw [hslots, hbelow], ?_,
      houter region (mem_openRegions hslots), henv ▸ howner⟩
    rw [henv]
    exact hsame fun ins' hins' => by rw [hnext ins' hins']; rfl
  · obtain ⟨linked, s, ins, hsession, hins, hop, -, howner, houter⟩ := exists_of_leavingAfter hcrossed
    have hguarded := session_guarded hsession
    obtain ⟨region, below, hslots, ⟨s', hexec, henv, hbelow⟩, -⟩ := hguarded.left ins hins hop
    have houter := houter region (mem_openRegions hslots)
    obtain ⟨inner, haround, hmeans⟩ := hguarded.inside region (mem_openRegions hslots)
    refine ⟨linked, s, s', region, inner, hsession, hexec, by rw [hslots, hbelow], henv ▸ haround, houter,
      henv ▸ howner, ?_⟩
    by_contra hnone
    have hsame := (hmeans "x").mpr fun e he => by_contra fun hown => hnone ⟨e, he, hown⟩
    cases howner.symm.trans (hsame.trans houter)

end ScriptMachine
