import ScriptMachine.Proofs.Machine.Bindings
import ScriptMachine.Proofs.Machine.Histories

/-!
# What an assignment changes

Environments share their parents, so one binding is seen from many of them.  An assignment writes the
binding that its name means, which is the one in the nearest environment that has the name.  The
environments from which the name means that same binding see the new value, and nothing else changes.

* `Heap.Nearest`        the environment whose binding a name means;
* `Heap.Rebinds`        two heaps that differ in one binding;
* `Heap.Rebinds.lookup?`   what is seen of the new binding;
* `InSession.chain`     in a session all chains end in the global environment;
* `lookup_of_assign`    the main statement.
-/

namespace ScriptMachine

namespace Heap

variable {h h' : Heap} {e e' o o' : EnvId} {x y : String} {v : Value}

/-! ## what a name means -/

/-- of the environments from `e` to its root, `o` is the first one that binds `x` -/
def Nearest (h : Heap) (e : EnvId) (x : String) (o : EnvId) : Prop :=
  ∃ nearer further, h.chain e = nearer ++ o :: further
    ∧ (∀ p ∈ nearer, h.getOwn? p x = none) ∧ (h.getOwn? o x).isSome

theorem owner?_eq_some : h.owner? e x = some o ↔ h.Nearest e x o := by
  unfold owner? Nearest
  rw [List.find?_eq_some_iff_append]
  constructor
  · rintro ⟨hown, nearer, further, hchain, hnearer⟩
    refine ⟨nearer, further, hchain, fun p hp => ?_, hown⟩
    have hnot := hnearer p hp
    rw [Bool.not_eq_true'] at hnot
    exact Option.not_isSome_iff_eq_none.mp (Bool.eq_false_iff.mp hnot)
  · rintro ⟨nearer, further, hchain, hnearer, hown⟩
    refine ⟨hown, nearer, further, hchain, fun p hp => ?_⟩
    unfold hasOwn
    rw [hnearer p hp]
    rfl

theorem Nearest.lookup? (ho : h.Nearest e x o) : h.lookup? e x = h.getOwn? o x := by
  unfold Heap.lookup?
  rw [owner?_eq_some.mpr ho]
  rfl

theorem Nearest.isSome (ho : h.Nearest e x o) : (h.getOwn? o x).isSome := by
  obtain ⟨_, _, -, -, hown⟩ := ho
  exact hown

theorem Nearest.lt (ho : h.Nearest e x o) : o.index < h.cells.size := by
  obtain ⟨w, hw⟩ := Option.isSome_iff_exists.mp ho.isSome
  exact lt_size_of_own hw

theorem owner?_eq_none : h.owner? e x = none ↔ h.lookup? e x = none := by
  cases howner : h.owner? e x with
  | none =>
    unfold lookup?
    rw [howner]
    exact iff_of_true rfl rfl
  | some o =>
    have ho := owner?_eq_some.mp howner
    rw [ho.lookup?]
    exact iff_of_false (Option.some_ne_none o) (Option.ne_none_iff_isSome.mpr ho.isSome)

/-! ## one binding -/

/-- In `h'` the name `x` of `o` is bound to `v`, and all else is as in `h`: the other bindings, the
environments with their kinds and parents, and the arrays. -/
structure Rebinds (h h' : Heap) (o : EnvId) (x : String) (v : Value) : Prop where
  own : ∀ e y, h'.getOwn? e y = if e = o ∧ y = x then some v else h.getOwn? e y
  size : h'.cells.size = h.cells.size
  kind : ∀ e, h'.kind e = h.kind e
  parent : ∀ e, h'.parent? e = h.parent? e
  arrays : h'.arrays = h.arrays

theorem rebinds_define (ho : o.index < h.cells.size) (x : String) (v : Value) :
    h.Rebinds (h.define o x v) o x v where
  own e y := by
    have hcell : h.cell? o = some h.cells[o.index] := Array.getElem?_eq_getElem ho
    rw [getOwn?_define, hcell]
    rfl
  size := h.size_define o x v
  kind e := h.kind_define o e x v
  parent e := h.parent?_define o e x v
  arrays := rfl

namespace Rebinds

theorem chain (hr : h.Rebinds h' o x v) (e : EnvId) : h'.chain e = h.chain e := by
  induction e using chain_induction h with
  | root e hp => rw [chain_root hp, chain_root ((hr.parent e).trans hp)]
  | inside e p hp ih => rw [chain_parent hp, chain_parent ((hr.parent e).trans hp), ih]

/-- if `o` has bound the name before, every name still means the same binding -/
theorem owner? (hr : h.Rebinds h' o x v) (hown : (h.getOwn? o x).isSome) (e : EnvId) (y : String) :
    h'.owner? e y = h.owner? e y := by
  have hhas (p : EnvId) : h'.hasOwn p y = h.hasOwn p y := by
    unfold hasOwn
    rw [hr.own]
    split
    · next hsame =>
      obtain ⟨rfl, rfl⟩ := hsame
      exact hown.symm
    · rfl
  unfold Heap.owner?
  rw [hr.chain, funext hhas]

/-- The new value is seen from where the name means the new binding. -/
theorem lookup? (hr : h.Rebinds h' o x v) (hown : (h.getOwn? o x).isSome) (e : EnvId) (y : String) :
    h'.lookup? e y = if y = x ∧ h.owner? e y = some o then some v else h.lookup? e y := by
  unfold Heap.lookup?
  rw [hr.owner? hown]
  cases howner : h.owner? e y with
  | none => exact (if_neg fun hsame => nomatch hsame.2).symm
  | some p =>
    show h'.getOwn? p y = _
    rw [hr.own]
    by_cases hsame : p = o ∧ y = x
    · rw [if_pos hsame, if_pos ⟨hsame.2, congrArg some hsame.1⟩]
    · rw [if_neg hsame, if_neg fun h => hsame ⟨Option.some.inj h.2, h.1⟩]
      rfl

end Rebinds

/-! ## assignments -/

theorem assign?_isSome (h : Heap) (e : EnvId) (x : String) (v : Value) :
    (h.assign? e x v).isSome = (h.lookup? e x).isSome := by
  unfold assign?
  rw [Option.isSome_map]
  cases howner : h.owner? e x with
  | none =>
    rw [owner?_eq_none.mp howner]
    rfl
  | some o =>
    have ho := owner?_eq_some.mp howner
    rw [ho.lookup?, ho.isSome]
    rfl

/-- a name that is not found becomes bound at the root -/
theorem lookup?_stored (h : Heap) {global : EnvId} (hlt : global.index < h.cells.size)
    (hlast : (h.chain e).getLast? = some global) (x : String) (v : Value) :
    ((h.assign? e x v).getD (h.define global x v)).lookup? e x = some v := by
  unfold assign?
  cases howner : h.owner? e x with
  | some o =>
    have ho := owner?_eq_some.mp howner
    have hr := rebinds_define ho.lt x v
    show (h.define o x v).lookup? e x = some v
    rw [hr.lookup? ho.isSome, if_pos ⟨rfl, howner⟩]
  | none =>
    have hr := rebinds_define hlt x v
    have hmem : global ∈ h.chain e := List.mem_of_getLast? hlast
    show ((h.define global x v).owner? e x).bind _ = some v
    unfold owner? at howner ⊢
    rw [hr.chain]
    cases hfind : (h.chain e).find? fun p => (h.define global x v).hasOwn p x with
    | none =>
      have hnot := List.find?_eq_none.mp hfind global hmem
      unfold hasOwn at hnot
      rw [hr.own, if_pos ⟨rfl, rfl⟩] at hnot
      exact absurd rfl hnot
    | some o =>
      -- no other environment of the chain has the name
      have hown : (h.define global x v).hasOwn o x = true :=
        List.find?_some (p := fun p => (h.define global x v).hasOwn p x) hfind
      have hother := List.find?_eq_none.mp howner o (List.mem_of_find?_eq_some hfind)
      unfold hasOwn at hown hother
      show (h.define global x v).getOwn? o x = some v
      rw [hr.own] at hown ⊢
      by_cases ho : o = global ∧ x = x
      · exact if_pos ho
      · rw [if_neg ho] at hown
        exact absurd hown hother

/-- an assignment writes the nearest binding -/
theorem rebinds_of_assign? (ha : h.assign? e x v = some h') :
    ∃ o, h.Nearest e x o ∧ h.Rebinds h' o x v := by
  obtain ⟨o, howner, rfl⟩ := Option.map_eq_some_iff.mp ha
  have ho := owner?_eq_some.mp howner
  exact ⟨o, ho, rebinds_define ho.lt x v⟩

end Heap

/-! ## sessions -/

section
variable {linked : Linked} {s : State} {x : String} {v : Value}

theorem Frame.getLast?_around (f : Frame) (global : EnvId) :
    (f.around global).getLast? = some global := by
  cases f with
  | main => rfl
  | call scope receiver => cases receiver <;> rfl

/-- Whatever a session runs in is inside of the global environment. -/
theorem InSession.chain (h : InSession linked s) :
    s.heap.Rooted linked.global ∧ (s.heap.chain s.env).getLast? = some linked.global := by
  obtain ⟨T, hosted, f, fs, blocks, -, -, hlives⟩ := h.settled
  have hroot := hlives.sane.root
  obtain ⟨inner, hchain, -⟩ := hlives.nested.seen (hlives.lodged.stands hlives.nested) hroot
  refine ⟨hroot, ?_⟩
  rw [hchain, List.getLast?_append, f.getLast?_around]
  rfl

/-- storing a variable assigns to it, and if it means nothing it becomes a global one -/
theorem execute_store {below : List Slot} (x : String) (hslots : s.stack.slots = .value v :: below) :
    execute linked (.store x false) s = .ok .proceed { s.next with
      heap := (s.heap.assign? s.env x v).getD (s.heap.define linked.global x v) } := by
  obtain ⟨loc, env, ⟨slots, depth, hdepth⟩, heap, events⟩ := s
  cases hslots
  have hheap : heap.define ((heap.owner? env x).getD linked.global) x v
      = (heap.assign? env x v).getD (heap.define linked.global x v) := by
    unfold Heap.assign?
    cases heap.owner? env x <;> rfl
  rw [← hheap]
  rfl

/-- a variable that means something is fetched -/
theorem execute_fetch (hthis : x ≠ "this") (hlook : s.heap.lookup? s.env x = some v) :
    execute linked (.fetch x .variable) s
      = .ok .proceed { s.next with stack := s.stack.push (.value v) } := by
  have hscript : Exec.lookupScript? linked s.next x = some v := by
    unfold Exec.lookupScript?
    rw [if_neg hthis]
    show (s.heap.lookup? s.env x).or _ = _
    rw [hlook]
    rfl
  exact Exec.bind_ok (Exec.fetchVariable_some hscript) _

end

/-- **An assignment changes one binding, and look-up sees it.**  Take any environments and any of them,
`e`.  An assignment of `x` from there succeeds if and only if `x` is found from there; else nothing
changes.  If it succeeds, it writes the binding of `x` in the nearest environment that has one, and no
other; the new value is what is found from every environment from which `x` means this binding, and
everywhere and for every name else it is what was found before.  In a session every chain of environments
ends in the global one, where a variable becomes bound that means nothing.  So whatever variable is stored,
the stored value is fetched in the same environment, for as long as the heap is the same. -/
theorem lookup_of_assign (h : Heap) (e : EnvId) (x : String) (v : Value) :
    (h.assign? e x v).isSome = (h.lookup? e x).isSome
    ∧ (h.lookup? e x = none → (h.assign? e x v).getD h = h)
    ∧ (∀ h', h.assign? e x v = some h' → ∃ o, h.Nearest e x o ∧ h.Rebinds h' o x v
      ∧ (∀ e', h.Nearest e' x o → h'.lookup? e' x = some v)
      ∧ ∀ e' y, ¬ (y = x ∧ h.Nearest e' x o) → h'.lookup? e' y = h.lookup? e' y)
    ∧ ∀ (linked : Linked) (s : State) (below : List Slot), InSession linked s → x ≠ "this" →
      s.stack.slots = .value v :: below →
      (s.heap.chain s.env).getLast? = some linked.global
      ∧ ∃ stored : State, execute linked (.store x false) s = .ok .proceed stored
        ∧ stored = { s.next with
          heap := (s.heap.assign? s.env x v).getD (s.heap.define linked.global x v) }
        ∧ ∀ s₂ : State, s₂.env = stored.env → s₂.heap = stored.heap →
          execute linked (.fetch x .variable) s₂
            = .ok .proceed { s₂.next with stack := s₂.stack.push (.value v) } := by
  have hsame := h.assign?_isSome e x v
  refine ⟨hsame, fun hnone => ?_, fun h' ha => ?_, fun linked s below hsession hthis hslots => ?_⟩
  · rw [hnone] at hsame
    rw [Option.isNone_iff_eq_none.mp (Option.isSome_eq_false_iff.mp hsame)]
    rfl
  · obtain ⟨o, ho, hr⟩ := Heap.rebinds_of_assign? ha
    refine ⟨o, ho, hr, fun e' he' => ?_, fun e' y hother => ?_⟩
    · rw [hr.lookup? ho.isSome, if_pos ⟨rfl, Heap.owner?_eq_some.mpr he'⟩]
    · rw [hr.lookup? ho.isSome, if_neg]
      rintro ⟨rfl, howner⟩
      exact hother ⟨rfl, Heap.owner?_eq_some.mp howner⟩
  · obtain ⟨hroot, hlast⟩ := hsession.chain
    refine ⟨hlast, _, execute_store x hslots, rfl, fun s₂ henv hheap => execute_fetch hthis ?_⟩
    rw [henv, hheap]
    exact s.heap.lookup?_stored hroot.lt hlast x v

/-- an assignment in a block, with a variable of the same name in the block around and a global one -/
def assigningInBlock : String := "var y; \x7b var y; \x7b y = \"a\"; \x7d \x7d"

/-- the machine of a program after so many instructions -/
def sessionAfter (text : String) (n : Nat) : Option (Linked × State) :=
  match compileSource text with
  | .error _ => none
  | .ok program =>
    match Machine.load program {} with
    | .error _ => none
    | .ok m => (Run.ahead m.linked m.limits .run n ⟨m.state, 0, m.moved⟩).map fun run =>
      (m.linked, run.state)

theorem inSession_of_after {text : String} {n : Nat} {linked : Linked} {s : State}
    (h : sessionAfter text n = some (linked, s)) : InSession linked s := by
  unfold sessionAfter at h
  split at h
  · cases h
  · next program hok =>
    split at h
    · cases h
    · next m hload =>
      obtain ⟨run, hrun, heq⟩ := Option.map_eq_some_iff.mp h
      cases heq
      have hmode : m.mode = .paused := by
        obtain ⟨_, -, rfl⟩ := Machine.load_ok hload
        rfl
      have hops : m.after [] = some m := rfl
      exact .intro hok hload hops (.run hmode) hrun rfl rfl

/-- the assignment writes the variable of the block around, and the global one stays as it is -/
theorem lookup_of_assign_shadowed :
    ∃ (linked : Linked) (s stored : State), InSession linked s
      ∧ s.stack.slots.head? = some (.value (.string "a")) ∧ s.heap.chain s.env = [⟨2⟩, ⟨1⟩, ⟨0⟩]
      ∧ execute linked (.store "y" false) s = .ok .proceed stored
      ∧ execute linked (.fetch "y" .variable) stored
        = .ok .proceed { stored.next with stack := stored.stack.push (.value (.string "a")) }
      ∧ stored.heap.lookup? ⟨1⟩ "y" = some (.string "a")
      ∧ stored.heap.lookup? ⟨0⟩ "y" = some .undefined := by
  have hfacts : (sessionAfter assigningInBlock 11).map (fun r =>
      (r.2.stack.slots.head?, r.2.heap.chain r.2.env,
        [r.2.env, ⟨1⟩, ⟨0⟩].map fun e => r.2.heap.owner? e "y", r.2.heap.lookup? ⟨0⟩ "y"))
      = some (some (.value (.string "a")), [⟨2⟩, ⟨1⟩, ⟨0⟩], [some ⟨1⟩, some ⟨1⟩, some ⟨0⟩],
        some .undefined) := by cbv
  obtain ⟨⟨linked, s⟩, hafter, hfacts⟩ := Option.map_eq_some_iff.mp hfacts
  simp only [Prod.mk.injEq, List.map_cons, List.map_nil, List.cons.injEq, and_true] at hfacts
  obtain ⟨hhead, hchain, ⟨howner, howner₁, howner₀⟩, hglobal⟩ := hfacts
  obtain ⟨below, hslots⟩ := List.head?_eq_some_iff.mp hhead
  have hsession := inSession_of_after hafter
  obtain ⟨-, -, hwrites, hmachine⟩ := lookup_of_assign s.heap s.env "y" (.string "a")
  obtain ⟨-, stored, hstore, hstored, hfetch⟩ := hmachine linked s below hsession (by decide) hslots
  have hassign : s.heap.assign? s.env "y" (.string "a")
      = some (s.heap.define ⟨1⟩ "y" (.string "a")) := by
    unfold Heap.assign?
    rw [howner]
    rfl
  have hheap : stored.heap = s.heap.define ⟨1⟩ "y" (.string "a") := by
    rw [hstored, hassign]
    rfl
  obtain ⟨o, ho, -, hseen, helse⟩ := hwrites _ hassign
  obtain rfl : o = ⟨1⟩ := Option.some.inj ((Heap.owner?_eq_some.mpr ho).symm.trans howner)
  refine ⟨linked, s, stored, hsession, hhead, hchain, hstore, hfetch stored rfl rfl, ?_, ?_⟩
  · rw [hheap]
    exact hseen ⟨1⟩ (Heap.owner?_eq_some.mp howner₁)
  · rw [hheap, helse ⟨0⟩ "y", hglobal]
    rintro ⟨-, hnearest⟩
    cases howner₀.symm.trans (Heap.owner?_eq_some.mpr hnearest)

end ScriptMachine
