import ScriptMachine.Proofs.Machine.Frames

/-!
# Environments of frames

Every frame of a stack belongs to the main code or to a function that was called.  The environments
that a frame holds are block scopes inside the scope of its call, which stands in the object that the
function was called on, or else in the global environment.

* `Frame`               what a frame belongs to;
* `Frame.around`        what the block scopes of a frame stand in;
* `heldIn`              the environments that each frame of a stack holds;
* `ValueKind.real`      objects are object environments inside the global one;
* `Nested`              so many block scopes inside of an environment;
* `Lodged`              a stack whose frames hold environments of their own only;
* `Heap.chain_induction`   from an environment without a parent to all that are inside of it;
* `Heap.Enclosed`       a stack whose saved environments stand around each other;
* `Nested.chain`, `Nested.thisObject?`, `Nested.apart`   what scripts see from there.
-/

namespace ScriptMachine

/-! ## frames -/

/-- What a frame belongs to: the main code, or a call with its scope and the object that the function
was called on, if it was called on one. -/
inductive Frame where
  | main
  | call (scope : EnvId) (receiver : Option EnvId)

namespace Frame

/-- the environment that the code of the frame starts in -/
def base (global : EnvId) : Frame → EnvId
  | main => global
  | call scope _ => scope

/-- what `this` means there -/
def receiver? : Frame → Option EnvId
  | main => none
  | call _ receiver => receiver

/-- what the block scopes of the frame stand in, from the inside to the outside -/
def around (global : EnvId) : Frame → List EnvId
  | main => [global]
  | call scope receiver => scope :: (receiver.toList ++ [global])

end Frame

/-- the environments that a loop or a region goes back to -/
def Slot.saved : Slot → List EnvId
  | .loopMarker env => [env]
  | .tryRegion region => [region.env]
  | _ => []

/-- The environments that each frame holds, from the running one on: its own, and those that it has
saved on the stack. -/
def heldIn (env : EnvId) : List Slot → List (List EnvId)
  | [] => [[env]]
  | .callSite site :: slots => [env] :: if site.fromHost then [] else heldIn site.env slots
  | slot :: slots => (heldIn env slots).modifyHead (slot.saved ++ ·)

/-! ## objects -/

namespace Heap

variable {h h' : Heap} {env parent : EnvId}

theorem lt_of_parent? (hp : h.parent? env = some parent) : env.index < h.cells.size := by
  obtain ⟨cell, hcell, -⟩ := Option.bind_eq_some_iff.mp hp
  exact (Array.getElem?_eq_some_iff.mp hcell).1

theorem lt_of_kind (hk : h.kind env = .object) : env.index < h.cells.size := by
  by_contra hout
  have hnone : h.cell? env = none := Array.getElem?_eq_none (Nat.le_of_not_lt hout)
  unfold Heap.kind at hk
  rw [hnone] at hk
  cases hk

theorem Grows.parent?_eq (hg : h.Grows h') (hp : h.parent? env = some parent) :
    h'.parent? env = some parent := (hg.parent env (lt_of_parent? hp)).trans hp

theorem Grows.kind_object (hg : h.Grows h') (hk : h.kind env = .object) : h'.kind env = .object :=
  (hg.kind env (lt_of_kind hk)).trans hk

end Heap

/-- an object is an object environment right inside the global one -/
def Value.Real (global : EnvId) (h : Heap) : Value → Prop
  | .object env => h.kind env = .object ∧ h.parent? env = some global
  | _ => True

theorem Value.Real.later {global : EnvId} {h h' : Heap} {v : Value} (hv : v.Real global h)
    (hg : h.Grows h') : v.Real global h' := by
  cases v with
  | object env => exact ⟨hg.kind_object hv.1, hg.parent?_eq hv.2⟩
  | _ => trivial

/-- the global environment is a scope, and nothing is around it -/
structure Heap.Rooted (global : EnvId) (h : Heap) : Prop where
  lt : global.index < h.cells.size
  parent : h.parent? global = none
  kind : h.kind global = .scope

/-- the kind of values whose objects are real -/
def ValueKind.real (n : Nat) (global : EnvId) : ValueKind n global where
  of h v := v.Real global h
  root h := h.Rooted global
  lasts hg _ hv := hv.later hg
  root_lasts := by
    intro h h' hg hroot
    exact ⟨Nat.lt_of_lt_of_le hroot.lt hg.size, (hg.parent global hroot.lt).trans hroot.parent,
      (hg.kind global hroot.lt).trans hroot.kind⟩
  data := by
    intro h v hv
    cases v with
    | object _ => cases hv
    | _ => trivial
  function _ := trivial
  object := by
    intro h hroot
    exact ⟨h.kind_newEnv_self .object (some global), h.parent?_newEnv_self .object global hroot.lt⟩

/-! ## environments inside of frames -/

section
variable (blocks : List EnvId) (h : Heap) (base : EnvId)

/-- `env` stands `d` block scopes inside of `base` -/
def Nested : Nat → EnvId → Prop
  | 0, env => env = base
  | d + 1, env => env ∈ blocks ∧ ∃ parent, h.parent? env = some parent ∧ Nested d parent

end

/-- the scope of a call is inside the object or the global environment -/
def Frame.Stands (global : EnvId) (h : Heap) : Frame → Prop
  | .main => True
  | .call scope none => h.kind scope = .scope ∧ h.parent? scope = some global
  | .call scope (some object) => h.kind scope = .scope ∧ h.parent? scope = some object
    ∧ (Value.object object).Real global h

section
variable (T : Location → Shape) (global : EnvId) (blocks : List EnvId) (h : Heap)

/-- the entry saves an environment of the frame; a handler runs at the depth of its place -/
def Frame.Saves (f : Frame) : Slot → Prop
  | .loopMarker env => ∃ d, Nested blocks h (f.base global) d env
  | .tryRegion region => Nested blocks h (f.base global) (T region.handler).depth region.env
  | .callSite _ => False
  | _ => True

/-- A stack with its frames, from the running one on.  What a frame saves is inside of it, and the scope
of a call is newer than all that the frames below hold. -/
inductive Lodged : List Frame → List Slot → Prop
  | main : Lodged [.main] []
  | host (hsite : site.fromHost = true) (hstands : (Frame.call scope receiver).Stands global h) :
    Lodged [.call scope receiver] [.callSite site]
  | own (hslot : f.Saves T global blocks h slot) (hrest : Lodged (f :: fs) slots) :
    Lodged (f :: fs) (slot :: slots)
  | call (hsite : site.fromHost = false) (hstands : (Frame.call scope receiver).Stands global h)
      (hat : Nested blocks h (f.base global) (T site.caller).depth site.env)
      (hnewer : ∀ envs ∈ heldIn site.env slots, ∀ e ∈ envs, e.index < scope.index)
      (hrest : Lodged (f :: fs) slots) :
    Lodged (.call scope receiver :: f :: fs) (.callSite site :: slots)

end

section
variable {T : Location → Shape} {global : EnvId} {blocks blocks' : List EnvId} {h h' : Heap}
  {base env parent : EnvId} {d d' : Nat} {f : Frame} {fs : List Frame} {slots : List Slot}

/-! ## growth -/

theorem Nested.later (hn : Nested blocks h base d env) (hg : h.Grows h') (hb : blocks ⊆ blocks') :
    Nested blocks' h' base d env := by
  induction d generalizing env with
  | zero => exact hn
  | succ d ih =>
    obtain ⟨hmem, parent, hp, hn⟩ := hn
    exact ⟨hb hmem, parent, hg.parent?_eq hp, ih hn⟩

theorem Frame.Stands.later (hf : f.Stands global h) (hg : h.Grows h') : f.Stands global h' := by
  have hscope {scope parent : EnvId} (hk : h.kind scope = .scope) (hp : h.parent? scope = some parent) :
      h'.kind scope = .scope ∧ h'.parent? scope = some parent :=
    ⟨(hg.kind scope (Heap.lt_of_parent? hp)).trans hk, hg.parent?_eq hp⟩
  match f, hf with
  | .main, _ => trivial
  | .call _ none, ⟨hk, hp⟩ => exact hscope hk hp
  | .call _ (some _), ⟨hk, hp, hreal⟩ =>
    obtain ⟨hk, hp⟩ := hscope hk hp
    exact ⟨hk, hp, hreal.later hg⟩

theorem Frame.Saves.later {slot : Slot} (hslot : f.Saves T global blocks h slot) (hg : h.Grows h')
    (hb : blocks ⊆ blocks') : f.Saves T global blocks' h' slot := by
  cases slot with
  | loopMarker env =>
    obtain ⟨d, hn⟩ := hslot
    exact ⟨d, hn.later hg hb⟩
  | tryRegion region => exact Nested.later hslot hg hb
  | callSite _ => exact hslot
  | value _ | nativeResult => trivial

theorem Lodged.later (hl : Lodged T global blocks h fs slots) (hg : h.Grows h') (hb : blocks ⊆ blocks') :
    Lodged T global blocks' h' fs slots := by
  induction hl with
  | main => exact .main
  | host hsite hstands => exact .host hsite (hstands.later hg)
  | own hslot _ ih => exact .own (hslot.later hg hb) ih
  | call hsite hstands hat hnewer _ ih =>
    exact .call hsite (hstands.later hg) (hat.later hg hb) hnewer ih

/-! ## stacks -/

namespace Lodged

/-- an entry of the running frame -/
theorem tail {slot : Slot} (hl : Lodged T global blocks h fs (slot :: slots))
    (hslot : ∀ site, slot ≠ .callSite site) : Lodged T global blocks h fs slots := by
  cases hl with
  | host _ _ => exact absurd rfl (hslot _)
  | own _ hrest => exact hrest
  | call _ _ _ _ _ => exact absurd rfl (hslot _)

/-- what is below some entries belongs to the frames that are left -/
theorem suffix {slot : Slot} {below : List Slot} (hl : Lodged T global blocks h fs slots)
    (hbelow : slot :: below <:+ slots) :
    ∃ k f fs', fs.drop k = f :: fs' ∧ Lodged T global blocks h (f :: fs') (slot :: below) := by
  induction hl with
  | main => cases List.suffix_nil.mp hbelow
  | host hsite hstands =>
    rcases List.suffix_cons_iff.mp hbelow with heq | hnil
    · exact ⟨0, _, _, rfl, heq ▸ .host hsite hstands⟩
    · cases List.suffix_nil.mp hnil
  | own hslot hrest ih =>
    rcases List.suffix_cons_iff.mp hbelow with heq | hbelow
    · exact ⟨0, _, _, rfl, heq ▸ .own hslot hrest⟩
    · exact ih hbelow
  | call hsite hstands hat hnewer hrest ih =>
    rcases List.suffix_cons_iff.mp hbelow with heq | hbelow
    · exact ⟨0, _, _, rfl, heq ▸ .call hsite hstands hat hnewer hrest⟩
    · obtain ⟨k, f, fs', hdrop, hl⟩ := ih hbelow
      exact ⟨k + 1, f, fs', hdrop, hl⟩

end Lodged

/-! ## chains -/

namespace Heap

theorem chain_parent (hp : h.parent? env = some parent) : h.chain env = env :: h.chain parent := by
  rw [chain_eq, hp]
  rfl

theorem chain_root (hp : h.parent? env = none) : h.chain env = [env] := by
  rw [chain_eq, hp]
  rfl

/-- What holds of every environment without a parent, and of every other one if it holds of its parent,
holds of all environments. -/
theorem chain_induction (h : Heap) {motive : EnvId → Prop}
    (root : ∀ env, h.parent? env = none → motive env)
    (inside : ∀ env parent, h.parent? env = some parent → motive parent → motive env) (env : EnvId) :
    motive env := by
  induction hi : env.index using Nat.strongRecOn generalizing env with
  | ind n ih =>
    cases hp : h.parent? env with
    | none => exact root env hp
    | some parent => exact inside env parent hp (ih parent.index (hi ▸ h.parent?_lt hp) parent rfl)

theorem le_of_mem_chain {x : EnvId} (hx : x ∈ h.chain env) : x.index ≤ env.index := by
  induction env using chain_induction h with
  | root env hp =>
    rw [chain_root hp, List.mem_singleton] at hx
    rw [hx]
  | inside env parent hp ih =>
    rw [chain_parent hp, List.mem_cons] at hx
    rcases hx with rfl | hx
    · exact Nat.le_refl _
    · exact Nat.le_trans (ih hx) (Nat.le_of_lt (h.parent?_lt hp))

theorem mem_chain_self (h : Heap) (env : EnvId) : env ∈ h.chain env :=
  chain_eq h env ▸ List.mem_cons_self

/-- the chain of an environment ends in the chains of all that stand around it -/
theorem chain_suffix {x : EnvId} (hx : x ∈ h.chain env) : h.chain x <:+ h.chain env := by
  induction env using chain_induction h with
  | root env hp =>
    rw [chain_root hp, List.mem_singleton] at hx
    rw [hx]
  | inside env parent hp ih =>
    rw [chain_parent hp, List.mem_cons] at hx
    rcases hx with rfl | hx
    · exact List.suffix_refl _
    · rw [chain_parent hp]
      exact (ih hx).trans (List.suffix_cons _ _)

/-- environments that exist keep their chains -/
theorem Grows.chain (hg : h.Grows h') (hlt : env.index < h.cells.size) : h'.chain env = h.chain env := by
  induction env using chain_induction h with
  | root env hp => rw [chain_root hp, chain_root ((hg.parent env hlt).trans hp)]
  | inside env parent hp ih =>
    rw [chain_parent hp, chain_parent (hg.parent?_eq hp), ih (Nat.lt_trans (h.parent?_lt hp) hlt)]

theorem Grows.mem_chain (hg : h.Grows h') {x : EnvId} (hx : x ∈ h.chain env) : x ∈ h'.chain env := by
  cases hp : h.parent? env with
  | none =>
    rw [chain_root hp, List.mem_singleton] at hx
    rw [hx]
    exact mem_chain_self h' env
  | some parent => rwa [hg.chain (lt_of_parent? hp)]

/-- no environment stands around itself -/
theorem nodup_chain (h : Heap) (env : EnvId) : (h.chain env).Nodup := by
  induction env using chain_induction h with
  | root env hp =>
    rw [chain_root hp]
    exact List.nodup_singleton _
  | inside env parent hp ih =>
    rw [chain_parent hp]
    refine List.nodup_cons.mpr ⟨fun hmem => ?_, ih⟩
    exact Nat.not_lt_of_le (le_of_mem_chain hmem) (h.parent?_lt hp)

/-- The environments that the entries of a stack have saved stand around each other, those of a frame
also around the environment in use. -/
def Enclosed (h : Heap) : EnvId → List Slot → Prop
  | _, [] => True
  | env, .loopMarker saved :: slots => saved ∈ h.chain env ∧ Enclosed h saved slots
  | env, .tryRegion region :: slots => region.env ∈ h.chain env ∧ Enclosed h region.env slots
  | _, .callSite site :: slots => Enclosed h site.env slots
  | env, _ :: slots => Enclosed h env slots

namespace Enclosed

theorem later (hs : h.Enclosed env slots) (hg : h.Grows h') : h'.Enclosed env slots := by
  induction slots generalizing env with
  | nil => trivial
  | cons slot slots ih =>
    cases slot with
    | loopMarker _ | tryRegion _ => exact ⟨hg.mem_chain hs.1, ih hs.2⟩
    | callSite _ | value _ | nativeResult => exact ih hs

/-- further inside the same environments stand around -/
theorem inner {env' : EnvId} (hs : h.Enclosed env slots) (hmem : env ∈ h.chain env') :
    h.Enclosed env' slots := by
  induction slots with
  | nil => trivial
  | cons slot slots ih =>
    cases slot with
    | loopMarker _ | tryRegion _ => exact ⟨(chain_suffix hmem).subset hs.1, hs.2⟩
    | callSite _ => exact hs
    | value _ | nativeResult => exact ih hs

theorem tail {slot : Slot} (hs : h.Enclosed env (slot :: slots))
    (hslot : ∀ site, slot ≠ .callSite site) : h.Enclosed env slots := by
  cases slot with
  | loopMarker _ | tryRegion _ => exact inner hs.2 hs.1
  | callSite _ => exact absurd rfl (hslot _)
  | value _ | nativeResult => exact hs

theorem values (vs : List Value) : h.Enclosed env (vs.map .value ++ slots) ↔ h.Enclosed env slots := by
  induction vs with
  | nil => rfl
  | cons v vs ih => exact ih

/-- an entry that saves the environment in use, or none -/
theorem push {slot : Slot} (hs : h.Enclosed env slots) (hsaved : ∀ e ∈ slot.saved, e = env)
    (hslot : ∀ site, slot ≠ .callSite site) : h.Enclosed env (slot :: slots) := by
  cases slot with
  | loopMarker saved =>
    obtain rfl := hsaved saved List.mem_cons_self
    exact ⟨mem_chain_self h saved, hs⟩
  | tryRegion region =>
    obtain rfl := hsaved region.env List.mem_cons_self
    exact ⟨mem_chain_self h region.env, hs⟩
  | callSite _ => exact absurd rfl (hslot _)
  | value _ | nativeResult => exact hs

/-- what is below some entries is enclosed from where they have been put -/
theorem suffix {below : List Slot} (hs : h.Enclosed env slots) (hbelow : below <:+ slots) :
    ∃ env', h.Enclosed env' below := by
  induction slots generalizing env with
  | nil =>
    cases List.suffix_nil.mp hbelow
    exact ⟨env, trivial⟩
  | cons slot slots ih =>
    rcases List.suffix_cons_iff.mp hbelow with rfl | hrest
    · exact ⟨env, hs⟩
    · cases slot with
      | loopMarker _ | tryRegion _ => exact ih hs.2 hrest
      | callSite _ | value _ | nativeResult => exact ih hs hrest

end Enclosed

end Heap

namespace Nested

theorem lt (hn : Nested blocks h base d env) (hbase : base.index < h.cells.size) :
    env.index < h.cells.size := by
  cases d with
  | zero =>
    cases hn
    exact hbase
  | succ d =>
    obtain ⟨-, parent, hp, -⟩ := hn
    exact Heap.lt_of_parent? hp

/-- the block scopes on the way are not older than what they are inside of -/
theorem chain (hn : Nested blocks h base d env) : ∃ inner, h.chain env = inner ++ h.chain base
    ∧ inner.length = d ∧ ∀ e ∈ inner, e ∈ blocks ∧ base.index ≤ e.index := by
  induction d generalizing env with
  | zero =>
    cases hn
    exact ⟨[], rfl, rfl, nofun⟩
  | succ d ih =>
    obtain ⟨hmem, parent, hp, hn⟩ := hn
    obtain ⟨inner, hchain, hlength, hinner⟩ := ih hn
    refine ⟨env :: inner, ?_, congrArg (· + 1) hlength, List.forall_mem_cons.mpr ⟨⟨hmem, ?_⟩, hinner⟩⟩
    · rw [Heap.chain_parent hp, hchain]
      rfl
    · have hle : base.index ≤ parent.index := by
        refine Heap.le_of_mem_chain (h := h) ?_
        rw [hchain]
        exact List.mem_append_right _ (Heap.chain_eq h base ▸ List.mem_cons_self)
      exact Nat.le_trans hle (Nat.le_of_lt (h.parent?_lt hp))

/-- an environment at some depth of a sound frame is inside the base of that frame -/
theorem base_eq {base' : EnvId} (hn : Nested blocks h base d env) (hs : ScopeAt h base' d env) :
    base = base' := by
  induction d generalizing env with
  | zero => exact hn.symm.trans hs.1
  | succ d ih =>
    obtain ⟨-, parent, hp, hn⟩ := hn
    obtain ⟨parent', hp', hs⟩ := hs
    rw [hp] at hp'
    cases hp'
    exact ih hn hs

end Nested

theorem ScopeAt.length_chain (hs : ScopeAt h base d env) :
    (h.chain env).length = d + (h.chain base).length := by
  induction d generalizing env with
  | zero => rw [hs.1, Nat.zero_add]
  | succ d ih =>
    obtain ⟨parent, hp, hs⟩ := hs
    rw [Heap.chain_parent hp, List.length_cons, ih hs]
    omega

/-- what has been saved further outside than an environment stands around its parent too -/
theorem ScopeAt.mem_chain_parent {x : EnvId} (hs : ScopeAt h base (d + 1) env)
    (hp : h.parent? env = some parent) (hx : ScopeAt h base d' x) (hd : d' ≤ d) (hmem : x ∈ h.chain env) :
    x ∈ h.chain parent := by
  rw [Heap.chain_parent hp, List.mem_cons] at hmem
  rcases hmem with rfl | hmem
  · have hlength := hs.length_chain
    rw [hx.length_chain] at hlength
    omega
  · exact hmem

/-- the entries of a frame that go back to scopes outside of `env` are enclosed from its parent on -/
theorem Holds.enclosed_parent {program : Program} {i : Nat} {es : List Entry} {own rest : List Slot}
    {hosted : Bool} (hown : Holds program T h base i es own)
    (hrest : Frames program T h global hosted i base rest) (hes : Shallow es d)
    (hs : ScopeAt h base (d + 1) env) (hp : h.parent? env = some parent)
    (henclosed : h.Enclosed env (own ++ rest)) : h.Enclosed parent (own ++ rest) := by
  induction hown with
  | nil =>
    cases hrest with
    | main => trivial
    | host | call => exact henclosed
  | value _ _ ih => exact ih hes.tail henclosed
  | loop hsaved _ _ =>
    exact ⟨hs.mem_chain_parent hp hsaved (hes _ List.mem_cons_self) henclosed.1, henclosed.2⟩
  | guard _ hsaved _ _ =>
    exact ⟨hs.mem_chain_parent hp hsaved (hes _ List.mem_cons_self) henclosed.1, henclosed.2⟩
  | @callee _ _ _ vs _ _ _ ih =>
    rw [List.append_assoc, List.cons_append] at henclosed ⊢
    exact (Heap.Enclosed.values vs).mpr (ih hes.tail ((Heap.Enclosed.values vs).mp henclosed))
  | result _ _ ih => exact ih hes.tail henclosed

/-- the depth of an environment inside of another one -/
theorem Nested.depth_eq (hn : Nested blocks h base d env) (hs : ScopeAt h base d' env) : d = d' := by
  obtain ⟨inner, hchain, hlength, -⟩ := hn.chain
  have hscope := hs.length_chain
  rw [hchain, List.length_append] at hscope
  omega

namespace Frame

theorem Stands.base_lt (hf : f.Stands global h) (hroot : h.Rooted global) :
    (f.base global).index < h.cells.size := by
  match f, hf with
  | .main, _ => exact hroot.lt
  | .call _ none, ⟨_, hp⟩ | .call _ (some _), ⟨_, hp, _⟩ => exact Heap.lt_of_parent? hp

theorem Stands.chain (hf : f.Stands global h) (hroot : h.Rooted global) :
    h.chain (f.base global) = f.around global := by
  have hglobal := Heap.chain_root hroot.parent
  match f, hf with
  | .main, _ => exact hglobal
  | .call scope none, ⟨_, hp⟩ => exact (Heap.chain_parent hp).trans (congrArg _ hglobal)
  | .call scope (some object), ⟨_, hp, _, hp'⟩ =>
    rw [base, Heap.chain_parent hp, Heap.chain_parent hp', hglobal]
    rfl

/-- the nearest object around the block scopes is the one that the function was called on -/
theorem Stands.find_object (hf : f.Stands global h) (hroot : h.Rooted global) :
    (f.around global).find? h.isObject = f.receiver? := by
  have hglobal : h.isObject global = false := decide_eq_false (by rw [hroot.kind]; nofun)
  have hscope {scope : EnvId} (hk : h.kind scope = .scope) : h.isObject scope = false :=
    decide_eq_false (by rw [hk]; nofun)
  match f, hf with
  | .main, _ =>
    rw [around, List.find?_cons, hglobal]
    rfl
  | .call scope none, ⟨hk, _⟩ =>
    rw [around, List.find?_cons, hscope hk]
    show List.find? h.isObject [global] = none
    rw [List.find?_cons, hglobal]
    rfl
  | .call scope (some object), ⟨hk, _, hobject, _⟩ =>
    have hobject : h.isObject object = true := decide_eq_true hobject
    rw [around, List.find?_cons, hscope hk]
    show List.find? h.isObject (object :: [global]) = some object
    rw [List.find?_cons, hobject]

end Frame

/-! ## what the frames hold -/

theorem heldIn_own {slot : Slot} (hslot : f.Saves T global blocks h slot) (env : EnvId)
    (slots : List Slot) :
    heldIn env (slot :: slots) = (heldIn env slots).modifyHead (slot.saved ++ ·) := by
  cases slot with
  | callSite _ => exact hslot.elim
  | _ => rfl

/-- the running frame holds the environment that it runs in -/
theorem heldIn_eq_cons (env : EnvId) (slots : List Slot) :
    ∃ envs below, heldIn env slots = envs :: below ∧ env ∈ envs := by
  induction slots generalizing env with
  | nil => exact ⟨_, _, rfl, List.mem_cons_self⟩
  | cons slot slots ih =>
    obtain ⟨envs, below, heq, hmem⟩ := ih env
    cases slot with
    | callSite _ => exact ⟨_, _, rfl, List.mem_cons_self⟩
    | _ =>
      rw [heldIn, heq]
      · exact ⟨_, _, rfl, List.mem_append_right _ hmem⟩
      · nofun

theorem heldIn_call {site : CallSite} (hsite : site.fromHost = false) (env : EnvId) (slots : List Slot) :
    heldIn env (.callSite site :: slots) = [env] :: heldIn site.env slots := by
  rw [heldIn, hsite]
  rfl

namespace Lodged

/-- the frames stand where they should, and all that they hold is inside of them -/
theorem held (hl : Lodged T global blocks h (f :: fs) slots)
    (hn : Nested blocks h (f.base global) d env) :
    List.Forall₂ (fun envs f => Frame.Stands global h f
      ∧ ∀ e ∈ envs, ∃ d, Nested blocks h (f.base global) d e) (heldIn env slots) (f :: fs) := by
  have hown {f : Frame} {d : Nat} {env : EnvId} (hn : Nested blocks h (f.base global) d env) :
      ∀ e ∈ [env], ∃ d, Nested blocks h (f.base global) d e :=
    List.forall_mem_singleton.mpr ⟨d, hn⟩
  generalize hfs : f :: fs = fs' at hl
  induction hl generalizing f fs d env with
  | main =>
    cases hfs
    exact .cons ⟨trivial, hown hn⟩ .nil
  | host hsite hstands =>
    cases hfs
    rw [heldIn, if_pos hsite]
    exact .cons ⟨hstands, hown hn⟩ .nil
  | @own _ _ slots slot hslot hrest ih =>
    cases hfs
    rw [heldIn_own hslot]
    have hheld := ih hn rfl
    generalize heldIn env slots = held at hheld
    cases hheld with
    | cons hhead htail =>
      obtain ⟨hstands, hhead⟩ := hhead
      refine .cons ⟨hstands, List.forall_mem_append.mpr ⟨?_, hhead⟩⟩ htail
      cases slot with
      | loopMarker env => exact List.forall_mem_singleton.mpr hslot
      | tryRegion region => exact List.forall_mem_singleton.mpr ⟨_, hslot⟩
      | value _ | nativeResult | callSite _ => exact nofun
  | call hsite hstands hat _ _ ih =>
    cases hfs
    rw [heldIn_call hsite]
    exact .cons ⟨hstands, hown hn⟩ (ih hat rfl)

theorem stands (hl : Lodged T global blocks h (f :: fs) slots)
    (hn : Nested blocks h (f.base global) d env) : f.Stands global h := by
  have hheld := hl.held hn
  generalize heldIn env slots = held at hheld
  cases hheld with
  | cons hhead _ => exact hhead.1

/-- everything that frames hold is on the heap -/
theorem lt (hl : Lodged T global blocks h (f :: fs) slots) (hn : Nested blocks h (f.base global) d env)
    (hroot : h.Rooted global) : ∀ envs ∈ heldIn env slots, ∀ e ∈ envs, e.index < h.cells.size := by
  have hheld := hl.held hn
  generalize heldIn env slots = held, f :: fs = frames at hheld
  induction hheld with
  | nil => exact nofun
  | cons hhead _ ih =>
    refine List.forall_mem_cons.mpr ⟨fun e he => ?_, ih⟩
    obtain ⟨d, hn⟩ := hhead.2 e he
    exact hn.lt (hhead.1.base_lt hroot)

/-- the scope of the running frame is newer than what the frames below hold -/
theorem newer (hl : Lodged T global blocks h (f :: fs) slots) (env : EnvId) :
    ∀ envs ∈ (heldIn env slots).tail, ∀ e ∈ envs, e.index < (f.base global).index := by
  generalize hfs : f :: fs = fs' at hl
  induction hl with
  | main => exact nofun
  | host hsite _ =>
    rw [heldIn, if_pos hsite]
    exact nofun
  | own hslot _ ih =>
    rw [heldIn_own hslot, List.tail_modifyHead]
    exact ih hfs
  | call hsite _ _ hnewer _ _ =>
    cases hfs
    rw [heldIn_call hsite]
    exact hnewer

end Lodged

/-! ## what scripts see -/

/-- what is in both chains is the global environment or an object -/
def Heap.Apart (h : Heap) (global e e' : EnvId) : Prop :=
  ∀ x ∈ h.chain e, x ∈ h.chain e' → x = global ∨ h.kind x = .object

/-- all that is around an environment of a frame -/
theorem Nested.seen (hn : Nested blocks h (f.base global) d env) (hf : f.Stands global h)
    (hroot : h.Rooted global) :
    ∃ inner, h.chain env = inner ++ f.around global ∧ ∀ b ∈ inner, b ∈ blocks := by
  obtain ⟨inner, hchain, -, hinner⟩ := hn.chain
  exact ⟨inner, by rw [hchain, hf.chain hroot], fun b hb => (hinner b hb).1⟩

/-- from inside of a frame no scope is seen that is older than its base -/
theorem Nested.apart {e' : EnvId} (hn : Nested blocks h (f.base global) d env) (hf : f.Stands global h)
    (hroot : h.Rooted global) (hnewer : e'.index < (f.base global).index) : h.Apart global env e' := by
  intro x hx hx'
  have hlt := Nat.lt_of_le_of_lt (Heap.le_of_mem_chain hx') hnewer
  obtain ⟨inner, hchain, -, hinner⟩ := hn.chain
  rw [hchain, hf.chain hroot, List.mem_append] at hx
  rcases hx with hx | hx
  · exact absurd (hinner x hx).2 (Nat.not_le_of_lt hlt)
  · match f, hf with
    | .main, _ => exact .inl (List.mem_singleton.mp hx)
    | .call scope none, _ =>
      rcases List.mem_cons.mp hx with rfl | hx
      · exact absurd hlt (Nat.lt_irrefl _)
      · exact .inl (List.mem_singleton.mp hx)
    | .call scope (some object), ⟨_, _, hobject, _⟩ =>
      rcases List.mem_cons.mp hx with rfl | hx
      · exact absurd hlt (Nat.lt_irrefl _)
      · rcases List.mem_cons.mp hx with rfl | hx
        · exact .inr hobject
        · exact .inl (List.mem_singleton.mp hx)

namespace Lodged

/-- what the running frame holds is apart from all that the frames below hold -/
theorem apart_head (hl : Lodged T global blocks h (f :: fs) slots)
    (hn : Nested blocks h (f.base global) d env) (hroot : h.Rooted global) {envs : List EnvId}
    {below : List (List EnvId)}
    (heq : heldIn env slots = envs :: below) :
    ∀ envs' ∈ below, ∀ e ∈ envs, ∀ e' ∈ envs', h.Apart global e e' := by
  intro envs' henvs' e he e' he'
  have hheld := hl.held hn
  have hnewer := hl.newer env
  rw [heq] at hheld hnewer
  cases hheld with
  | cons hhead _ =>
    obtain ⟨hstands, hown⟩ := hhead
    obtain ⟨d, hn⟩ := hown e he
    exact hn.apart hstands hroot (hnewer envs' henvs' e' he')

/-- what a frame holds is apart from all that the frames below it hold -/
theorem apart (hl : Lodged T global blocks h (f :: fs) slots)
    (hn : Nested blocks h (f.base global) d env) (hroot : h.Rooted global) :
    (heldIn env slots).Pairwise fun envs envs' => ∀ e ∈ envs, ∀ e' ∈ envs', h.Apart global e e' := by
  have hwhole := hl
  generalize hfs : f :: fs = fs' at hl
  induction hl generalizing f fs d env with
  | main => exact List.pairwise_singleton _ _
  | host hsite _ =>
    rw [heldIn, if_pos hsite]
    exact List.pairwise_singleton _ _
  | @own _ _ slots _ hslot hrest ih =>
    cases hfs
    have hrest := ih hn hrest rfl
    obtain ⟨envs, below, heq, -⟩ := heldIn_eq_cons env slots
    rw [heq] at hrest
    rw [heldIn_own hslot, heq]
    exact .cons (hwhole.apart_head hn hroot (by rw [heldIn_own hslot, heq]; rfl)) hrest.tail
  | call hsite _ hat _ hrest ih =>
    cases hfs
    rw [heldIn_call hsite]
    exact .cons (hwhole.apart_head hn hroot (heldIn_call hsite _ _)) (ih hat hrest rfl)

end Lodged

/-- environments that are scopes -/
def Heap.AreScopes (h : Heap) (blocks : List EnvId) : Prop :=
  ∀ b ∈ blocks, b.index < h.cells.size ∧ h.kind b = .scope

theorem Heap.AreScopes.later (hb : h.AreScopes blocks) (hg : h.Grows h') : h'.AreScopes blocks :=
  fun b hmem => ⟨Nat.lt_of_lt_of_le (hb b hmem).1 hg.size, (hg.kind b (hb b hmem).1).trans (hb b hmem).2⟩

/-- inside of a frame `this` is what its function was called on -/
theorem Nested.thisObject? (hn : Nested blocks h (f.base global) d env) (hf : f.Stands global h)
    (hroot : h.Rooted global) (hblocks : h.AreScopes blocks) : h.thisObject? env = f.receiver? := by
  obtain ⟨inner, hchain, -, hinner⟩ := hn.chain
  have hnone : inner.find? h.isObject = none := List.find?_eq_none.mpr fun e he hobject => by
    have hkind := (hblocks e (hinner e he).1).2
    rw [of_decide_eq_true hobject] at hkind
    cases hkind
  rw [Heap.thisObject?, hchain, hf.chain hroot, List.find?_append, hnone, hf.find_object hroot]
  rfl

end

end ScriptMachine
