import ScriptMachine.Proofs.Machine.HeapStep
import ScriptMachine.Proofs.Meaning.Language

/-!
# Two heaps that agree

The machine and the evaluator make the same environments and arrays in the same order.  Two things
are different: the machine parks results in a hidden variable, and a finalizer that a jump crosses
runs in a scope inside of those that the jump is about to leave.

* `Value.Simple`        what structured programs compute with;
* `Twin`                the heap of the machine beside the world of the evaluator;
* `Twin.Ok`             both hold the same, but for the hidden variable;
* `Twin.Moves`          environments stay where they are, and parked results too;
* `Sees`                from two environments the same names are found;
* `Inside`              an environment is inside of another one, with scopes of given names between;
* `Twin.define`, `Twin.park`, `Twin.enter`, ...   what both do to their heaps.
-/

namespace ScriptMachine

/-- no object, and only functions that are among the first `n` -/
def Value.Simple (n : Nat) : Value → Prop
  | .function index => index < n
  | .object _ => False
  | _ => True

/-! ## texts depend on arrays only -/

namespace Heap

variable {h h' : Heap}

theorem items_congr (harr : h.arrays = h'.arrays) (id : ArrayId) : h.items id = h'.items id := by
  unfold items
  rw [harr]

theorem textWithin_congr (harr : h.arrays = h'.arrays) (levels : Nat) (path : List ArrayId)
    (v : Value) : h.textWithin levels path v = h'.textWithin levels path v := by
  induction levels generalizing path v with
  | zero => rfl
  | succ levels ih =>
    cases v with
    | array id =>
      have hmap : (h.items id).toList.map (h.textWithin levels (id :: path))
          = (h'.items id).toList.map (h'.textWithin levels (id :: path)) := by
        rw [items_congr harr id]
        exact List.map_congr_left fun v _ => ih (id :: path) v
      rw [textWithin, textWithin, hmap]
    | _ => rfl

theorem text_congr (harr : h.arrays = h'.arrays) (v : Value) : h.text v = h'.text v := by
  unfold text
  rw [harr]
  exact textWithin_congr harr _ _ v

theorem applyBinary_congr (harr : h.arrays = h'.arrays) (op : BinaryOp) (a b : Value) :
    h.applyBinary op a b = h'.applyBinary op a b := by
  cases op with
  | add =>
    show h.add a b = h'.add a b
    unfold add
    split
    · rfl
    · rw [text_congr harr, text_congr harr]
  | _ => rfl

end Heap

/-! ## twins -/

/-- the heap of the machine and the world of the evaluator -/
structure Twin where
  /-- the names that an environment may bind -/
  names : EnvId → List String
  heap : Heap
  world : World

section
variable (global : EnvId) (n : Nat)

/-- Both heaps have the same arrays and bindings.  The global scope may bind any names. -/
structure Twin.Ok (t : Twin) : Prop where
  size : t.heap.cells.size = t.world.heap.cells.size
  arrays : t.heap.arrays = t.world.heap.arrays
  own : ∀ env name, name ≠ returnSlot → t.heap.getOwn? env name = t.world.heap.getOwn? env name
  bound : ∀ env name, env ≠ global → t.heap.hasOwn env name = true →
    name = returnSlot ∨ name ∈ t.names env
  values : ∀ env name v, t.world.heap.getOwn? env name = some v → v.Simple n
  items : ∀ id, ∀ v ∈ t.world.heap.items id, v.Simple n
  root : global.index < t.heap.cells.size
  noParent : t.heap.parent? global = none
  noParent' : t.world.heap.parent? global = none

/-- What came after, where `env` was the environment at hand.  Only there a result may be parked. -/
structure Twin.Moves (env : EnvId) (t t' : Twin) : Prop where
  ok : t'.Ok global n
  names : ∀ e : EnvId, e.index < t.heap.cells.size → t'.names e = t.names e
  heap : t.heap.Later t'.heap
  world : t.world.heap.Later t'.world.heap
  parked : ∀ e : EnvId, e.index < t.heap.cells.size → e ≠ env →
    t'.heap.getOwn? e returnSlot = t.heap.getOwn? e returnSlot

/-- From `e` the machine finds the same names of `V` as the evaluator does from `e'`. -/
inductive Sees (t : Twin) (V : String → Prop) : EnvId → EnvId → Prop
  | global : Sees t V global global
  | keep {e p q : EnvId} (hp : t.heap.parent? e = some p) (hq : t.world.heap.parent? e = some q)
      (h : Sees t V p q) : Sees t V e e
  | skip {e p q : EnvId} (hp : t.heap.parent? e = some p) (hne : e ≠ global)
      (hnames : ∀ name, V name → name ∉ t.names e) (h : Sees t V p q) : Sees t V e q

/-- `e` is inside of `e'`, and the scopes between bind only names of `X`. -/
inductive Inside (t : Twin) (X : List String) : EnvId → EnvId → Prop
  | here {e : EnvId} : Inside t X e e
  | up {e p q : EnvId} (hp : t.heap.parent? e = some p) (hne : e ≠ global)
      (hnames : ∀ name ∈ t.names e, name ∈ X) (h : Inside t X p q) : Inside t X e q

end

section
variable {global : EnvId} {n : Nat} {t t' t'' : Twin} {V V' : String → Prop} {X X' : List String}
  {env e e' : EnvId} {name : String} {v : Value}

theorem parent?_lt_size {h : Heap} {e p : EnvId} (hp : h.parent? e = some p) :
    e.index < h.cells.size := by
  obtain ⟨cell, hcell, -⟩ := Option.bind_eq_some_iff.mp hp
  exact (Array.getElem?_eq_some_iff.mp hcell).1

namespace Twin

theorem Ok.moves_refl (h : t.Ok global n) (env : EnvId) : t.Moves global n env t :=
  ⟨h, fun _ _ => rfl, .refl _, .refl _, fun _ _ _ => rfl⟩

/-- an environment that is new to the first of the three may hold what it likes -/
theorem Moves.trans_new (h : t.Moves global n env t') (h' : t'.Moves global n e t'')
    (he : e = env ∨ t.heap.cells.size ≤ e.index) : t.Moves global n env t'' where
  ok := h'.ok
  names d hd := (h'.names d (Nat.lt_of_lt_of_le hd h.heap.size)).trans (h.names d hd)
  heap := h.heap.trans h'.heap
  world := h.world.trans h'.world
  parked d hd hne := by
    have hne' : d ≠ e := by
      rintro rfl
      rcases he with rfl | he
      · exact hne rfl
      · exact absurd hd (Nat.not_lt.mpr he)
    rw [h'.parked d (Nat.lt_of_lt_of_le hd h.heap.size) hne', h.parked d hd hne]

theorem Moves.trans (h : t.Moves global n env t') (h' : t'.Moves global n env t'') :
    t.Moves global n env t'' := h.trans_new h' (.inl rfl)

theorem Ok.hasOwn (h : t.Ok global n) (hname : name ≠ returnSlot) (e : EnvId) :
    t.heap.hasOwn e name = t.world.heap.hasOwn e name := by
  unfold Heap.hasOwn
  rw [h.own e name hname]

end Twin

/-! ## environments -/

namespace Sees

theorem mono (h : Sees global t V e e') (hsub : ∀ name, V' name → V name) :
    Sees global t V' e e' := by
  induction h with
  | global => exact .global
  | keep hp hq _ ih => exact .keep hp hq ih
  | skip hp hne hnames _ ih => exact .skip hp hne (fun name hn => hnames name (hsub name hn)) ih

theorem moves (h : Sees global t V e e') (hm : t.Moves global n env t') : Sees global t' V e e' := by
  induction h with
  | global => exact .global
  | keep hp hq _ ih =>
    refine .keep ?_ ?_ ih
    · rw [hm.heap.parent _ (parent?_lt_size hp), hp]
    · rw [hm.world.parent _ (parent?_lt_size hq), hq]
  | skip hp hne hnames _ ih =>
    refine .skip ?_ hne (fun name hn => ?_) ih
    · rw [hm.heap.parent _ (parent?_lt_size hp), hp]
    · rw [hm.names _ (parent?_lt_size hp)]
      exact hnames name hn

/-- a name is found at the same place -/
theorem owner (h : Sees global t V e e') (hok : t.Ok global n) (hname : name ≠ returnSlot)
    (hV : V name) : t.heap.owner? e name = t.world.heap.owner? e' name := by
  unfold Heap.owner?
  induction h with
  | global =>
    rw [Heap.chain_eq, Heap.chain_eq, hok.noParent, hok.noParent']
    show List.find? _ [global] = List.find? _ [global]
    rw [List.find?_singleton, List.find?_singleton, hok.hasOwn hname]
  | @keep e p q hp hq _ ih =>
    rw [Heap.chain_eq, t.world.heap.chain_eq, hp, hq]
    show List.find? _ (e :: t.heap.chain p) = List.find? _ (e :: t.world.heap.chain q)
    rw [List.find?_cons, List.find?_cons, hok.hasOwn hname, ih]
  | @skip e p q hp hne hnames _ ih =>
    have hnone : t.heap.hasOwn e name = false := by
      cases hown : t.heap.hasOwn e name with
      | false => rfl
      | true =>
        rcases hok.bound e name hne hown with hret | hmem
        · exact absurd hret hname
        · exact absurd hmem (hnames name hV)
    rw [Heap.chain_eq, hp]
    show List.find? _ (e :: t.heap.chain p) = _
    rw [List.find?_cons, hnone, ih]

theorem lookup (h : Sees global t V e e') (hok : t.Ok global n) (hname : name ≠ returnSlot)
    (hV : V name) : t.heap.lookup? e name = t.world.heap.lookup? e' name := by
  unfold Heap.lookup?
  rw [h.owner hok hname hV]
  cases t.world.heap.owner? e' name with
  | none => rfl
  | some d => exact hok.own d name hname

end Sees

namespace Inside

theorem mono (h : Inside global t X e e') (hsub : ∀ name ∈ X, name ∈ X') :
    Inside global t X' e e' := by
  induction h with
  | here => exact .here
  | up hp hne hnames _ ih => exact .up hp hne (fun name hn => hsub name (hnames name hn)) ih

theorem moves (h : Inside global t X e e') (hm : t.Moves global n env t') :
    Inside global t' X e e' := by
  induction h with
  | here => exact .here
  | up hp hne hnames _ ih =>
    refine .up ?_ hne (fun name hn => ?_) ih
    · rw [hm.heap.parent _ (parent?_lt_size hp), hp]
    · rw [hm.names _ (parent?_lt_size hp)] at hn
      exact hnames name hn

/-- out of one more scope -/
theorem leave {p : EnvId} (h : Inside global t X e e') (hp : t.heap.parent? e' = some p)
    (hne : e' ≠ global) (hnames : ∀ name ∈ t.names e', name ∈ X) : Inside global t X e p := by
  induction h with
  | here => exact .up hp hne hnames .here
  | up hp' hne' hnames' _ ih => exact .up hp' hne' hnames' (ih hp hne hnames)

/-- what is seen from around is seen from inside, if the scopes between do not bind it -/
theorem sees {q : EnvId} (h : Inside global t X e e') (hs : Sees global t V e' q)
    (hV : ∀ name, V name → name ∉ X) : Sees global t V e q := by
  induction h with
  | here => exact hs
  | up hp hne hnames _ ih =>
    exact .skip hp hne (fun name hn hmem => hV name hn (hnames name hmem)) (ih hs)

theorem lt_size (h : Inside global t X e e') (he : e'.index < t.heap.cells.size) :
    e.index < t.heap.cells.size := by
  cases h with
  | here => exact he
  | up hp _ _ _ => exact parent?_lt_size hp

end Inside

/-! ## what both do -/

namespace Twin

/-- both bind a name -/
def define (t : Twin) (e : EnvId) (name : String) (v : Value) : Twin :=
  ⟨t.names, t.heap.define e name v, { t.world with heap := t.world.heap.define e name v }⟩

theorem later_define (h : Heap) (e : EnvId) (name : String) (v : Value) :
    h.Later (h.define e name v) :=
  ⟨Nat.le_of_eq (h.size_define e name v).symm, fun d _ => h.parent?_define e d name v⟩

theorem Ok.define (h : t.Ok global n) (hname : name ≠ returnSlot) (hv : v.Simple n)
    (hbound : e ≠ global → name ∈ t.names e) (env : EnvId) :
    t.Moves global n env (t.define e name v) where
  ok := by
    have hcell : (t.heap.cell? e).map (fun _ => v) = (t.world.heap.cell? e).map (fun _ => v) := by
      have hlt : ∀ h : Heap, (h.cell? e).map (fun _ => v)
          = if e.index < h.cells.size then some v else none := by
        intro h
        unfold Heap.cell?
        split
        · rename_i hi
          rw [Array.getElem?_eq_getElem hi]
          rfl
        · rename_i hi
          rw [Array.getElem?_eq_none (Nat.not_lt.mp hi)]
          rfl
      rw [hlt, hlt, h.size]
    constructor
    · show (t.heap.define e name v).cells.size = (t.world.heap.define e name v).cells.size
      rw [Heap.size_define, Heap.size_define]
      exact h.size
    · exact h.arrays
    · intro d x hx
      show (t.heap.define e name v).getOwn? d x = (t.world.heap.define e name v).getOwn? d x
      rw [Heap.getOwn?_define, Heap.getOwn?_define]
      split
      · exact hcell
      · exact h.own d x hx
    · intro d x hd hx
      have hx' : ((t.heap.define e name v).getOwn? d x).isSome = true := hx
      rw [Heap.getOwn?_define] at hx'
      split at hx'
      · rename_i heq
        obtain ⟨rfl, rfl⟩ := heq
        exact .inr (hbound hd)
      · exact h.bound d x hd hx'
    · intro d x w hw
      have hw' : (t.world.heap.define e name v).getOwn? d x = some w := hw
      rw [Heap.getOwn?_define] at hw'
      split at hw'
      · obtain ⟨_, -, rfl⟩ := Option.map_eq_some_iff.mp hw'
        exact hv
      · exact h.values d x w hw'
    · exact h.items
    · show global.index < (t.heap.define e name v).cells.size
      rw [Heap.size_define]
      exact h.root
    · exact (t.heap.parent?_define e global name v).trans h.noParent
    · exact (t.world.heap.parent?_define e global name v).trans h.noParent'
  names _ _ := rfl
  heap := later_define _ _ _ _
  world := later_define _ _ _ _
  parked d _ _ := by
    show (t.heap.define e name v).getOwn? d returnSlot = _
    rw [Heap.getOwn?_define, if_neg]
    rintro ⟨-, hret⟩
    exact hname hret.symm

/-- the machine parks a result -/
def park (t : Twin) (e : EnvId) (v : Value) : Twin :=
  { t with heap := t.heap.define e returnSlot v }

theorem Ok.park (h : t.Ok global n) (e : EnvId) (v : Value) : t.Moves global n e (t.park e v) where
  ok := by
    constructor
    · show (t.heap.define e returnSlot v).cells.size = _
      rw [Heap.size_define]
      exact h.size
    · exact h.arrays
    · intro d x hx
      show (t.heap.define e returnSlot v).getOwn? d x = _
      rw [Heap.getOwn?_define, if_neg fun heq => hx heq.2]
      exact h.own d x hx
    · intro d x hd hx
      have hx' : ((t.heap.define e returnSlot v).getOwn? d x).isSome = true := hx
      rw [Heap.getOwn?_define] at hx'
      split at hx'
      · rename_i heq
        exact .inl heq.2
      · exact h.bound d x hd hx'
    · exact h.values
    · exact h.items
    · show global.index < (t.heap.define e returnSlot v).cells.size
      rw [Heap.size_define]
      exact h.root
    · exact (t.heap.parent?_define e global returnSlot v).trans h.noParent
    · exact h.noParent'
  names _ _ := rfl
  heap := later_define _ _ _ _
  world := .refl _
  parked d _ hne := by
    show (t.heap.define e returnSlot v).getOwn? d returnSlot = _
    rw [Heap.getOwn?_define, if_neg fun heq => hne heq.1]

/-- the next environment -/
def next (t : Twin) : EnvId := ⟨t.heap.cells.size⟩

/-- both make a scope, in environments that may be different -/
def enter (t : Twin) (e e' : EnvId) (names : List String) : Twin :=
  ⟨fun d => if d = t.next then names else t.names d, (t.heap.newScope e).2,
    { t.world with heap := (t.world.heap.newScope e').2 }⟩

theorem names_enter (t : Twin) (e e' : EnvId) (names : List String) :
    (t.enter e e' names).names t.next = names := if_pos rfl

theorem fst_newScope (t : Twin) (e : EnvId) : (t.heap.newScope e).1 = t.next := rfl

theorem Ok.fst_newScope (h : t.Ok global n) (e : EnvId) : (t.world.heap.newScope e).1 = t.next :=
  congrArg EnvId.mk h.size.symm

theorem Ok.next_ne (h : t.Ok global n) : t.next ≠ global := by
  intro heq
  have hroot := h.root
  rw [← heq] at hroot
  exact Nat.lt_irrefl _ hroot

theorem later_newScope (h : Heap) (e : EnvId) : h.Later (h.newScope e).2 :=
  ⟨by rw [Heap.newScope, Heap.size_newEnv]; exact Nat.le_succ _, h.parent?_newEnv .scope (some e)⟩

theorem Ok.enter (h : t.Ok global n) (e e' : EnvId) (names : List String) (env : EnvId) :
    t.Moves global n env (t.enter e e' names) where
  ok := by
    have hown (hp : Heap) (p d : EnvId) (x : String) :
        (hp.newScope p).2.getOwn? d x = hp.getOwn? d x := hp.getOwn?_newEnv .scope (some p) d x
    have hlt' : global.index < t.world.heap.cells.size := h.size ▸ h.root
    constructor
    · show (t.heap.newScope e).2.cells.size = (t.world.heap.newScope e').2.cells.size
      rw [Heap.newScope, Heap.size_newEnv, Heap.newScope, Heap.size_newEnv, h.size]
    · exact h.arrays
    · intro d x hx
      show (t.heap.newScope e).2.getOwn? d x = (t.world.heap.newScope e').2.getOwn? d x
      rw [hown, hown]
      exact h.own d x hx
    · intro d x hd hx
      have hx' : ((t.heap.newScope e).2.getOwn? d x).isSome = true := hx
      rw [hown] at hx'
      have hne : d ≠ t.next := by
        rintro rfl
        have hcell : t.heap.cell? t.next = none := Array.getElem?_eq_none (Nat.le_refl _)
        have hnone : t.heap.getOwn? t.next x = none := by
          unfold Heap.getOwn?
          rw [hcell]
          rfl
        rw [hnone] at hx'
        cases hx'
      show x = returnSlot ∨ x ∈ (if d = t.next then names else t.names d)
      rw [if_neg hne]
      exact h.bound d x hd hx'
    · intro d x w hw
      have hw' : (t.world.heap.newScope e').2.getOwn? d x = some w := hw
      rw [hown] at hw'
      exact h.values d x w hw'
    · exact h.items
    · exact Nat.lt_of_lt_of_le h.root (later_newScope t.heap e).size
    · exact ((later_newScope t.heap e).parent global h.root).trans h.noParent
    · exact ((later_newScope t.world.heap e').parent global hlt').trans h.noParent'
  names d hd := by
    refine if_neg ?_
    rintro rfl
    exact Nat.lt_irrefl _ hd
  heap := later_newScope t.heap e
  world := later_newScope t.world.heap e'
  parked d _ _ := t.heap.getOwn?_newEnv .scope (some e) d returnSlot

theorem parent?_enter (he : e.index < t.heap.cells.size) (e' : EnvId) (names : List String) :
    (t.enter e e' names).heap.parent? t.next = some e := t.heap.parent?_newScope e he

/-- a new scope sees what is seen around it -/
theorem Ok.sees_enter (h : t.Ok global n) (hs : Sees global t V e e')
    (he : e.index < t.heap.cells.size) (he' : e'.index < t.heap.cells.size) (names : List String) :
    Sees global (t.enter e e' names) V t.next t.next := by
  refine .keep (t.parent?_enter he e' names) ?_ (hs.moves (h.enter e e' names e))
  have hp := t.world.heap.parent?_newScope e' (h.size ▸ he')
  rw [h.fst_newScope e'] at hp
  exact hp

/-- both show something -/
def note (t : Twin) (event : Event) : Twin :=
  { t with world := { t.world with events := event :: t.world.events } }

theorem Ok.note (h : t.Ok global n) (event : Event) (env : EnvId) :
    t.Moves global n env (t.note event) :=
  ⟨⟨h.size, h.arrays, h.own, h.bound, h.values, h.items, h.root, h.noParent, h.noParent'⟩,
    fun _ _ => rfl, .refl _, .refl _, fun _ _ _ => rfl⟩

/-- both change their arrays in the same way -/
theorem Ok.ofArrays (h : t.Ok global n) (hv hr : Heap) (hcells : hv.cells = t.heap.cells)
    (hcells' : hr.cells = t.world.heap.cells) (harr : hv.arrays = hr.arrays)
    (hitems : ∀ id, ∀ v ∈ hr.items id, v.Simple n) (env : EnvId) :
    t.Moves global n env ⟨t.names, hv, { t.world with heap := hr }⟩ := by
  obtain ⟨cells, arrays, hlt⟩ := hv
  obtain ⟨cells', arrays', hlt'⟩ := hr
  cases hcells
  cases hcells'
  exact ⟨⟨h.size, harr, h.own, h.bound, h.values, hitems, h.root, h.noParent, h.noParent'⟩,
    fun _ _ => rfl, ⟨Nat.le_refl _, fun _ _ => rfl⟩, ⟨Nat.le_refl _, fun _ _ => rfl⟩,
    fun _ _ _ => rfl⟩

theorem Ok.newArray (h : t.Ok global n) {items : Array Value} (hitems : ∀ v ∈ items, v.Simple n)
    (env : EnvId) :
    (t.heap.newArray items).1 = (t.world.heap.newArray items).1
      ∧ t.Moves global n env ⟨t.names, (t.heap.newArray items).2,
        { t.world with heap := (t.world.heap.newArray items).2 }⟩ := by
  refine ⟨?_, h.ofArrays (t.heap.newArray items).2 (t.world.heap.newArray items).2 rfl rfl
    ?_ (fun id v hv => ?_) env⟩
  · show ArrayId.mk t.heap.arrays.size = ArrayId.mk t.world.heap.arrays.size
    rw [h.arrays]
  · show t.heap.arrays.push items = t.world.heap.arrays.push items
    rw [h.arrays]
  · have hv' : v ∈ (t.world.heap.arrays.push items)[id.index]?.getD #[] := hv
    rw [Array.getElem?_push] at hv'
    split at hv'
    · exact hitems v hv'
    · exact h.items id v hv'

/-- both give a function's parameters their values -/
def bindAll (t : Twin) (e : EnvId) : List String → List Value → Twin
  | [], _ => t
  | param :: params, args =>
    (t.define e param (args.head?.getD .undefined)).bindAll e params args.tail

theorem heap_bindAll (t : Twin) (e : EnvId) (params : List String) (args : List Value) :
    (t.bindAll e params args).heap = Exec.bindParameters e params args t.heap
      ∧ (t.bindAll e params args).world
        = { t.world with heap := Exec.bindParameters e params args t.world.heap } := by
  induction params generalizing t args with
  | nil => exact ⟨rfl, rfl⟩
  | cons param params ih => exact ih (t.define e param (args.head?.getD .undefined)) args.tail

theorem Ok.bindAll (h : t.Ok global n) {params : List String} {args : List Value}
    (hparams : ∀ param ∈ params, param ≠ returnSlot ∧ param ∈ t.names e)
    (hargs : ∀ v ∈ args, v.Simple n) (env : EnvId) :
    t.Moves global n env (t.bindAll e params args) := by
  induction params generalizing t args with
  | nil => exact h.moves_refl env
  | cons param params ih =>
    obtain ⟨hfirst, hrest⟩ := List.forall_mem_cons.mp hparams
    have hv : (args.head?.getD .undefined).Simple n := by
      cases args with
      | nil => trivial
      | cons v _ => exact hargs v List.mem_cons_self
    have hdef := h.define hfirst.1 hv (fun _ => hfirst.2) env
    exact hdef.trans (ih hdef.ok hrest fun v hv => hargs v (List.mem_of_mem_tail hv))

end Twin

/-! ## indexing -/

/-- a result or a thrown value is simple -/
def eitherSimple (n : Nat) : Except Value Value → Prop
  | .ok v => v.Simple n
  | .error v => v.Simple n

theorem Heap.arrayIndex_congr {h h' : Heap} (harr : h.arrays = h'.arrays) (v : Option Value) :
    h.arrayIndex v = h'.arrayIndex v := by
  unfold Heap.arrayIndex
  cases v with
  | none => rfl
  | some v =>
    dsimp only
    rw [Heap.text_congr harr]

theorem Heap.arrayIndex_error {h : Heap} {v : Option Value} {thrown : Value}
    (he : h.arrayIndex v = .error thrown) : thrown.Simple n := by
  unfold Heap.arrayIndex at he
  cases v with
  | none =>
    cases he
    trivial
  | some v =>
    dsimp only at he
    split at he <;> cases he
    trivial

namespace Twin

/-- what an indexer does to both -/
structure Agrees (global : EnvId) (n : Nat) (env : EnvId) (t : Twin)
    (r r' : Except Value Value × Heap) : Prop where
  result : r.1 = r'.1
  simple : eitherSimple n r'.1
  moves : t.Moves global n env ⟨t.names, r.2, { t.world with heap := r'.2 }⟩

theorem Ok.agrees_same (h : t.Ok global n) (r : Except Value Value) (hr : eitherSimple n r)
    (env : EnvId) : t.Agrees global n env (r, t.heap) (r, t.world.heap) :=
  ⟨rfl, hr, h.moves_refl env⟩

theorem Ok.storeItem (h : t.Ok global n) (id : ArrayId) (index : Nat) (hv : v.Simple n)
    (env : EnvId) :
    t.Agrees global n env (t.heap.storeItem id index v) (t.world.heap.storeItem id index v) := by
  have hlen : t.heap.arrayLength id = t.world.heap.arrayLength id := by
    unfold Heap.arrayLength
    rw [Heap.items_congr h.arrays]
  -- both change the items of the array by the same function
  have hmodify (f : Array Value → Array Value)
      (hf : (∀ w ∈ t.world.heap.items id, w.Simple n) → ∀ w ∈ f (t.world.heap.items id), w.Simple n) :
      t.Moves global n env ⟨t.names, t.heap.modifyItems id f,
        { t.world with heap := t.world.heap.modifyItems id f }⟩ := by
    refine h.ofArrays (t.heap.modifyItems id f) (t.world.heap.modifyItems id f) rfl rfl ?_
      (fun id' w hw => ?_) env
    · show t.heap.arrays.modify id.index f = t.world.heap.arrays.modify id.index f
      rw [h.arrays]
    · have hw' : w ∈ (t.world.heap.arrays.modify id.index f)[id'.index]?.getD #[] := hw
      rw [Array.getElem?_modify] at hw'
      by_cases heq : id.index = id'.index
      · rw [if_pos heq, ← heq] at hw'
        have hitems := hf (h.items id)
        unfold Heap.items at hitems
        cases hget : t.world.heap.arrays[id.index]? with
        | none =>
          rw [hget] at hw'
          cases hw' with
          | mk hw' => cases hw'
        | some a =>
          rw [hget] at hw' hitems
          exact hitems w hw'
      · rw [if_neg heq] at hw'
        exact h.items id' w hw'
  unfold Heap.storeItem
  dsimp only
  rw [hlen]
  split
  · refine ⟨rfl, hv, hmodify _ fun hitems w hw => ?_⟩
    rcases Array.mem_or_eq_of_mem_setIfInBounds hw with hw | rfl
    · exact hitems w hw
    · exact hv
  · split
    · exact h.agrees_same (.error (.string _)) trivial env
    · refine ⟨rfl, hv, hmodify _ fun hitems w hw => ?_⟩
      rcases Array.mem_push.mp hw with hw | rfl
      · rcases Array.mem_append.mp hw with hw | hw
        · exact hitems w hw
        · rw [(Array.mem_replicate.mp hw).2]
          trivial
      · exact hv

theorem simple_getD {args : List Value} (hargs : ∀ v ∈ args, v.Simple n) (i : Nat) :
    (args[i]?.getD .undefined).Simple n := by
  cases hget : args[i]? with
  | none => trivial
  | some v => exact hargs v (List.mem_of_getElem? hget)

theorem Ok.getItem (h : t.Ok global n) (id : ArrayId) (args : List Value) (env : EnvId) :
    t.Agrees global n env (t.heap.callArray id .getItem args)
      (t.world.heap.callArray id .getItem args) := by
  unfold Heap.callArray
  dsimp only
  rw [Heap.arrayIndex_congr h.arrays]
  cases hi : t.world.heap.arrayIndex args.head? with
  | error thrown => exact h.agrees_same (.error thrown) (Heap.arrayIndex_error hi) env
  | ok i =>
    dsimp only
    rw [Heap.items_congr h.arrays]
    refine h.agrees_same (.ok _) ?_ env
    show ((t.world.heap.items id)[i]?.getD .undefined).Simple n
    cases hget : (t.world.heap.items id)[i]? with
    | none => trivial
    | some v => exact h.items id v (Array.mem_of_getElem? hget)

theorem Ok.setItem (h : t.Ok global n) (id : ArrayId) {args : List Value}
    (hargs : ∀ v ∈ args, v.Simple n) (env : EnvId) :
    t.Agrees global n env (t.heap.callArray id .setItem args)
      (t.world.heap.callArray id .setItem args) := by
  unfold Heap.callArray
  dsimp only
  rw [Heap.arrayIndex_congr h.arrays]
  cases hi : t.world.heap.arrayIndex args.head? with
  | error thrown => exact h.agrees_same (.error thrown) (Heap.arrayIndex_error hi) env
  | ok i => exact h.storeItem id i (simple_getD hargs 1) env

end Twin

end

end ScriptMachine
