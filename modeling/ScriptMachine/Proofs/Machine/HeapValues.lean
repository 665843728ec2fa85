import Mathlib
import ScriptMachine.Machine.Dispatch

/-!
# What the machine does to its heap

Environments are only added, and their kinds and parents stay.  The values that come onto the heap are
plain data, functions of the program, new objects, and values that the script already has.  So a kind
of values that has all these is kept by everything that the machine does to its heap.

* `Heap.Later`          all environments are still there, with the same parents;
* `Heap.Grows`          and with the same kinds;
* `ValueKind`           a kind of values that lasts as the heap grows;
* `ValueKind.All`       all values on a heap are of a kind;
* `ValueKind.Step`      the heap grows and keeps to a kind;
* `ValueKind.step_define`, `ValueKind.step_fromHost`, ...   the operations on heaps;
* `ValueKind.of_method`, ...   what a script gets from a heap.
-/

namespace ScriptMachine

/-! ## growth -/

/-- the environments of a heap are also on a later one -/
structure Heap.Later (h h' : Heap) : Prop where
  size : h.cells.size ≤ h'.cells.size
  parent : ∀ env : EnvId, env.index < h.cells.size → h'.parent? env = h.parent? env

/-- and scopes are still scopes, and objects objects -/
structure Heap.Grows (h h' : Heap) : Prop extends Heap.Later h h' where
  kind : ∀ env : EnvId, env.index < h.cells.size → h'.kind env = h.kind env

namespace Heap

theorem Later.refl (h : Heap) : h.Later h := ⟨Nat.le_refl _, fun _ _ => rfl⟩

theorem Later.trans {h₁ h₂ h₃ : Heap} (h : h₁.Later h₂) (h' : h₂.Later h₃) : h₁.Later h₃ where
  size := Nat.le_trans h.size h'.size
  parent env henv := (h'.parent env (Nat.lt_of_lt_of_le henv h.size)).trans (h.parent env henv)

theorem Grows.refl (h : Heap) : h.Grows h := ⟨.refl h, fun _ _ => rfl⟩

theorem Grows.trans {h₁ h₂ h₃ : Heap} (h : h₁.Grows h₂) (h' : h₂.Grows h₃) : h₁.Grows h₃ where
  toLater := h.toLater.trans h'.toLater
  kind env henv := (h'.kind env (Nat.lt_of_lt_of_le henv h.size)).trans (h.kind env henv)

@[simp] theorem size_define (heap : Heap) (env : EnvId) (name : String) (v : Value) :
    (heap.define env name v).cells.size = heap.cells.size := Array.size_modify

@[simp] theorem size_newEnv (heap : Heap) (kind : EnvKind) (parent : Option EnvId) :
    (heap.newEnv kind parent).2.cells.size = heap.cells.size + 1 := Array.size_push _

theorem cell?_newEnv (heap : Heap) (kind : EnvKind) (parent : Option EnvId) (env : EnvId) :
    (heap.newEnv kind parent).2.cell? env
      = if env.index = heap.cells.size
        then some ⟨kind, parent.filter fun p => p.index < heap.cells.size, ∅⟩
        else heap.cell? env := by
  show (heap.cells.push _)[env.index]? = _
  rw [Array.getElem?_push]
  rfl

theorem getOwn?_define_self {env : EnvId} (h : Heap) (henv : env.index < h.cells.size) (name : String)
    (v : Value) : (h.define env name v).getOwn? env name = some v := by
  have hcell : h.cell? env = some h.cells[env.index] := Array.getElem?_eq_getElem henv
  rw [getOwn?_define, if_pos ⟨rfl, rfl⟩, hcell]
  rfl

/-- a new environment binds nothing, and the others bind what they did -/
theorem getOwn?_newEnv (heap : Heap) (kind : EnvKind) (parent : Option EnvId) (env : EnvId)
    (name : String) : (heap.newEnv kind parent).2.getOwn? env name = heap.getOwn? env name := by
  unfold getOwn?
  rw [cell?_newEnv]
  by_cases h : env.index = heap.cells.size
  · have hnone : heap.cell? env = none := Array.getElem?_eq_none (Nat.le_of_eq h.symm)
    rw [if_pos h, hnone]
    exact Std.TreeMap.getElem?_emptyc
  · rw [if_neg h]

theorem parent?_newEnv (heap : Heap) (kind : EnvKind) (parent : Option EnvId) (env : EnvId)
    (h : env.index < heap.cells.size) :
    (heap.newEnv kind parent).2.parent? env = heap.parent? env := by
  unfold parent?
  rw [cell?_newEnv, if_neg (Nat.ne_of_lt h)]

/-- an environment that is made inside another one that exists has it as its parent -/
theorem parent?_newEnv_self (heap : Heap) (kind : EnvKind) (env : EnvId)
    (h : env.index < heap.cells.size) :
    (heap.newEnv kind (some env)).2.parent? (heap.newEnv kind (some env)).1 = some env := by
  show (((heap.newEnv kind (some env)).2.cell? ⟨heap.cells.size⟩).bind EnvCell.parent) = _
  rw [cell?_newEnv, if_pos rfl]
  show Option.bind (some _) EnvCell.parent = _
  rw [Option.bind_some, Option.filter_some, if_pos (decide_eq_true h)]

/-- a scope that is made inside an environment that exists has it as its parent -/
theorem parent?_newScope (heap : Heap) (env : EnvId) (h : env.index < heap.cells.size) :
    (heap.newScope env).2.parent? (heap.newScope env).1 = some env :=
  heap.parent?_newEnv_self .scope env h

theorem kind_newEnv (heap : Heap) (kind : EnvKind) (parent : Option EnvId) (env : EnvId) :
    (heap.newEnv kind parent).2.kind env
      = if env.index = heap.cells.size then kind else heap.kind env := by
  unfold Heap.kind
  rw [cell?_newEnv]
  split <;> rfl

theorem kind_newEnv_self (heap : Heap) (kind : EnvKind) (parent : Option EnvId) :
    (heap.newEnv kind parent).2.kind (heap.newEnv kind parent).1 = kind :=
  (heap.kind_newEnv kind parent ⟨heap.cells.size⟩).trans (if_pos rfl)

namespace Grows

variable {h : Heap}

theorem define (env : EnvId) (name : String) (v : Value) : h.Grows (h.define env name v) where
  size := Nat.le_of_eq (h.size_define env name v).symm
  parent e _ := h.parent?_define env e name v
  kind e _ := h.kind_define env e name v

theorem newEnv (kind : EnvKind) (parent : Option EnvId) : h.Grows (h.newEnv kind parent).2 where
  size := by
    rw [size_newEnv]
    exact Nat.le_succ _
  parent := h.parent?_newEnv kind parent
  kind e he := by rw [kind_newEnv, if_neg (Nat.ne_of_lt he)]

/-- arrays do not matter -/
theorem ofCells {h' : Heap} (hcells : h'.cells = h.cells) : h.Grows h' := by
  have hcell (env : EnvId) : h'.cell? env = h.cell? env := by
    unfold cell?
    rw [hcells]
  refine ⟨⟨Nat.le_of_eq (congrArg Array.size hcells).symm, fun env _ => ?_⟩, fun env _ => ?_⟩
  · unfold parent?
    rw [hcell]
  · unfold Heap.kind
    rw [hcell]

theorem newArray (items : Array Value) : h.Grows (h.newArray items).2 := .ofCells rfl

theorem modifyItems (id : ArrayId) (f : Array Value → Array Value) : h.Grows (h.modifyItems id f) :=
  .ofCells rfl

end Grows

end Heap

/-! ## kinds of values -/

/-- neither a function of the program nor an object -/
def Value.isData : Value → Bool
  | .function _ => false
  | .object _ => false
  | _ => true

/-- A kind of values in programs with `n` functions.  It lasts as the heap grows, and it has all data,
the functions of the program and the objects that are made on a heap with a root. -/
structure ValueKind (n : Nat) (global : EnvId) where
  of : Heap → Value → Prop
  root : Heap → Prop
  lasts : ∀ {h h' : Heap}, h.Grows h' → ∀ {v}, of h v → of h' v
  root_lasts : ∀ {h h' : Heap}, h.Grows h' → root h → root h'
  data : ∀ {h : Heap} {v : Value}, v.isData = true → of h v
  function : ∀ {h : Heap} {index : Nat}, index < n → of h (.function index)
  object : ∀ {h : Heap}, root h → of (h.newObject global).2 (.object (h.newObject global).1)

namespace ValueKind

variable {n : Nat} {global : EnvId} (K : ValueKind n global)

/-- all values on the heap are of the kind -/
structure All (h : Heap) : Prop where
  root : K.root h
  bindings : ∀ env name v, h.getOwn? env name = some v → K.of h v
  items : ∀ id, ∀ v ∈ h.items id, K.of h v

structure Step (h h' : Heap) : Prop where
  grows : h.Grows h'
  all : K.All h → K.All h'

variable {K} {h h₁ h₂ : Heap}

namespace Step

theorem refl : K.Step h h := ⟨.refl h, id⟩

theorem trans (s : K.Step h h₁) (s' : K.Step h₁ h₂) : K.Step h h₂ :=
  ⟨s.grows.trans s'.grows, fun hall => s'.all (s.all hall)⟩

end Step

/-! ## the operations on heaps -/

theorem step_define (env : EnvId) (name : String) {v : Value} (hv : K.of h v) :
    K.Step h (h.define env name v) where
  grows := .define env name v
  all hall := by
    have hgrows : h.Grows (h.define env name v) := .define env name v
    refine ⟨K.root_lasts hgrows hall.root, fun e m w hw => ?_, fun id w hw => ?_⟩
    · rw [Heap.getOwn?_define] at hw
      split at hw
      · obtain ⟨_, _, rfl⟩ := Option.map_eq_some_iff.mp hw
        exact K.lasts hgrows hv
      · exact K.lasts hgrows (hall.bindings e m w hw)
    · exact K.lasts hgrows (hall.items id w hw)

theorem step_newEnv (kind : EnvKind) (parent : Option EnvId) : K.Step h (h.newEnv kind parent).2 where
  grows := .newEnv kind parent
  all hall := by
    have hgrows : h.Grows (h.newEnv kind parent).2 := .newEnv kind parent
    refine ⟨K.root_lasts hgrows hall.root, fun e m w hw => ?_, fun id w hw => ?_⟩
    · rw [Heap.getOwn?_newEnv] at hw
      exact K.lasts hgrows (hall.bindings e m w hw)
    · exact K.lasts hgrows (hall.items id w hw)

theorem step_newArray {items : Array Value} (hitems : ∀ v ∈ items, K.of h v) :
    K.Step h (h.newArray items).2 where
  grows := .newArray items
  all hall := by
    have hgrows : h.Grows (h.newArray items).2 := .newArray items
    refine ⟨K.root_lasts hgrows hall.root, fun e m w hw => K.lasts hgrows (hall.bindings e m w hw),
      fun id v hv => K.lasts hgrows ?_⟩
    have hv' : v ∈ (h.arrays.push items)[id.index]?.getD #[] := hv
    rw [Array.getElem?_push] at hv'
    split at hv'
    · exact hitems v hv'
    · exact hall.items id v hv'

theorem step_modifyItems (id : ArrayId) (f : Array Value → Array Value)
    (hf : (∀ v ∈ h.items id, K.of h v) → ∀ v ∈ f (h.items id), K.of h v) :
    K.Step h (h.modifyItems id f) where
  grows := .modifyItems id f
  all hall := by
    have hgrows : h.Grows (h.modifyItems id f) := .modifyItems id f
    refine ⟨K.root_lasts hgrows hall.root, fun e m w hw => K.lasts hgrows (hall.bindings e m w hw),
      fun id' v hv => K.lasts hgrows ?_⟩
    have hv' : v ∈ (h.arrays.modify id.index f)[id'.index]?.getD #[] := hv
    rw [Array.getElem?_modify] at hv'
    by_cases heq : id.index = id'.index
    · rw [if_pos heq, ← heq] at hv'
      have hitems := hf (hall.items id)
      unfold Heap.items at hitems
      cases hget : h.arrays[id.index]? with
      | none =>
        rw [hget] at hv'
        cases hv' with
        | mk hv' => cases hv'
      | some a =>
        rw [hget] at hv' hitems
        exact hitems v hv'
    · rw [if_neg heq] at hv'
      exact hall.items id' v hv'

theorem step_defineMethods (env : EnvId) (methods : List (String × Nat))
    (hm : ∀ m ∈ methods, m.2 < n) : K.Step h (Exec.defineMethods env methods h) := by
  induction methods generalizing h with
  | nil => exact .refl
  | cons m methods ih =>
    have hfirst : K.Step h (h.define env m.1 (.function m.2)) :=
      step_define env m.1 (K.function (hm m List.mem_cons_self))
    exact hfirst.trans (ih fun m' hm' => hm m' (List.mem_cons_of_mem _ hm'))

theorem step_bindParameters (env : EnvId) (params : List String) (args : List Value)
    (hargs : ∀ v ∈ args, K.of h v) : K.Step h (Exec.bindParameters env params args h) := by
  induction params generalizing h args with
  | nil => exact .refl
  | cons param params ih =>
    have hfirst : K.of h (args.head?.getD .undefined) := by
      cases args with
      | nil => exact K.data rfl
      | cons v _ => exact hargs v List.mem_cons_self
    have hstep : K.Step h (h.define env param (args.head?.getD .undefined)) :=
      step_define env param hfirst
    exact hstep.trans (ih args.tail fun v hv => K.lasts hstep.grows (hargs v (List.mem_of_mem_tail hv)))

end ValueKind

/-! ## values of the host -/

theorem Program.lastIndex?_lt {name : String} {names : List String} {i : Nat}
    (h : lastIndex? name names = some i) : i < names.length := by
  induction names generalizing i with
  | nil => cases h
  | cons first rest ih =>
    rw [lastIndex?] at h
    cases hrest : lastIndex? name rest with
    | some j =>
      rw [hrest] at h
      cases h
      exact Nat.succ_lt_succ (ih hrest)
    | none =>
      rw [hrest] at h
      dsimp only at h
      split at h
      · cases h
        exact Nat.succ_pos _
      · cases h

section
variable {program : Program}

theorem functionIndex?_lt (hnames : program.functionNames.length = program.functions.size)
    {name : String} {i : Nat} (h : program.functionIndex? name = some i) :
    i < program.functions.size := hnames ▸ Program.lastIndex?_lt h

end

namespace ValueKind

section
variable {program : Program} {global : EnvId} (K : ValueKind program.functions.size global)

mutual

/-- host data becomes a value of the kind -/
theorem step_fromHost (hnames : program.functionNames.length = program.functions.size)
    (v : HostValue) (h : Heap) (hroot : K.root h) :
    K.Step h (program.fromHost global v h).2
      ∧ K.of (program.fromHost global v h).2 (program.fromHost global v h).1 := by
  match v with
  | .undefined | .null | .bool _ | .number _ | .string _ =>
    rw [Program.fromHost]
    exact ⟨.refl, K.data rfl⟩
  | .array items =>
    obtain ⟨hstep, hvalues⟩ := step_fromHostAll hnames items h hroot
    rw [Program.fromHost]
    exact ⟨hstep.trans (step_newArray fun v hv => hvalues v (List.mem_toArray.mp hv)), K.data rfl⟩
  | .object fields =>
    have hnew : K.Step h (h.newObject global).2 := step_newEnv _ _
    have hfields := step_defineFields hnames (h.newObject global).1 fields _
      (K.root_lasts hnew.grows hroot)
    rw [Program.fromHost]
    exact ⟨hnew.trans hfields, K.lasts hfields.grows (K.object hroot)⟩
  | .function name =>
    rw [Program.fromHost]
    cases hi : program.functionIndex? name with
    | some i => exact ⟨.refl, K.function (functionIndex?_lt hnames hi)⟩
    | none => exact ⟨.refl, K.data rfl⟩

theorem step_fromHostAll (hnames : program.functionNames.length = program.functions.size)
    (vs : List HostValue) (h : Heap) (hroot : K.root h) :
    K.Step h (program.fromHostAll global vs h).2
      ∧ ∀ v ∈ (program.fromHostAll global vs h).1, K.of (program.fromHostAll global vs h).2 v := by
  match vs with
  | [] =>
    rw [Program.fromHostAll]
    exact ⟨.refl, nofun⟩
  | v :: rest =>
    obtain ⟨hstep, hv⟩ := step_fromHost hnames v h hroot
    obtain ⟨hstep', hrest⟩ := step_fromHostAll hnames rest _ (K.root_lasts hstep.grows hroot)
    rw [Program.fromHostAll]
    exact ⟨hstep.trans hstep', List.forall_mem_cons.mpr ⟨K.lasts hstep'.grows hv, hrest⟩⟩

theorem step_defineFields (hnames : program.functionNames.length = program.functions.size)
    (env : EnvId) (fields : List (String × HostValue)) (h : Heap) (hroot : K.root h) :
    K.Step h (program.defineFields global env fields h) := by
  match fields with
  | [] =>
    rw [Program.defineFields]
    exact .refl
  | (name, field) :: rest =>
    obtain ⟨hstep, hv⟩ := step_fromHost hnames field h hroot
    have hdefined := hstep.trans (step_define env name hv)
    rw [Program.defineFields]
    exact hdefined.trans (step_defineFields hnames env rest _ (K.root_lasts hdefined.grows hroot))

end

end

/-! ## what values can do -/

section
variable {n : Nat} {global : EnvId} {K : ValueKind n global} {h : Heap}

theorem All.getOwn (hall : K.All h) (env : EnvId) (name : String) :
    K.of h ((h.getOwn? env name).getD .undefined) := by
  cases hget : h.getOwn? env name with
  | none => exact K.data rfl
  | some v => exact hall.bindings env name v hget

theorem All.lookup (hall : K.All h) {env : EnvId} {name : String} {v : Value}
    (hv : h.lookup? env name = some v) : K.of h v := by
  obtain ⟨e, -, hget⟩ := Option.bind_eq_some_iff.mp hv
  exact hall.bindings e name v hget

theorem of_getD {args : List Value} (hargs : ∀ v ∈ args, K.of h v) (i : Nat) :
    K.of h (args[i]?.getD .undefined) := by
  cases hget : args[i]? with
  | none => exact K.data rfl
  | some v => exact hargs v (List.mem_of_getElem? hget)

theorem isData_applyBinary (op : BinaryOp) (a b : Value) : (h.applyBinary op a b).isData = true := by
  cases op <;> try rfl
  show (h.add a b).isData = true
  unfold Heap.add
  split <;> rfl

theorem of_getProperty (hall : K.All h) {target v : Value} {name : String}
    (hv : h.getProperty target name = .ok v) : K.of h v := by
  unfold Heap.getProperty at hv
  split at hv <;> cases hv
  · exact hall.getOwn _ _
  · unfold Heap.arrayProperty?
    split <;> exact K.data rfl
  · split <;> exact K.data rfl
  · exact K.data rfl

theorem isData_thrown_getProperty {target v : Value} {name : String}
    (hv : h.getProperty target name = .error v) : v.isData = true := by
  unfold Heap.getProperty at hv
  split at hv <;> cases hv <;> rfl

/-- a result or a thrown value is of the kind -/
def Either (K : ValueKind n global) (h : Heap) : Except Value Value → Prop
  | .ok v => K.of h v
  | .error v => K.of h v

theorem step_storeItem (id : ArrayId) (index : Nat) {v : Value} (hv : K.of h v) :
    K.Step h (h.storeItem id index v).2
      ∧ K.Either (h.storeItem id index v).2 (h.storeItem id index v).1 := by
  have hlasts (f : Array Value → Array Value) : K.of (h.modifyItems id f) v :=
    K.lasts (.modifyItems id f) hv
  unfold Heap.storeItem
  dsimp only
  split
  · refine ⟨step_modifyItems id _ fun hitems w hw => ?_, hlasts _⟩
    rcases Array.mem_or_eq_of_mem_setIfInBounds hw with hw | rfl
    · exact hitems w hw
    · exact hv
  · split
    · exact ⟨.refl, K.data rfl⟩
    · refine ⟨step_modifyItems id _ fun hitems w hw => ?_, hlasts _⟩
      rcases Array.mem_push.mp hw with hw | rfl
      · rcases Array.mem_append.mp hw with hw | hw
        · exact hitems w hw
        · rw [(Array.mem_replicate.mp hw).2]
          exact K.data rfl
      · exact hv

theorem isData_arrayIndex {arg : Option Value} {thrown : Value} (he : h.arrayIndex arg = .error thrown) :
    thrown.isData = true := by
  unfold Heap.arrayIndex at he
  cases arg with
  | none =>
    cases he
    rfl
  | some v =>
    dsimp only at he
    split at he <;> cases he
    rfl

theorem step_callArray (hall : K.All h) (id : ArrayId) (method : ArrayMethod) {args : List Value}
    (hargs : ∀ v ∈ args, K.of h v) :
    K.Step h (h.callArray id method args).2
      ∧ K.Either (h.callArray id method args).2 (h.callArray id method args).1 := by
  cases method with
  | getItem =>
    unfold Heap.callArray
    cases hi : h.arrayIndex args.head? with
    | error thrown => exact ⟨.refl, K.data (isData_arrayIndex hi)⟩
    | ok i =>
      refine ⟨.refl, ?_⟩
      show K.of h ((h.items id)[i]?.getD .undefined)
      cases hget : (h.items id)[i]? with
      | none => exact K.data rfl
      | some v => exact hall.items id v (Array.mem_of_getElem? hget)
  | setItem =>
    unfold Heap.callArray
    cases hi : h.arrayIndex args.head? with
    | error thrown => exact ⟨.refl, K.data (isData_arrayIndex hi)⟩
    | ok i => exact step_storeItem id i (of_getD hargs 1)
  | push =>
    refine ⟨step_modifyItems id _ fun hitems w hw => ?_, K.data rfl⟩
    rcases Array.mem_append.mp hw with hw | hw
    · exact hitems w hw
    · exact hargs w (List.mem_toArray.mp hw)
  | pop =>
    refine ⟨step_modifyItems id _ fun hitems w hw => ?_, K.lasts (.modifyItems id Array.pop) ?_⟩
    · rw [← Array.mem_toList_iff, Array.toList_pop] at hw
      exact hitems w (Array.mem_toList_iff.mp ((List.dropLast_sublist _).subset hw))
    · show K.of h ((h.items id).back?.getD .undefined)
      cases hget : (h.items id).back? with
      | none => exact K.data rfl
      | some v => exact hall.items id v (Array.mem_of_back? hget)
  | join => exact ⟨.refl, K.data rfl⟩

/-- what a method name stands for gives values of the kind -/
def OfMethod (K : ValueKind n global) (h : Heap) : Method → Prop
  | .callee v => K.of h v
  | .immediate run => ∀ h : Heap, K.All h → ∀ args : List Value, (∀ v ∈ args, K.of h v) →
    K.Step h (run args h).2 ∧ K.Either (run args h).2 (run args h).1
  | .refusing thrown => thrown.isData = true
  | .missing thrown => thrown.isData = true

theorem of_method (hall : K.All h) (target : Value) (name : String) :
    K.OfMethod h (h.method target name) := by
  cases target with
  | object env =>
    unfold Heap.method
    dsimp only
    cases hget : h.getOwn? env name with
    | some v => exact hall.bindings env name v hget
    | none =>
      dsimp only
      split
      · exact fun h hall args _ => ⟨.refl, hall.getOwn _ _⟩
      · split
        · refine fun h _ args hargs => ⟨step_define _ _ (of_getD hargs 1), ?_⟩
          exact K.lasts (.define _ _ _) (of_getD hargs 1)
        · rfl
  | array id =>
    unfold Heap.method
    dsimp only
    cases ArrayMethod.ofName? name with
    | some method => exact fun h hall args hargs => step_callArray hall id method hargs
    | none => rfl
  | string s =>
    show K.OfMethod h (if name = indexerGet then _ else _)
    split
    · intro h _ args _
      refine ⟨.refl, ?_⟩
      show K.of h (characterAt s args.head?)
      unfold characterAt
      split
      · split <;> exact K.data rfl
      · exact K.data rfl
    · rfl
  | undefined | null | bool _ | number _ | function _ | native _ => rfl

end

end ValueKind

end ScriptMachine
