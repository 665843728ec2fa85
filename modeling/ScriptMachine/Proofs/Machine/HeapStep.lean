import ScriptMachine.Proofs.Machine.HeapValues

/-!
# Function values and scopes on a heap

A function value on the heap names a function that exists, if all values that come onto it do.

* `Value.Known`, `Heap.Known`   function values are inside a table of `n` functions;
* `ValueKind.known`     which is a kind of values that the machine keeps to;
* `HeapStep n h h'`     the heap goes on from `h` to `h'` and stays `Known`;
* `HeapStep.define`, `HeapStep.newEnv`, `HeapStep.fromHost`, ...   the operations on heaps;
* `ScopeAt`             so many scopes inside of an environment.
-/

namespace ScriptMachine

/-! ## known functions -/

/-- a function value names one of the first `n` functions -/
def Value.Known (n : Nat) : Value → Prop
  | .function index => index < n
  | _ => True

/-- all values on the heap name known functions -/
structure Heap.Known (n : Nat) (heap : Heap) : Prop where
  bindings : ∀ env name v, heap.getOwn? env name = some v → v.Known n
  items : ∀ id, ∀ v ∈ heap.items id, v.Known n

structure HeapStep (n : Nat) (h h' : Heap) : Prop where
  later : h.Later h'
  known : h.Known n → h'.Known n

theorem known_of_isData {n : Nat} {v : Value} (hv : v.isData = true) : v.Known n := by
  cases v with
  | function _ | object _ => cases hv
  | _ => trivial

/-- objects do not matter, so any environment does for the global one -/
def ValueKind.known (n : Nat) (global : EnvId) : ValueKind n global where
  of _ v := v.Known n
  root _ := True
  lasts _ _ hv := hv
  root_lasts _ _ := trivial
  data := known_of_isData
  function hindex := hindex
  object _ := trivial

section
variable {n : Nat} {global : EnvId} {h h₁ h₂ : Heap}

theorem Heap.Known.all (hk : h.Known n) (global : EnvId) : (ValueKind.known n global).All h :=
  ⟨trivial, hk.bindings, hk.items⟩

theorem ValueKind.Step.heapStep (s : (ValueKind.known n global).Step h h₁) : HeapStep n h h₁ where
  later := s.grows.toLater
  known hk := ⟨(s.all (hk.all global)).bindings, (s.all (hk.all global)).items⟩

/-! ## steps -/

namespace HeapStep

theorem refl : HeapStep n h h := ⟨.refl h, id⟩

theorem trans (s : HeapStep n h h₁) (s' : HeapStep n h₁ h₂) : HeapStep n h h₂ :=
  ⟨s.later.trans s'.later, fun hk => s'.known (s.known hk)⟩

theorem define (env : EnvId) (name : String) {v : Value} (hv : v.Known n) :
    HeapStep n h (h.define env name v) :=
  have hstep : (ValueKind.known n ⟨0⟩).Step h (h.define env name v) := ValueKind.step_define env name hv
  hstep.heapStep

theorem newEnv (kind : EnvKind) (parent : Option EnvId) : HeapStep n h (h.newEnv kind parent).2 :=
  have hstep : (ValueKind.known n ⟨0⟩).Step h (h.newEnv kind parent).2 :=
    ValueKind.step_newEnv kind parent
  hstep.heapStep

theorem newArray {items : Array Value} (hitems : ∀ v ∈ items, v.Known n) :
    HeapStep n h (h.newArray items).2 :=
  have hstep : (ValueKind.known n ⟨0⟩).Step h (h.newArray items).2 := ValueKind.step_newArray hitems
  hstep.heapStep

theorem defineMethods (env : EnvId) (methods : List (String × Nat))
    (hm : ∀ m ∈ methods, m.2 < n) : HeapStep n h (Exec.defineMethods env methods h) :=
  have hstep : (ValueKind.known n ⟨0⟩).Step h (Exec.defineMethods env methods h) :=
    ValueKind.step_defineMethods env methods hm
  hstep.heapStep

theorem bindParameters (env : EnvId) (params : List String) (args : List Value)
    (hargs : ∀ v ∈ args, v.Known n) : HeapStep n h (Exec.bindParameters env params args h) :=
  have hstep : (ValueKind.known n ⟨0⟩).Step h (Exec.bindParameters env params args h) :=
    ValueKind.step_bindParameters env params args hargs
  hstep.heapStep

end HeapStep

end

/-! ## values of the host -/

section
variable {program : Program} (global : EnvId)

/-- host data becomes a value that names no unknown function -/
theorem fromHost_step (hnames : program.functionNames.length = program.functions.size)
    (v : HostValue) (h : Heap) :
    HeapStep program.functions.size h (program.fromHost global v h).2
      ∧ (program.fromHost global v h).1.Known program.functions.size := by
  obtain ⟨hstep, hknown⟩ := (ValueKind.known _ global).step_fromHost hnames v h trivial
  exact ⟨hstep.heapStep, hknown⟩

theorem fromHostAll_step (hnames : program.functionNames.length = program.functions.size)
    (vs : List HostValue) (h : Heap) :
    HeapStep program.functions.size h (program.fromHostAll global vs h).2
      ∧ ∀ v ∈ (program.fromHostAll global vs h).1, v.Known program.functions.size := by
  obtain ⟨hstep, hknown⟩ := (ValueKind.known _ global).step_fromHostAll hnames vs h trivial
  exact ⟨hstep.heapStep, hknown⟩

end

/-! ## what values can do -/

section
variable {n : Nat} {h : Heap}

theorem Heap.Known.getOwn (hk : h.Known n) (env : EnvId) (name : String) :
    ((h.getOwn? env name).getD .undefined).Known n := (hk.all ⟨0⟩).getOwn env name

theorem Heap.Known.lookup (hk : h.Known n) {env : EnvId} {name : String} {v : Value}
    (hv : h.lookup? env name = some v) : v.Known n := (hk.all ⟨0⟩).lookup hv

theorem known_applyBinary (op : BinaryOp) (a b : Value) : (h.applyBinary op a b).Known n :=
  known_of_isData (ValueKind.isData_applyBinary op a b)

theorem known_getProperty (hk : h.Known n) {target v : Value} {name : String}
    (hv : h.getProperty target name = .ok v) : v.Known n :=
  ValueKind.of_getProperty (hk.all ⟨0⟩) hv

/-- a result or a thrown value names no unknown function -/
def eitherKnown (n : Nat) : Except Value Value → Prop
  | .ok v => v.Known n
  | .error v => v.Known n

/-- what a method name stands for names no unknown function -/
def Method.Known (n : Nat) : Method → Prop
  | .callee v => v.Known n
  | .immediate run => ∀ args : List Value, (∀ v ∈ args, v.Known n) → ∀ h : Heap, h.Known n →
    HeapStep n h (run args h).2 ∧ eitherKnown n (run args h).1
  | .refusing thrown => thrown.Known n
  | .missing thrown => thrown.Known n

theorem known_method (hk : h.Known n) (target : Value) (name : String) :
    (h.method target name).Known n := by
  have hmethod := ValueKind.of_method (hk.all ⟨0⟩) target name
  generalize h.method target name = method at hmethod
  cases method with
  | callee v => exact hmethod
  | refusing thrown | missing thrown => exact known_of_isData hmethod
  | immediate run =>
    intro args hargs h hk
    obtain ⟨hstep, hresult⟩ := hmethod h (hk.all ⟨0⟩) args hargs
    refine ⟨hstep.heapStep, ?_⟩
    cases hr : (run args h).1 with
    | ok v | error v =>
      rw [hr] at hresult
      exact hresult

end

/-! ## scopes -/

/-- `env` stands `d` scopes inside of `base`, on a heap that has both -/
def ScopeAt (h : Heap) (base : EnvId) : Nat → EnvId → Prop
  | 0, env => env = base ∧ env.index < h.cells.size
  | d + 1, env => ∃ parent, h.parent? env = some parent ∧ ScopeAt h base d parent

theorem ScopeAt.lt {h : Heap} {base env : EnvId} {d : Nat} (hs : ScopeAt h base d env) :
    env.index < h.cells.size := by
  cases d with
  | zero => exact hs.2
  | succ d =>
    obtain ⟨parent, hp, -⟩ := hs
    obtain ⟨cell, hcell, -⟩ := Option.bind_eq_some_iff.mp hp
    exact (Array.getElem?_eq_some_iff.mp hcell).1

theorem ScopeAt.later {h h' : Heap} {base env : EnvId} {d : Nat} (hs : ScopeAt h base d env)
    (hl : h.Later h') : ScopeAt h' base d env := by
  induction d generalizing env with
  | zero => exact ⟨hs.1, Nat.lt_of_lt_of_le hs.2 hl.size⟩
  | succ d ih =>
    have hlt := hs.lt
    obtain ⟨parent, hp, hs⟩ := hs
    exact ⟨parent, (hl.parent env hlt).trans hp, ih hs⟩

theorem ScopeAt.enter {h : Heap} {base env : EnvId} {d : Nat} (hs : ScopeAt h base d env) :
    ScopeAt (h.newScope env).2 base (d + 1) (h.newScope env).1 := by
  have hstep : HeapStep 0 h (h.newScope env).2 := .newEnv .scope (some env)
  exact ⟨env, h.parent?_newScope env hs.lt, hs.later hstep.later⟩

end ScriptMachine
