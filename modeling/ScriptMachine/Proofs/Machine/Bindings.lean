import ScriptMachine.Proofs.Machine.HeapStep
import ScriptMachine.Proofs.Machine.Slots

/-!
# Which instructions give a name its value

A name of a scope gets a value by a declaration, by an assignment, or by the call that the scope was
made for.  No other instruction changes it, whatever the program.  Objects are environments too; they
also get values as they are made.

* `Heap.Keeps e x h h'`   the name `x` of `e` is bound as before, unless `e` is an object;
* `argumentOf`            the argument that a parameter gets;
* `Writes linked s op e x v`   the instruction gives the name `x` of `e` the value `v`;
* `Binds`                 a name has the value that was written, and is kept if there was none;
* `binds_execute`         the main statement: so does every instruction.
-/

namespace ScriptMachine

/-! ## names that keep their values -/

/-- Objects stay objects, and unless `e` is one of them its name `x` is bound as before. -/
structure Heap.Keeps (e : EnvId) (x : String) (h h' : Heap) : Prop where
  objects : ∀ env, h.isObject env = true → h'.isObject env = true
  own : h'.isObject e = false → h'.getOwn? e x = h.getOwn? e x

namespace Heap

@[simp] theorem isObject_define (h : Heap) (env e : EnvId) (name : String) (v : Value) :
    (h.define env name v).isObject e = h.isObject e := by
  unfold isObject
  rw [kind_define]

theorem isObject_newEnv (h : Heap) (kind : EnvKind) (parent : Option EnvId) (env : EnvId) :
    (h.newEnv kind parent).2.isObject env
      = if env.index = h.cells.size then decide (kind = .object) else h.isObject env := by
  unfold isObject Heap.kind
  rw [cell?_newEnv]
  split <;> rfl

theorem isObject_newObject (h : Heap) (parent : EnvId) :
    (h.newObject parent).2.isObject (h.newObject parent).1 = true := by
  show (h.newEnv .object (some parent)).2.isObject ⟨h.cells.size⟩ = true
  rw [isObject_newEnv, if_pos rfl]
  rfl

namespace Keeps

variable {e env : EnvId} {x name : String} {h h₁ h₂ : Heap} {v : Value}

theorem refl : Keeps e x h h := ⟨fun _ hobject => hobject, fun _ => rfl⟩

theorem trans (k : Keeps e x h h₁) (k' : Keeps e x h₁ h₂) : Keeps e x h h₂ where
  objects env henv := k'.objects env (k.objects env henv)
  own he := by
    have he₁ : h₁.isObject e = false := by
      cases hobject : h₁.isObject e with
      | false => rfl
      | true => exact (k'.objects e hobject).symm.trans he
    exact (k'.own he).trans (k.own he₁)

/-- arrays do not matter -/
theorem ofCells (hcells : h₁.cells = h.cells) : Keeps e x h h₁ := by
  have hcell (env : EnvId) : h₁.cell? env = h.cell? env := by
    unfold cell?
    rw [hcells]
  refine ⟨fun env henv => ?_, fun _ => ?_⟩
  · unfold isObject Heap.kind at henv ⊢
    rw [hcell]
    exact henv
  · unfold getOwn?
    rw [hcell]

/-- another name gets a value, or a name of an environment that does not exist -/
theorem define (hother : ¬(env = e ∧ name = x ∧ env.index < h.cells.size)) :
    Keeps e x h (h.define env name v) where
  objects env henv := by
    rw [isObject_define]
    exact henv
  own _ := by
    rw [getOwn?_define]
    split
    · rename_i hsame
      obtain ⟨rfl, rfl⟩ := hsame
      have hout : h.cells.size ≤ e.index := by
        by_contra hlt
        exact hother ⟨rfl, rfl, by omega⟩
      have hnone : h.cell? e = none := Array.getElem?_eq_none hout
      unfold getOwn?
      rw [hnone]
      rfl
    · rfl

/-- a property of an object gets a value -/
theorem defineObject (hobject : h.isObject env = true) : Keeps e x h (h.define env name v) := by
  by_cases he : env = e
  · refine ⟨fun o ho => ?_, fun hscope => ?_⟩
    · rw [isObject_define]
      exact ho
    · rw [isObject_define, ← he, hobject] at hscope
      cases hscope
  · exact define fun hsame => he hsame.1

theorem newEnv (kind : EnvKind) (parent : Option EnvId) : Keeps e x h (h.newEnv kind parent).2 where
  objects env henv := by
    rw [isObject_newEnv]
    split
    · rename_i hnew
      have hnone : h.cell? env = none := Array.getElem?_eq_none (Nat.le_of_eq hnew.symm)
      unfold isObject Heap.kind at henv
      rw [hnone] at henv
      cases henv
    · exact henv
  own _ := h.getOwn?_newEnv kind parent e x

theorem defineMethods (methods : List (String × Nat)) (hobject : h.isObject env = true) :
    Keeps e x h (Exec.defineMethods env methods h) := by
  induction methods generalizing h with
  | nil => exact refl
  | cons m methods ih =>
    have hfirst : Keeps e x h (h.define env m.1 (.function m.2)) := defineObject hobject
    exact hfirst.trans (ih (hfirst.objects env hobject))

end Keeps

end Heap

section
variable {e : EnvId} {x : String} (program : Program) (global : EnvId)

mutual

/-- host data makes new objects only -/
theorem keeps_fromHost (v : HostValue) (h : Heap) : h.Keeps e x (program.fromHost global v h).2 := by
  match v with
  | .undefined | .null | .bool _ | .number _ | .string _ =>
    rw [Program.fromHost]
    exact .refl
  | .array items =>
    rw [Program.fromHost]
    exact (keeps_fromHostAll items h).trans (.ofCells rfl)
  | .object fields =>
    rw [Program.fromHost]
    have hnew : h.Keeps e x (h.newObject global).2 := .newEnv _ _
    exact hnew.trans (keeps_defineFields _ fields _ (h.isObject_newObject global))
  | .function name =>
    rw [Program.fromHost]
    cases program.functionIndex? name with
    | some i => exact .refl
    | none => exact .refl

theorem keeps_fromHostAll (vs : List HostValue) (h : Heap) :
    h.Keeps e x (program.fromHostAll global vs h).2 := by
  match vs with
  | [] =>
    rw [Program.fromHostAll]
    exact .refl
  | v :: rest =>
    rw [Program.fromHostAll]
    exact (keeps_fromHost v h).trans (keeps_fromHostAll rest _)

theorem keeps_defineFields (env : EnvId) (fields : List (String × HostValue)) (h : Heap)
    (hobject : h.isObject env = true) : h.Keeps e x (program.defineFields global env fields h) := by
  match fields with
  | [] =>
    rw [Program.defineFields]
    exact .refl
  | (name, field) :: rest =>
    rw [Program.defineFields]
    have hfield : h.Keeps e x (program.fromHost global field h).2 := keeps_fromHost field h
    have hdefined : h.Keeps e x ((program.fromHost global field h).2.define env name
        (program.fromHost global field h).1) :=
      hfield.trans (.defineObject (hfield.objects env hobject))
    exact hdefined.trans (keeps_defineFields env rest _ (hdefined.objects env hobject))

end

end

theorem cells_callArray (h : Heap) (id : ArrayId) (method : ArrayMethod) (args : List Value) :
    (h.callArray id method args).2.cells = h.cells := by
  cases method with
  | getItem =>
    unfold Heap.callArray
    dsimp only
    split <;> rfl
  | setItem =>
    unfold Heap.callArray
    dsimp only
    split
    · rfl
    · unfold Heap.storeItem
      dsimp only
      split
      · rfl
      · split <;> rfl
  | push | pop | join => rfl

/-! ## arguments -/

/-- the argument that a parameter gets; of parameters with one name the last one counts -/
def argumentOf (x : String) : List String → List Value → Option Value
  | [], _ => none
  | param :: params, args =>
    (argumentOf x params args.tail).or
      (if param = x then some (args.head?.getD .undefined) else none)

/-- the parameters get their arguments, and nothing else changes -/
theorem getOwn?_bindParameters (e env : EnvId) (x : String) (params : List String) (args : List Value)
    (h : Heap) (henv : env.index < h.cells.size) :
    (Exec.bindParameters env params args h).getOwn? e x
      = if e = env then (argumentOf x params args).or (h.getOwn? env x) else h.getOwn? e x := by
  induction params generalizing args h with
  | nil =>
    rw [Exec.bindParameters, argumentOf]
    split
    · rename_i he
      rw [he]
      rfl
    · rfl
  | cons param params ih =>
    have hcell : h.cell? env = some h.cells[env.index] := Array.getElem?_eq_getElem henv
    rw [Exec.bindParameters, ih _ _ (by rw [Heap.size_define]; exact henv), argumentOf]
    split
    · rw [Heap.getOwn?_define, hcell, Option.or_assoc]
      by_cases hparam : param = x
      · rw [if_pos ⟨rfl, hparam.symm⟩, if_pos hparam]
        rfl
      · rw [if_neg fun hsame => hparam hsame.2.symm, if_neg hparam]
        rfl
    · rename_i he
      rw [Heap.getOwn?_define, if_neg fun hsame => he hsame.1]

theorem isObject_bindParameters (e env : EnvId) (params : List String) (args : List Value) (h : Heap) :
    (Exec.bindParameters env params args h).isObject e = h.isObject e := by
  induction params generalizing args h with
  | nil => rfl
  | cons param params ih => rw [Exec.bindParameters, ih, Heap.isObject_define]

/-! ## writing -/

/-- The instruction that runs in the state `s` gives the name `x` of the environment `e` the value `v`:
it declares the name, assigns to it or to a property of an object, or calls a function that has a
parameter of that name, in the scope that the call makes. -/
inductive Writes (linked : Linked) (s : State) : Op → EnvId → String → Value → Prop
  | declare (henv : s.env.index < s.heap.cells.size) : Writes linked s (.declare x) s.env x .undefined
  | assign (hslots : s.stack.slots = .value v :: rest) (howner : s.heap.owner? s.env x = some e) :
    Writes linked s (.store x false) e x v
  | create (hslots : s.stack.slots = .value v :: rest) (howner : s.heap.owner? s.env x = none)
      (henv : linked.global.index < s.heap.cells.size) :
    Writes linked s (.store x false) linked.global x v
  | member (hslots : s.stack.slots = .value v :: .value (.object e) :: rest)
      (henv : e.index < s.heap.cells.size) :
    Writes linked s (.store x true) e x v
  | index (hslots : s.stack.slots = .value (.object e) :: (args.map .value ++ rest))
      (hargs : args.length = argc) (hown : s.heap.getOwn? e indexerSet = none)
      (henv : e.index < s.heap.cells.size) :
    Writes linked s (.fetch indexerSet (.callProperty argc)) e (s.heap.propertyKey args)
      (args[1]?.getD .undefined)
  | argument (hslots : s.stack.slots = .value (.function index) :: (args.map .value ++ rest))
      (hargs : args.length = argc) (hentry : linked.program.functions[index]? = some entry)
      (harg : argumentOf x entry.params args = some v) :
    Writes linked s (.call argc bound) ⟨s.heap.cells.size⟩ x v

/-- On the heap after an instruction a name has the value that the instruction wrote; if it wrote
none, the name is kept. -/
structure Binds (linked : Linked) (s : State) (op : Op) (e : EnvId) (x : String) (h : Heap) : Prop where
  written : ∀ v, Writes linked s op e x v → h.getOwn? e x = some v
  kept : (∀ v, ¬ Writes linked s op e x v) → s.heap.Keeps e x h

theorem Binds.ofKeeps {linked : Linked} {s : State} {op : Op} {e : EnvId} {x : String} {h : Heap}
    (hno : ∀ v, ¬ Writes linked s op e x v) (hk : s.heap.Keeps e x h) : Binds linked s op e x h :=
  ⟨fun v hw => absurd hw (hno v), fun _ => hk⟩

/-- a name that a heap binds -/
theorem Heap.lt_size_of_own {h : Heap} {e : EnvId} {x : String} {v : Value}
    (hv : h.getOwn? e x = some v) : e.index < h.cells.size := by
  by_contra hout
  have hnone : h.cell? e = none := Array.getElem?_eq_none (by omega)
  unfold getOwn? at hv
  rw [hnone] at hv
  cases hv

theorem Heap.getOwn?_of_owner {h : Heap} {env e : EnvId} {x : String} (howner : h.owner? env x = some e) :
    ∃ v, h.getOwn? e x = some v := by
  have hhas : h.hasOwn e x = true := List.find?_some (p := fun e => h.hasOwn e x) howner
  exact Option.isSome_iff_exists.mp hhas

namespace Exec

/-! ## steps that write no name -/

/-- the step keeps what a heap binds a name to -/
abbrev Kept {α : Type} (linked : Linked) (h : Heap) (e : EnvId) (x : String) (act : Exec α) : Prop :=
  Leads linked (fun s => h.Keeps e x s.heap) act (fun _ s => h.Keeps e x s.heap) fun _ _ => True

section
variable {α : Type} {linked : Linked} {h : Heap} {e : EnvId} {x : String}

theorem kept_fail (cause : Defect) : Kept linked h e x (fail cause : Exec α) := fun _ _ => trivial

theorem kept_popSlot : Kept linked h e x popSlot := by
  rintro ⟨loc, env, ⟨slots, depth, hdepth⟩, heap, events⟩ hs
  cases slots with
  | nil => trivial
  | cons slot slots => exact hs

theorem kept_pop : Kept linked h e x pop := by
  refine Leads.bind kept_popSlot fun slot => ?_
  cases slot with
  | value v => exact Leads.pure fun s hs => hs
  | _ => exact kept_fail _

theorem kept_popValues (n : Nat) : Kept linked h e x (popValues n) := by
  induction n with
  | zero => exact Leads.pure fun s hs => hs
  | succ n ih =>
    refine Leads.bind kept_pop fun v => Leads.bind ih fun vs => ?_
    exact Leads.pure fun s hs => hs

theorem kept_peek : Kept linked h e x peek := by
  refine Leads.get fun s _ => ?_
  split
  · exact Leads.pure fun s hs => hs
  · exact kept_fail _
  · exact kept_fail _

theorem kept_pushSlot (slot : Slot) : Kept linked h e x (pushSlot slot) := fun _ hs => hs

theorem kept_push (v : Value) : Kept linked h e x (push v) := kept_pushSlot _

theorem kept_pushResult (v : Value) : Kept linked h e x (pushResult v) :=
  Leads.bind (kept_push v) fun _ => kept_pushSlot _

theorem kept_setEnv (env : EnvId) : Kept linked h e x (setEnv env) := fun _ hs => hs

theorem kept_note (event : Event) : Kept linked h e x (note event) := fun _ hs => hs

theorem kept_onHeap {f : Heap → α × Heap} (hf : ∀ h : Heap, h.Keeps e x (f h).2) :
    Kept linked h e x (onHeap f) := fun s hs => hs.trans (hf s.heap)

theorem kept_resolve (l : Label) : Kept linked h e x (resolve l) := by
  refine Leads.read ?_
  split
  · exact Leads.pure fun s hs => hs
  · exact kept_fail _

theorem kept_jump (l : Label) : Kept linked h e x (jump l) :=
  Leads.bind (kept_resolve l) fun _ _ hs => hs

theorem kept_throwValue (v : Value) : Kept linked h e x (throwValue v) := by
  intro s hs
  rw [throwValue_eq]
  cases s.stack.unwindThrow with
  | caught region rest => exact hs
  | reachedHost site callers rest => trivial
  | uncaught callers => trivial

theorem kept_callNative (name : String) (args : List Value) :
    Kept linked h e x (callNative name args) := by
  have hfrom (v : HostValue) : Kept linked h e x (fromHost v) :=
    Leads.read (kept_onHeap (keeps_fromHost linked.program linked.global v))
  refine Leads.read ?_
  split
  · refine Leads.get fun s _ => Leads.bind (kept_note _) fun _ => ?_
    split
    · exact Leads.bind (hfrom _) fun v => Leads.pure fun s hs => hs
    · exact Leads.bind (hfrom _) fun v => Leads.pure fun s hs => hs
  · split
    · refine Leads.get fun s _ => Leads.bind (kept_note _) fun _ => ?_
      exact Leads.pure fun s hs => hs
    · exact Leads.pure fun s hs => hs

theorem kept_either {found : Value → Exec Unit} (hfound : ∀ v, Kept linked h e x (found v))
    (r : Except Value Value) : Kept linked h e x (match r with
      | .ok result => found result
      | .error thrown => throwValue thrown) := by
  cases r with
  | ok v => exact hfound v
  | error v => exact kept_throwValue v

theorem kept_jumpIf (test : Value → Bool) (l : Label) :
    Kept linked h e x (do if test (← pop) then jump l) := by
  refine Leads.bind kept_pop fun v => ?_
  split
  · exact kept_jump l
  · exact Leads.pure fun s hs => hs

theorem kept_loopExit (target : Option Label) : Kept linked h e x (loopExit target) := by
  intro s hs
  rw [loopExit_result]
  rcases s.stack.unwind loopMarker? with _ | ⟨_ | env, rest⟩
  · trivial
  · trivial
  · cases target with
    | none => exact hs
    | some l => exact kept_jump l _ hs

theorem kept_createObject (className : String) : Kept linked h e x (createObject className) := by
  refine Leads.read ?_
  split
  · exact kept_throwValue _
  · rename_i entry _
    -- the object is new, and so are its methods
    intro s hs
    have hnew : s.heap.Keeps e x (s.heap.newObject linked.global).2 := .newEnv _ _
    exact (hs.trans hnew).trans (.defineMethods entry.methods (s.heap.isObject_newObject _))

theorem kept_ret : Kept linked h e x (dispatch .ret) := by
  intro s hs
  rw [dispatch_ret, returnFromCall_eq]
  have hpop : Kept linked h e x pop := kept_pop
  replace hpop := hpop s hs
  cases hr : pop linked s with
  | error error s' => trivial
  | ok v s' =>
    rw [hr] at hpop
    dsimp only
    cases s'.stack.unwind callSite? with
    | none => trivial
    | some found => exact hpop

end

/-! ## steps that may write a name -/

/-- these entries of the stack of `s` are gone, and nothing else has changed that names depend on -/
structure Popped (s : State) (popped : List Slot) (s' : State) : Prop where
  heap : s'.heap = s.heap
  env : s'.env = s.env
  slots : s.stack.slots = popped ++ s'.stack.slots

section
variable {linked : Linked} {s : State} {popped : List Slot} {e : EnvId} {x : String} {op : Op}

theorem Popped.refl (s : State) : Popped s [] s := ⟨rfl, rfl, rfl⟩

theorem popped_popSlot : Leads linked (Popped s popped) popSlot
    (fun slot => Popped s (popped ++ [slot])) fun _ _ => True := by
  rintro ⟨loc, env, ⟨slots, depth, hdepth⟩, heap, events⟩ ⟨hheap, henv, hslots⟩
  cases slots with
  | nil => trivial
  | cons slot slots => exact ⟨hheap, henv, hslots.trans (List.append_cons popped slot slots)⟩

theorem popped_pop : Leads linked (Popped s popped) pop
    (fun v => Popped s (popped ++ [Slot.value v])) fun _ _ => True := by
  refine Leads.bind popped_popSlot fun slot => ?_
  cases slot with
  | value v => exact Leads.pure fun s hs => hs
  | _ => exact fun _ _ => trivial

theorem popped_popValues (n : Nat) : Leads linked (Popped s popped) (popValues n)
    (fun vs s' => vs.length = n ∧ Popped s (popped ++ vs.map .value) s') fun _ _ => True := by
  induction n generalizing popped with
  | zero =>
    refine Leads.pure fun s hs => ⟨rfl, ?_⟩
    rw [List.map_nil, List.append_nil]
    exact hs
  | succ n ih =>
    refine Leads.bind popped_pop fun v => Leads.bind ih fun vs => ?_
    rintro s ⟨hlen, hs⟩
    refine ⟨congrArg (· + 1) hlen, ?_⟩
    rw [List.append_assoc] at hs
    exact hs

theorem Popped.keeps {s' : State} (h : Popped s popped s') : s.heap.Keeps e x s'.heap := by
  rw [h.heap]
  exact .refl

/-- a step behind which the name is kept, if no value was written -/
theorem binds_of_kept {α : Type} {act : Exec α} (hno : ∀ v, ¬ Writes linked s op e x v)
    (hact : Kept linked s.heap e x act) : Leads linked (Popped s popped) act
      (fun _ s' => Binds linked s op e x s'.heap) fun _ _ => True :=
  fun s' hs => Leads.weaken hact (fun _ _ hk => Binds.ofKeeps hno hk) s' hs.keeps

/-! assignments -/

theorem binds_declare (name : String) (s' : State) (hs : Popped s [] s') :
    Binds linked s (.declare name) e x (s'.heap.declare s'.env name) := by
  rw [hs.heap, hs.env]
  constructor
  · rintro v ⟨henv⟩
    exact s.heap.getOwn?_define_self henv x .undefined
  · intro hno
    refine .define ?_
    rintro ⟨rfl, rfl, henv⟩
    exact hno _ (.declare henv)

theorem binds_storeVariable (name : String) {v : Value} {rest : List Slot}
    (hslots : s.stack.slots = .value v :: rest) :
    Binds linked s (.store name false) e x
      (s.heap.define ((s.heap.owner? s.env name).getD linked.global) name v) := by
  constructor
  · intro w hw
    cases hw with
    | assign hslots' howner =>
      cases (List.cons.inj (hslots.symm.trans hslots')).1
      obtain ⟨old, hold⟩ := Heap.getOwn?_of_owner howner
      rw [howner]
      exact s.heap.getOwn?_define_self (Heap.lt_size_of_own hold) x v
    | create hslots' howner henv =>
      cases (List.cons.inj (hslots.symm.trans hslots')).1
      rw [howner]
      exact s.heap.getOwn?_define_self henv x v
  · intro hno
    refine .define ?_
    rintro ⟨hsame, rfl, henv⟩
    cases howner : s.heap.owner? s.env name with
    | some owner =>
      rw [howner] at hsame
      cases hsame
      exact hno v (.assign hslots howner)
    | none =>
      rw [howner] at hsame henv
      cases hsame
      exact hno v (.create hslots howner henv)

theorem binds_storeProperty (name : String) : Leads linked (Popped s []) (storeProperty name)
    (fun _ s' => Binds linked s (.store name true) e x s'.heap) fun _ _ => True := by
  refine Leads.bind popped_pop fun v => Leads.bind popped_pop fun target => ?_
  intro s' hs
  have hno (htarget : ∀ env, target ≠ .object env) (w : Value) :
      ¬ Writes linked s (.store name true) e x w := by
    intro hw
    cases hw with
    | member hslots henv =>
      have hcons := (List.cons.inj (hs.slots.symm.trans hslots)).2
      exact htarget e (Slot.value.inj (List.cons.inj hcons).1)
  cases target with
  | object env =>
    show Binds linked s (.store name true) e x (s'.heap.define env name v)
    rw [hs.heap]
    constructor
    · intro w hw
      cases hw with
      | member hslots henv =>
        have hcons := List.cons.inj (hs.slots.symm.trans hslots)
        cases hcons.1
        cases (List.cons.inj hcons.2).1
        exact s.heap.getOwn?_define_self henv x v
    · intro hno
      refine .define ?_
      rintro ⟨rfl, rfl, henv⟩
      exact hno v (.member hs.slots henv)
  | _ => exact binds_of_kept (hno nofun) (kept_throwValue _) s' hs

/-! calls -/

/-- the arguments on the stack are the ones that were taken from it -/
theorem args_eq {args args' : List Value} {slots rest rest' : List Slot} {n : Nat}
    (hargs : args.length = n) (hargs' : args'.length = n)
    (h : slots = args.map .value ++ rest) (h' : slots = args'.map .value ++ rest') : args = args' := by
  have hlen : (args.map Slot.value).length = (args'.map Slot.value).length := by
    rw [List.length_map, List.length_map, hargs, hargs']
  have hmap := (List.append_inj (h.symm.trans h') hlen).1
  exact List.map_injective_iff.mpr (fun _ _ hv => Slot.value.inj hv) hmap

/-- a function starts in a new scope that binds its parameters -/
theorem binds_enterFunction {index argc : Nat} {args : List Value} {more : List Slot}
    (hargs : args.length = argc)
    (hpopped : popped = .value (.function index) :: (args.map .value ++ more)) (bound : Bool)
    (receiver : Option Value) :
    Leads linked (Popped s popped) (enterFunction index args receiver false)
      (fun _ s' => Binds linked s (.call argc bound) e x s'.heap) fun _ _ => True := by
  intro s' hs
  have hslots := hs.slots
  rw [hpopped, List.cons_append, List.append_assoc] at hslots
  cases hentry : linked.program.functions[index]? with
  | none =>
    rw [enterFunction_none hentry]
    trivial
  | some entry =>
    rw [enterFunction_eq hentry]
    show Binds linked s _ e x (bindParameters ⟨s'.heap.cells.size⟩ entry.params args
      (s'.heap.newScope (calleeParent linked receiver)).2)
    rw [hs.heap]
    generalize calleeParent linked receiver = parent
    have hnew : s.heap.cells.size < (s.heap.newScope parent).2.cells.size :=
      Nat.lt_of_lt_of_eq (Nat.lt_succ_self _) (s.heap.size_newEnv .scope _).symm
    have hown := getOwn?_bindParameters e ⟨s.heap.cells.size⟩ x entry.params args
      (s.heap.newScope parent).2 hnew
    constructor
    · intro v hw
      cases hw with
      | argument hslots' hargs' hentry' harg =>
        have hcons := List.cons.inj (hslots.symm.trans hslots')
        cases hcons.1
        cases hentry.symm.trans hentry'
        rw [args_eq hargs' hargs rfl hcons.2.symm] at harg
        rw [hown, if_pos rfl, harg]
        rfl
    · intro hno
      have hkeeps : s.heap.Keeps e x (s.heap.newScope parent).2 := .newEnv _ _
      refine ⟨fun env henv => ?_, fun _ => ?_⟩
      · rw [isObject_bindParameters]
        exact hkeeps.objects env henv
      · rw [hown]
        split
        · rename_i he
          have hnone : argumentOf x entry.params args = none := by
            rw [Option.eq_none_iff_forall_ne_some]
            intro v harg
            refine hno v ?_
            rw [he]
            exact .argument hslots hargs hentry harg
          rw [hnone, he]
          exact s.heap.getOwn?_newEnv _ _ _ x
        · exact s.heap.getOwn?_newEnv _ _ e x

theorem binds_callValue (argc : Nat) (bound : Bool) : Leads linked (Popped s []) (callValue argc bound)
    (fun _ s' => Binds linked s (.call argc bound) e x s'.heap) fun _ _ => True := by
  refine Leads.bind popped_popSlot fun slot => ?_
  intro s' hs
  have hno (hslot : ∀ index, slot ≠ .value (.function index)) (v : Value) :
      ¬ Writes linked s (.call argc bound) e x v := by
    intro hw
    cases hw with
    | argument hslots _ _ _ => exact hslot _ (List.cons.inj (hs.slots.symm.trans hslots)).1
  cases slot with
  | value callee =>
    cases callee with
    | function index =>
      refine Leads.bind (popped_popValues argc) (fun args => Leads.of_fact fun hargs => ?_) s' hs
      cases bound with
      | false => exact binds_enterFunction hargs (List.append_nil _).symm false none
      | true =>
        refine Leads.bind (Leads.map some popped_pop) fun receiver => ?_
        rintro s'' ⟨_, -, hs'⟩
        exact binds_enterFunction hargs rfl true receiver s'' hs'
    | native name =>
      refine binds_of_kept (hno nofun) (Leads.bind (kept_popValues argc) fun args => ?_) s' hs
      cases bound with
      | false => exact Leads.bind (kept_callNative name args) (kept_either kept_push)
      | true =>
        refine Leads.bind kept_pop fun _ => ?_
        exact Leads.bind (kept_callNative name args) (kept_either kept_push)
    | _ => exact binds_of_kept (hno nofun) (Leads.get fun s _ => kept_throwValue _) s' hs
  | nativeResult =>
    refine binds_of_kept (hno nofun) ?_ s' hs
    cases bound with
    | false => exact Leads.pure fun s hs => hs
    | true => exact Leads.bind kept_pop fun result => Leads.bind kept_pop fun _ => kept_push result
  | _ => trivial

/-! methods -/

/-- what is done with the result of a method of the machine itself -/
theorem kept_immediate (argc : Nat) {h : Heap} {run : List Value → Heap → Except Value Value × Heap}
    (hrun : ∀ (args : List Value) (h : Heap), h.Keeps e x (run args h).2) :
    Kept linked h e x (do
      let args ← popValues argc
      match ← onHeap (run args) with
      | .ok result => pushResult result
      | .error thrown => throwValue thrown) :=
  Leads.bind (kept_popValues argc) fun args =>
    Leads.bind (kept_onHeap (hrun args)) (kept_either kept_pushResult)

/-- an index of an object that has no indexer of its own gets a value -/
theorem binds_setIndex {env : EnvId} {argc : Nat} (hown : s.heap.getOwn? env indexerSet = none) :
    Leads linked (Popped s [.value (.object env)]) (do
      let args ← popValues argc
      let stored : Except Value Value ← onHeap fun heap =>
        (.ok (args[1]?.getD .undefined),
          heap.define env (heap.propertyKey args) (args[1]?.getD .undefined))
      match stored with
      | .ok result => pushResult result
      | .error thrown => throwValue thrown)
      (fun _ s' => Binds linked s (.fetch indexerSet (.callProperty argc)) e x s'.heap)
      fun _ _ => True := by
  refine Leads.bind (popped_popValues argc) fun args => Leads.of_fact fun hargs => ?_
  intro s' hs
  show Binds linked s _ e x
    (s'.heap.define env (s'.heap.propertyKey args) (args[1]?.getD .undefined))
  rw [hs.heap]
  constructor
  · intro v hw
    cases hw with
    | index hslots hargs' _ henv =>
      have hcons := List.cons.inj (hs.slots.symm.trans hslots)
      cases hcons.1
      rw [args_eq hargs hargs' rfl hcons.2]
      exact s.heap.getOwn?_define_self henv _ _
  · intro hno
    refine .define ?_
    rintro ⟨rfl, rfl, henv⟩
    exact hno _ (.index hs.slots hargs hown henv)

theorem binds_fetchMethod (target : Value) (name : String) (argc : Nat) :
    Leads linked (Popped s [.value target]) (fetchMethod target name argc)
      (fun _ s' => Binds linked s (.fetch name (.callProperty argc)) e x s'.heap) fun _ _ => True := by
  intro s' hs
  have hno (hother : ∀ env, name = indexerSet → target = .object env →
      s.heap.getOwn? env indexerSet ≠ none) (v : Value) :
      ¬ Writes linked s (.fetch name (.callProperty argc)) e x v := by
    intro hw
    cases hw with
    | index hslots _ hown _ =>
      exact hother e rfl (Slot.value.inj (List.cons.inj (hs.slots.symm.trans hslots)).1) hown
  unfold fetchMethod
  rw [get_bind, hs.heap]
  cases target with
  | object env =>
    unfold Heap.method
    dsimp only
    cases hown : s.heap.getOwn? env name with
    | some callee =>
      refine binds_of_kept (hno ?_) (kept_push callee) s' hs
      rintro env' rfl ⟨⟩ hnone
      exact Option.some_ne_none callee (hown.symm.trans hnone)
    | none =>
      dsimp only
      by_cases hget : name = indexerGet
      · rw [if_pos hget]
        refine binds_of_kept (hno ?_) (kept_immediate argc fun _ _ => .refl) s' hs
        rintro env' rfl
        exact absurd hget (by decide)
      · rw [if_neg hget]
        by_cases hset : name = indexerSet
        · rw [if_pos hset]
          subst hset
          exact binds_setIndex hown s' hs
        · rw [if_neg hset]
          exact binds_of_kept (hno fun _ hname => absurd hname hset) (kept_throwValue _) s' hs
  | array id =>
    unfold Heap.method
    dsimp only
    cases ArrayMethod.ofName? name with
    | some method =>
      refine binds_of_kept (hno nofun) (kept_immediate argc fun args h => ?_) s' hs
      exact .ofCells (cells_callArray h id method args)
    | none =>
      refine binds_of_kept (hno nofun) (Leads.bind (kept_popValues argc) fun _ => ?_) s' hs
      exact kept_throwValue _
  | string text =>
    unfold Heap.method
    dsimp only
    by_cases hget : name = indexerGet
    · rw [if_pos hget]
      exact binds_of_kept (hno nofun) (kept_immediate argc fun _ _ => .refl) s' hs
    · rw [if_neg hget]
      exact binds_of_kept (hno nofun) (kept_throwValue _) s' hs
  | _ => exact binds_of_kept (hno nofun) (kept_throwValue _) s' hs

theorem binds_fetch (name : String) (access : Access) : Leads linked (Popped s []) (fetch name access)
    (fun _ s' => Binds linked s (.fetch name access) e x s'.heap) fun _ _ => True := by
  refine Leads.read ?_
  match access with
  | .variable =>
    refine binds_of_kept nofun (Leads.get fun s _ => ?_)
    split <;> exact kept_push _
  | .callVariable argc =>
    refine binds_of_kept nofun (Leads.get fun s _ => ?_)
    split
    · exact kept_push _
    · split
      · refine Leads.bind (kept_popValues argc) fun args => ?_
        exact Leads.bind (kept_callNative name args) (kept_either kept_pushResult)
      · exact kept_throwValue _
  | .property =>
    refine binds_of_kept nofun (Leads.bind kept_pop fun target => Leads.get fun s _ => ?_)
    exact kept_either kept_push _
  | .callProperty argc =>
    exact Leads.bind popped_pop fun target => binds_fetchMethod target name argc

/-! ## instructions -/

theorem binds_perform (op : Op) : Leads linked (Popped s []) (perform op)
    (fun _ s' => Binds linked s op e x s'.heap) fun _ _ => True := by
  cases op with
  | declare name => exact fun s' hs => binds_declare name s' hs
  | store name property =>
    cases property with
    | true => exact binds_storeProperty name
    | false =>
      rintro ⟨loc, env, ⟨slots, depth, hdepth⟩, heap, events⟩ ⟨rfl, rfl, hslots⟩
      rcases slots with _ | ⟨slot, rest⟩
      · trivial
      · cases slot with
        | value v => exact binds_storeVariable name hslots
        | _ => trivial
  | fetch name access => exact binds_fetch name access
  | call argc bound => exact binds_callValue argc bound
  | nop | label _ | debugger | halt | ret => exact binds_of_kept nofun (Leads.pure fun s hs => hs)
  | const index =>
    refine binds_of_kept nofun (Leads.read ?_)
    split
    · exact kept_push _
    · exact kept_fail _
  | pop => exact binds_of_kept nofun (Leads.bind kept_pop fun _ => Leads.pure fun s hs => hs)
  | dup => exact binds_of_kept nofun (Leads.bind kept_peek fun v => kept_push v)
  | pick n =>
    refine binds_of_kept nofun (Leads.get fun s _ => ?_)
    split
    · exact kept_push _
    · exact kept_fail _
  | binary op =>
    refine binds_of_kept nofun (Leads.bind kept_pop fun b => Leads.bind kept_pop fun a => ?_)
    exact Leads.get fun s _ => kept_push _
  | neg => exact binds_of_kept nofun (Leads.bind kept_pop fun v => kept_push _)
  | not => exact binds_of_kept nofun (Leads.bind kept_pop fun v => kept_push _)
  | jump l => exact binds_of_kept nofun (kept_jump l)
  | jumpFalse l => exact binds_of_kept nofun (kept_jumpIf (fun v => !v.isTruthy) l)
  | jumpTrue l => exact binds_of_kept nofun (kept_jumpIf Value.isTruthy l)
  | enterScope =>
    refine binds_of_kept nofun (Leads.get fun s _ => ?_)
    exact Leads.bind (kept_onHeap fun h => .newEnv _ _) fun scope => kept_setEnv scope
  | leaveScope =>
    refine binds_of_kept nofun (Leads.get fun s _ => ?_)
    split
    · exact kept_setEnv _
    · exact kept_fail _
  | loopStart => exact binds_of_kept nofun (Leads.get fun s _ => kept_pushSlot _)
  | loopEnd =>
    refine binds_of_kept nofun (Leads.bind kept_popSlot fun slot => ?_)
    cases slot with
    | loopMarker _ => exact Leads.pure fun s hs => hs
    | _ => exact kept_fail _
  | loopExit target => exact binds_of_kept nofun (kept_loopExit target)
  | enterTry l =>
    refine binds_of_kept nofun (Leads.bind (kept_resolve l) fun handler => ?_)
    exact Leads.get fun s _ => kept_pushSlot _
  | leaveTry =>
    refine binds_of_kept nofun (Leads.bind kept_popSlot fun slot => ?_)
    cases slot with
    | tryRegion _ => exact Leads.pure fun s hs => hs
    | _ => exact kept_fail _
  | throw => exact binds_of_kept nofun (Leads.bind kept_pop fun v => kept_throwValue v)
  | createObject className => exact binds_of_kept nofun (kept_createObject className)
  | makeArray size =>
    refine binds_of_kept nofun (Leads.bind (kept_popValues size) fun items => ?_)
    exact Leads.bind (kept_onHeap fun h => .ofCells rfl) fun id => kept_push _

theorem binds_dispatch (op : Op) : Leads linked (Popped s []) (dispatch op)
    (fun _ s' => Binds linked s op e x s'.heap) fun _ _ => True := by
  cases op with
  | ret => exact binds_of_kept nofun kept_ret
  | debugger | halt => exact binds_of_kept nofun (Leads.pure fun s hs => hs)
  | _ => exact Leads.bind (binds_perform _) fun _ => Leads.pure fun s hs => hs

end

end Exec

/-- **A name has the value that was written to it.**  After an instruction a name of an environment has
the value that the instruction has written; if it wrote none and the environment is no object, the name
is bound as it was. -/
theorem binds_execute {linked : Linked} {op : Op} {s s' : State} {signal : Signal}
    (h : execute linked op s = .ok signal s') (e : EnvId) (x : String) :
    Binds linked s op e x s'.heap := by
  have hdispatch : Leads linked (Exec.Popped s []) (Exec.dispatch op)
      (fun _ s' => Binds linked s op e x s'.heap) fun _ _ => True := Exec.binds_dispatch op
  let next : State := { s with location := ⟨s.location.sectionIndex, s.location.pc + 1⟩ }
  have hrun : Exec.dispatch op linked next = .ok signal s' := h
  have hend := hdispatch next ⟨rfl, rfl, rfl⟩
  rw [hrun] at hend
  exact hend

end ScriptMachine
