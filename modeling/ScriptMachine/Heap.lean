import Std.Data.TreeMap
import ScriptMachine.Value

/-!
# The heap: environments and arrays

An environment binds names to values and may have a parent, which is older than itself.  Lexical
scopes and the state of objects are both environments.

* `Heap`: all environments and arrays that were ever made; an environment's parent stands before it;
* `Heap.chain`: an environment and its ancestors, the nearest first;
* `Heap.owner?`: the nearest environment of a chain that binds a name;
* `Heap.lookup?`, `Heap.assign?`: reading and writing at the owner.
-/

namespace ScriptMachine

/-- is it a lexical scope or the state of an object? -/
inductive EnvKind where
  | scope
  | object
  deriving DecidableEq, Repr

structure EnvCell where
  kind : EnvKind
  parent : Option EnvId
  bindings : Std.TreeMap String Value

structure Heap where
  cells : Array EnvCell
  arrays : Array (Array Value)
  /-- a parent is older than its child -/
  parent_lt : ∀ (i : Nat) (h : i < cells.size) (p : EnvId), cells[i].parent = some p → p.index < i

namespace Heap

def empty : Heap := ⟨#[], #[], fun i h => absurd h (by simp)⟩

instance : Inhabited Heap := ⟨empty⟩

/-! ## environments -/

/-- A new environment without bindings.  Only an environment that exists can be its parent. -/
def newEnv (heap : Heap) (kind : EnvKind) (parent : Option EnvId) : EnvId × Heap :=
  let id : EnvId := ⟨heap.cells.size⟩
  let parent := parent.filter fun p => p.index < id.index
  (id,
    { heap with
      cells := heap.cells.push ⟨kind, parent, ∅⟩
      parent_lt := by
        intro i h p hp
        rw [Array.getElem_push] at hp
        split at hp
        · exact heap.parent_lt i _ p hp
        · simp only [parent, id, Option.filter_eq_some_iff, decide_eq_true_eq] at hp
          omega })

/-- a new root -/
def newGlobal (heap : Heap) : EnvId × Heap := heap.newEnv .scope none

/-- a new lexical scope inside `parent` -/
def newScope (heap : Heap) (parent : EnvId) : EnvId × Heap := heap.newEnv .scope (some parent)

/-- a new object whose names continue in `parent` -/
def newObject (heap : Heap) (parent : EnvId) : EnvId × Heap := heap.newEnv .object (some parent)

def cell? (heap : Heap) (env : EnvId) : Option EnvCell := heap.cells[env.index]?

def parent? (heap : Heap) (env : EnvId) : Option EnvId := (heap.cell? env).bind EnvCell.parent

def kind (heap : Heap) (env : EnvId) : EnvKind := ((heap.cell? env).map EnvCell.kind).getD .scope

def isObject (heap : Heap) (env : EnvId) : Bool := heap.kind env = .object

/-- binds a name in an environment, anew or again -/
def define (heap : Heap) (env : EnvId) (name : String) (value : Value) : Heap :=
  { heap with
    cells := heap.cells.modify env.index fun cell =>
      { cell with bindings := cell.bindings.insert name value }
    parent_lt := by
      intro i h p hp
      rw [Array.getElem_modify] at hp
      have h' : i < heap.cells.size := by simpa using h
      refine heap.parent_lt i h' p ?_
      split at hp <;> exact hp }

/-- binds a name to `undefined` -/
def declare (heap : Heap) (env : EnvId) (name : String) : Heap := heap.define env name .undefined

/-- the value of a name in this very environment -/
def getOwn? (heap : Heap) (env : EnvId) (name : String) : Option Value :=
  (heap.cell? env).bind fun cell => cell.bindings[name]?

def hasOwn (heap : Heap) (env : EnvId) (name : String) : Bool := (heap.getOwn? env name).isSome

theorem cell?_define (heap : Heap) (env e : EnvId) (name : String) (value : Value) :
    (heap.define env name value).cell? e
      = if e = env then (heap.cell? e).map fun cell =>
          { cell with bindings := cell.bindings.insert name value }
        else heap.cell? e := by
  show (heap.cells.modify env.index _)[e.index]? = _
  rw [Array.getElem?_modify]
  by_cases h : e = env
  · rw [if_pos h, if_pos (h ▸ rfl)]
    rfl
  · have hne : ¬ env.index = e.index := by
      intro hi
      apply h
      cases e
      cases env
      exact congrArg EnvId.mk hi.symm
    rw [if_neg h, if_neg hne]
    rfl

/-- a binding in an environment that exists is what is then found there, and nothing else changes -/
theorem getOwn?_define (heap : Heap) (env e : EnvId) (n name : String) (value : Value) :
    (heap.define env name value).getOwn? e n
      = if e = env ∧ n = name then (heap.cell? env).map fun _ => value else heap.getOwn? e n := by
  unfold getOwn?
  rw [cell?_define]
  by_cases he : e = env
  · subst he
    rw [if_pos rfl]
    by_cases hn : n = name
    · subst hn
      rw [if_pos ⟨rfl, rfl⟩]
      cases heap.cell? e with
      | none => rfl
      | some cell => simp
    · rw [if_neg fun h => hn h.2]
      cases heap.cell? e with
      | none => rfl
      | some cell =>
        show (cell.bindings.insert name value)[n]? = cell.bindings[n]?
        rw [Std.TreeMap.getElem?_insert, if_neg]
        intro h
        exact hn (Std.LawfulEqOrd.eq_of_compare h).symm
  · rw [if_neg he, if_neg fun h => he h.1]

/-- the bindings of this very environment in the order of their names -/
def ownBindings (heap : Heap) (env : EnvId) : List (String × Value) :=
  ((heap.cell? env).map fun cell => cell.bindings.toList).getD []

/-! ## chains of environments -/

theorem parent?_lt (heap : Heap) {env p : EnvId} (h : heap.parent? env = some p) :
    p.index < env.index := by
  unfold parent? cell? at h
  obtain ⟨cell, hcell, hp⟩ := Option.bind_eq_some_iff.mp h
  obtain ⟨hi, rfl⟩ := Array.getElem?_eq_some_iff.mp hcell
  exact heap.parent_lt env.index hi p hp

/-- an environment and its ancestors, the nearest first -/
def chain (heap : Heap) (env : EnvId) : List EnvId :=
  match _h : heap.parent? env with
  | none => [env]
  | some parent => env :: heap.chain parent
termination_by env.index
decreasing_by exact heap.parent?_lt _h

@[simp] theorem parent?_define (heap : Heap) (env e : EnvId) (name : String) (value : Value) :
    (heap.define env name value).parent? e = heap.parent? e := by
  unfold parent?
  rw [cell?_define]
  by_cases h : e = env
  · rw [if_pos h]
    cases heap.cell? e <;> rfl
  · rw [if_neg h]

@[simp] theorem kind_define (heap : Heap) (env e : EnvId) (name : String) (value : Value) :
    (heap.define env name value).kind e = heap.kind e := by
  unfold kind
  rw [cell?_define]
  by_cases h : e = env
  · rw [if_pos h]
    cases heap.cell? e <;> rfl
  · rw [if_neg h]

/-- a chain is an environment and the chain of its parent -/
theorem chain_eq (heap : Heap) (env : EnvId) :
    heap.chain env = env :: ((heap.parent? env).map heap.chain).getD [] := by
  rw [chain]
  split <;> rename_i h <;> rw [h] <;> rfl

/-- new bindings leave the chains as they are -/
@[simp] theorem chain_define (heap : Heap) (env e : EnvId) (name : String) (value : Value) :
    (heap.define env name value).chain e = heap.chain e := by
  induction h : e.index using Nat.strongRecOn generalizing e with
  | ind n ih =>
    rw [chain_eq, chain_eq, parent?_define]
    cases hp : heap.parent? e with
    | none => rfl
    | some p =>
      show e :: (heap.define env name value).chain p = e :: heap.chain p
      rw [ih p.index (h ▸ heap.parent?_lt hp) p rfl]

/-- the number of environments from this one to its root -/
def depth (heap : Heap) (env : EnvId) : Nat := (heap.chain env).length

/-- the nearest environment that binds a name -/
def owner? (heap : Heap) (env : EnvId) (name : String) : Option EnvId :=
  (heap.chain env).find? fun e => heap.hasOwn e name

def lookup? (heap : Heap) (env : EnvId) (name : String) : Option Value :=
  (heap.owner? env name).bind fun e => heap.getOwn? e name

/-- gives a name that is bound somewhere a new value, at its nearest owner -/
def assign? (heap : Heap) (env : EnvId) (name : String) (value : Value) : Option Heap :=
  (heap.owner? env name).map fun e => heap.define e name value

/-- the nearest object, which is what `this` means -/
def thisObject? (heap : Heap) (env : EnvId) : Option EnvId := (heap.chain env).find? heap.isObject

/-! ## arrays -/

def newArray (heap : Heap) (items : Array Value) : ArrayId × Heap :=
  (⟨heap.arrays.size⟩, { heap with arrays := heap.arrays.push items })

def items (heap : Heap) (id : ArrayId) : Array Value := heap.arrays[id.index]?.getD #[]

/-- changes the items of an array -/
def modifyItems (heap : Heap) (id : ArrayId) (f : Array Value → Array Value) : Heap :=
  { heap with arrays := heap.arrays.modify id.index f }

end Heap

end ScriptMachine
