import ScriptMachine.HostValue.Convert
import ScriptMachine.Proofs.Meaning.Names

/-!
# There and back across the border

Data of the host become a value on the heap and then data again.  What comes back is what went in, with
all that lies inside more than 32 arrays and objects cut off.  The value uses new environments and
arrays only, and whatever is made after it leaves those as they are.

* `HostValue.Ordered`    the fields of objects are in the order of their names, each name once;
* `HostValue.nesting`    how many arrays and objects are around the part that lies deepest;
* `HostValue.within`     the data down to a level, with `undefined` below;
* `Heap.Spares`          what a later heap has in common with an earlier one;
* `Program.Listed`       the names of the functions are those in the function table;
* `toHostWithin_fromHost`   what was made comes back, on any later heap;
* `toHost_fromHost`      the main statement.
-/

namespace ScriptMachine

/-! ## data of the host -/

namespace HostValue

mutual

/-- the fields of every object are in the order of their names, each name once -/
def Ordered : HostValue → Prop
  | array items => AllOrdered items
  | object fields => FieldsOrdered fields
  | _ => True

def AllOrdered : List HostValue → Prop
  | [] => True
  | item :: rest => item.Ordered ∧ AllOrdered rest

def FieldsOrdered : List (String × HostValue) → Prop
  | [] => True
  | (name, field) :: rest =>
    (∀ other ∈ rest, compare name other.1 = .lt) ∧ field.Ordered ∧ FieldsOrdered rest

end

mutual

/-- how many arrays and objects are around the part of the data that lies deepest -/
def nesting : HostValue → Nat
  | array items => nestingAll items
  | object fields => nestingFields fields
  | _ => 0

def nestingAll : List HostValue → Nat
  | [] => 0
  | item :: rest => max (item.nesting + 1) (nestingAll rest)

def nestingFields : List (String × HostValue) → Nat
  | [] => 0
  | (_, field) :: rest => max (field.nesting + 1) (nestingFields rest)

end

/-- the data with so many levels, and `undefined` for whatever lies below them -/
def within : Nat → HostValue → HostValue
  | 0, _ => undefined
  | levels + 1, array items => array (items.map (within levels))
  | levels + 1, object fields =>
    object (fields.map fun field => (field.1, within levels field.2))
  | _ + 1, data => data

mutual

/-- nothing is cut off if there are enough levels -/
theorem within_of_nesting {levels : Nat} {data : HostValue} (h : data.nesting ≤ levels) :
    data.within (levels + 1) = data := by
  match data with
  | undefined | null | bool _ | number _ | string _ | function _ => rfl
  | array items => rw [within, withinAll_of_nesting h]
  | object fields => rw [within, withinFields_of_nesting h]

theorem withinAll_of_nesting {levels : Nat} {items : List HostValue}
    (h : nestingAll items ≤ levels) : items.map (within levels) = items := by
  match items, h with
  | [], _ => rfl
  | item :: rest, h =>
    obtain ⟨hitem, hrest⟩ := Nat.max_le.mp h
    obtain ⟨levels, rfl⟩ : ∃ l, levels = l + 1 := ⟨levels - 1, by omega⟩
    rw [List.map_cons, within_of_nesting (Nat.le_of_succ_le_succ hitem), withinAll_of_nesting hrest]

theorem withinFields_of_nesting {levels : Nat} {fields : List (String × HostValue)}
    (h : nestingFields fields ≤ levels) :
    fields.map (fun field => (field.1, within levels field.2)) = fields := by
  match fields, h with
  | [], _ => rfl
  | (name, field) :: rest, h =>
    obtain ⟨hfield, hrest⟩ := Nat.max_le.mp h
    obtain ⟨levels, rfl⟩ : ∃ l, levels = l + 1 := ⟨levels - 1, by omega⟩
    rw [List.map_cons, within_of_nesting (Nat.le_of_succ_le_succ hfield),
      withinFields_of_nesting hrest]

end

theorem nestingAll_le {n : Nat} {items : List HostValue} (h : ∀ item ∈ items, item.nesting ≤ n) :
    nestingAll items ≤ n + 1 := by
  induction items with
  | nil => exact Nat.zero_le _
  | cons item rest ih =>
    obtain ⟨hitem, hrest⟩ := List.forall_mem_cons.mp h
    exact Nat.max_le.mpr ⟨Nat.succ_le_succ hitem, ih hrest⟩

theorem nestingFields_le {n : Nat} {fields : List (String × HostValue)}
    (h : ∀ field ∈ fields, field.2.nesting ≤ n) : nestingFields fields ≤ n + 1 := by
  induction fields with
  | nil => exact Nat.zero_le _
  | cons field rest ih =>
    obtain ⟨hfield, hrest⟩ := List.forall_mem_cons.mp h
    exact Nat.max_le.mpr ⟨Nat.succ_le_succ hfield, ih hrest⟩

theorem allOrdered_of_forall {items : List HostValue} (h : ∀ item ∈ items, item.Ordered) :
    AllOrdered items := by
  induction items with
  | nil => trivial
  | cons item rest ih =>
    obtain ⟨hitem, hrest⟩ := List.forall_mem_cons.mp h
    exact ⟨hitem, ih hrest⟩

theorem fieldsOrdered_of_forall {fields : List (String × HostValue)}
    (hsorted : fields.Pairwise fun a b => compare a.1 b.1 = .lt)
    (h : ∀ field ∈ fields, field.2.Ordered) : FieldsOrdered fields := by
  induction fields with
  | nil => trivial
  | cons field rest ih =>
    obtain ⟨hfirst, hsorted⟩ := List.pairwise_cons.mp hsorted
    obtain ⟨hfield, hrest⟩ := List.forall_mem_cons.mp h
    exact ⟨hfirst, hfield, ih hsorted hrest⟩

end HostValue

/-! ## the data of a value -/

namespace Program

section
variable (program : Program) (heap : Heap)

theorem ownBindings_sorted (env : EnvId) :
    (heap.ownBindings env).Pairwise fun a b => compare a.1 b.1 = .lt := by
  unfold Heap.ownBindings
  cases heap.cell? env with
  | none => exact .nil
  | some cell => exact Std.TreeMap.ordered_keys_toList

/-- the data of a value are in order, and no deeper than the levels they may have -/
theorem toHostWithin_ordered (levels : Nat) (v : Value) :
    (program.toHostWithin heap levels v).Ordered
      ∧ (program.toHostWithin heap levels v).nesting ≤ levels
      ∧ (program.toHostWithin heap levels v).within levels = program.toHostWithin heap levels v := by
  induction levels generalizing v with
  | zero => exact ⟨trivial, Nat.zero_le _, rfl⟩
  | succ levels ih =>
    cases v with
    | array id =>
      rw [toHostWithin]
      refine ⟨HostValue.allOrdered_of_forall ?_, HostValue.nestingAll_le ?_, ?_⟩
      · intro item hitem
        obtain ⟨v, -, rfl⟩ := List.mem_map.mp hitem
        exact (ih v).1
      · intro item hitem
        obtain ⟨v, -, rfl⟩ := List.mem_map.mp hitem
        exact (ih v).2.1
      · rw [HostValue.within, List.map_map]
        congr 1
        exact List.map_congr_left fun v _ => (ih v).2.2
    | object env =>
      rw [toHostWithin]
      refine ⟨HostValue.fieldsOrdered_of_forall ?_ ?_, HostValue.nestingFields_le ?_, ?_⟩
      · exact List.pairwise_map.mpr (ownBindings_sorted heap env)
      · intro field hfield
        obtain ⟨b, -, rfl⟩ := List.mem_map.mp hfield
        exact (ih b.2).1
      · intro field hfield
        obtain ⟨b, -, rfl⟩ := List.mem_map.mp hfield
        exact (ih b.2).2.1
      · rw [HostValue.within, List.map_map]
        congr 1
        exact List.map_congr_left fun b _ => congrArg (Prod.mk b.1) (ih b.2).2.2
    | _ => exact ⟨trivial, Nat.zero_le _, rfl⟩

end

end Program

/-! ## heaps that were left as they are -/

/-- The later heap has all environments of the earlier one that are among `same`, as they were, and all
its arrays. -/
structure Heap.Spares (same : EnvId → Prop) (h h' : Heap) : Prop where
  size : h.cells.size ≤ h'.cells.size
  cell : ∀ e, same e → e.index < h.cells.size → h'.cell? e = h.cell? e
  arrays : h.arrays.size ≤ h'.arrays.size
  items : ∀ id : ArrayId, id.index < h.arrays.size → h'.items id = h.items id

namespace Heap.Spares

variable {same same' : EnvId → Prop} {h h₁ h₂ : Heap} {env : EnvId}

theorem refl : Spares same h h := ⟨Nat.le_refl _, fun _ _ _ => rfl, Nat.le_refl _, fun _ _ => rfl⟩

theorem trans (k : Spares same h h₁) (k' : Spares same' h₁ h₂)
    (hle : ∀ e, same e → e.index < h.cells.size → same' e) : Spares same h h₂ where
  size := Nat.le_trans k.size k'.size
  cell e he hsize :=
    (k'.cell e (hle e he hsize) (Nat.lt_of_lt_of_le hsize k.size)).trans (k.cell e he hsize)
  arrays := Nat.le_trans k.arrays k'.arrays
  items id hid := (k'.items id (Nat.lt_of_lt_of_le hid k.arrays)).trans (k.items id hid)

theorem weaken (k : Spares same h h₁) (hle : ∀ e, same' e → same e) : Spares same' h h₁ :=
  ⟨k.size, fun e he => k.cell e (hle e he), k.arrays, k.items⟩

theorem newEnv (kind : EnvKind) (parent : Option EnvId) : Spares same h (h.newEnv kind parent).2 where
  size := by
    rw [size_newEnv]
    exact Nat.le_succ _
  cell e _ he := by
    rw [cell?_newEnv, if_neg (Nat.ne_of_lt he)]
  arrays := Nat.le_refl _
  items _ _ := rfl

theorem newArray (items : Array Value) : Spares same h (h.newArray items).2 where
  size := Nat.le_refl _
  cell _ _ _ := rfl
  arrays := by
    show h.arrays.size ≤ (h.arrays.push items).size
    rw [Array.size_push]
    exact Nat.le_succ _
  items id hid := by
    show (h.arrays.push items)[id.index]?.getD #[] = h.arrays[id.index]?.getD #[]
    rw [Array.getElem?_push, if_neg (Nat.ne_of_lt hid)]

theorem define (name : String) (v : Value) (henv : ¬ same env) :
    Spares same h (h.define env name v) where
  size := by
    rw [size_define]
  cell e he _ := by
    have hne : e ≠ env := fun heq => henv (heq ▸ he)
    rw [cell?_define, if_neg hne]
  arrays := Nat.le_refl _
  items _ _ := rfl

end Heap.Spares

/-! ## values of host data -/

theorem toList_insert_last {t : Std.TreeMap String Value} {name : String} {v : Value}
    (hlast : ∀ b ∈ t.toList, compare b.1 name = .lt) :
    (t.insert name v).toList = t.toList ++ [(name, v)] := by
  have hfilter : t.toList.filter (fun b => ¬ name == b.1) = t.toList := by
    refine List.filter_eq_self.mpr fun b hb => ?_
    have hne : name ≠ b.1 := by
      rintro rfl
      have hlt := hlast b hb
      rw [Std.ReflOrd.compare_self] at hlt
      cases hlt
    simpa using hne
  have hperm : (t.insert name v).toList.Perm ((name, v) :: t.toList) := by
    have h := @Std.TreeMap.toList_insert_perm _ _ _ t _ _ _ name v
    rwa [hfilter] at h
  refine @List.Perm.eq_of_pairwise _ (fun a b => compare a.1 b.1 = .lt) _ _ ?_
    Std.TreeMap.ordered_keys_toList ?_ (hperm.trans (List.perm_append_singleton _ _).symm)
  · intro a b _ _ hab hba
    rw [Std.OrientedOrd.eq_swap, hba] at hab
    cases hab
  · refine List.pairwise_append.mpr ⟨Std.TreeMap.ordered_keys_toList, List.pairwise_singleton _ _, ?_⟩
    intro a ha b hb
    rw [List.mem_singleton.mp hb]
    exact hlast a ha

/-- a binding behind all others -/
theorem Heap.ownBindings_define_last {h : Heap} {env : EnvId} {name : String} {v : Value}
    (henv : env.index < h.cells.size) (hlast : ∀ b ∈ h.ownBindings env, compare b.1 name = .lt) :
    (h.define env name v).ownBindings env = h.ownBindings env ++ [(name, v)] := by
  have hcell : h.cell? env = some h.cells[env.index] := Array.getElem?_eq_getElem henv
  unfold ownBindings at hlast ⊢
  rw [cell?_define, if_pos rfl]
  rw [hcell] at hlast ⊢
  exact toList_insert_last hlast

section
variable (program : Program) (global : EnvId)

mutual

/-- host data make new environments and arrays only -/
theorem spares_fromHost (same : EnvId → Prop) (data : HostValue) (h : Heap) :
    h.Spares same (program.fromHost global data h).2 := by
  match data with
  | .undefined | .null | .bool _ | .number _ | .string _ =>
    rw [Program.fromHost]
    exact .refl
  | .array items =>
    rw [Program.fromHost]
    exact (spares_fromHostAll same items h).trans (.newArray _) fun _ he _ => he
  | .object fields =>
    rw [Program.fromHost]
    have hnew : h.Spares same (h.newObject global).2 := .newEnv _ _
    refine hnew.trans (spares_defineFields (h.newObject global).1 fields _) fun e _ he heq => ?_
    rw [heq] at he
    exact Nat.lt_irrefl _ he
  | .function name =>
    rw [Program.fromHost]
    cases program.functionIndex? name with
    | some i => exact .refl
    | none => exact .refl

theorem spares_fromHostAll (same : EnvId → Prop) (items : List HostValue) (h : Heap) :
    h.Spares same (program.fromHostAll global items h).2 := by
  match items with
  | [] =>
    rw [Program.fromHostAll]
    exact .refl
  | item :: rest =>
    rw [Program.fromHostAll]
    exact (spares_fromHost same item h).trans (spares_fromHostAll same rest _) fun _ he _ => he

/-- giving an object its fields changes that object only -/
theorem spares_defineFields (env : EnvId) (fields : List (String × HostValue)) (h : Heap) :
    h.Spares (· ≠ env) (program.defineFields global env fields h) := by
  match fields with
  | [] =>
    rw [Program.defineFields]
    exact .refl
  | (name, field) :: rest =>
    rw [Program.defineFields]
    have hfield : h.Spares (· ≠ env) (program.fromHost global field h).2 := spares_fromHost _ field h
    have hdefined := hfield.trans (.define name (program.fromHost global field h).1 (· rfl))
      fun _ he _ => he
    exact hdefined.trans (spares_defineFields env rest _) fun _ he _ => he

end

theorem items_newArray (h : Heap) (items : Array Value) :
    (h.newArray items).1.index < (h.newArray items).2.arrays.size
      ∧ (h.newArray items).2.items (h.newArray items).1 = items := by
  constructor
  · show h.arrays.size < (h.arrays.push items).size
    rw [Array.size_push]
    exact Nat.lt_succ_self _
  · show (h.arrays.push items)[h.arrays.size]?.getD #[] = items
    rw [Array.getElem?_push_size]
    rfl

theorem ownBindings_newObject (h : Heap) (parent : EnvId) :
    (h.newObject parent).2.ownBindings (h.newObject parent).1 = [] := by
  have hcell := h.cell?_newEnv .object (some parent) (h.newObject parent).1
  rw [if_pos (show (h.newObject parent).1.index = h.cells.size from rfl)] at hcell
  show ((((h.newEnv .object (some parent)).2.cell? (h.newObject parent).1).map _).getD []) = []
  rw [hcell]
  rfl

theorem ownBindings_congr {h h' : Heap} {env : EnvId} (hcell : h'.cell? env = h.cell? env) :
    h'.ownBindings env = h.ownBindings env := by
  unfold Heap.ownBindings
  rw [hcell]

/-- the names of the functions are those in the function table -/
def Program.Listed (program : Program) : Prop :=
  program.functionNames = (program.functions.map FunctionEntry.name).toList

theorem functionName_of_index (hlisted : program.Listed) {name : String} {i : Nat}
    (h : program.functionIndex? name = some i) : program.functionName i = name := by
  obtain ⟨hname, -⟩ := Program.lastIndex?_eq_some_iff.mp h
  rw [hlisted, Array.getElem?_toList, Array.getElem?_map] at hname
  unfold Program.functionName
  rw [hname]
  rfl

mutual

/-- What was made of host data comes back down to any level, on every later heap that leaves what is new
as it is. -/
theorem toHostWithin_fromHost (hlisted : program.Listed) (data : HostValue) (hdata : data.Ordered)
    (h h' : Heap)
    (hlater : (program.fromHost global data h).2.Spares (h.cells.size ≤ ·.index) h') (levels : Nat) :
    program.toHostWithin h' levels (program.fromHost global data h).1 = data.within levels := by
  cases levels with
  | zero => rfl
  | succ levels =>
    match data, hdata, hlater with
    | .undefined, _, _ | .null, _, _ | .bool _, _, _ | .number _, _, _ | .string _, _, _ =>
      rw [Program.fromHost]
      rfl
    | .array items, hdata, hlater =>
      rw [Program.fromHost] at hlater ⊢
      obtain ⟨hid, hmade⟩ := items_newArray (program.fromHostAll global items h).2
        (program.fromHostAll global items h).1.toArray
      have hall := map_toHostWithin_fromHostAll hlisted items hdata h h'
        ((Heap.Spares.newArray _).trans hlater fun _ he _ => he) levels
      show HostValue.array ((h'.items _).toList.map (program.toHostWithin h' levels)) = _
      rw [hlater.items _ hid, hmade, hall]
      rfl
    | .object fields, hdata, hlater =>
      rw [Program.fromHost] at hlater ⊢
      have henv : (h.newObject global).1.index < (h.newObject global).2.cells.size :=
        (h.size_newEnv .object (some global)).symm ▸ Nat.lt_succ_self _
      obtain ⟨made, hown, hmap⟩ := map_toHostWithin_defineFields hlisted (h.newObject global).1 fields
        hdata _ henv (ownBindings_newObject h global ▸ nofun)
      rw [ownBindings_newObject, List.nil_append] at hown
      have hsize := (spares_defineFields program global (h.newObject global).1 fields
        (h.newObject global).2).size
      have hcell := hlater.cell (h.newObject global).1 (Nat.le_refl _) (Nat.lt_of_lt_of_le henv hsize)
      show HostValue.object ((h'.ownBindings _).map _) = _
      rw [ownBindings_congr hcell, hown]
      refine congrArg HostValue.object (hmap h' (hlater.weaken fun e he => ?_) levels)
      exact Nat.le_of_lt he
    | .function name, _, _ =>
      rw [Program.fromHost]
      cases hindex : program.functionIndex? name with
      | some i => exact congrArg HostValue.function (functionName_of_index program hlisted hindex)
      | none => rfl

theorem map_toHostWithin_fromHostAll (hlisted : program.Listed) (items : List HostValue)
    (hitems : HostValue.AllOrdered items) (h h' : Heap)
    (hlater : (program.fromHostAll global items h).2.Spares (h.cells.size ≤ ·.index) h')
    (levels : Nat) :
    (program.fromHostAll global items h).1.map (program.toHostWithin h' levels)
      = items.map (HostValue.within levels) := by
  match items, hitems, hlater with
  | [], _, _ =>
    rw [Program.fromHostAll]
    rfl
  | item :: rest, ⟨hitem, hrest⟩, hlater =>
    rw [Program.fromHostAll] at hlater ⊢
    have hfirst := toHostWithin_fromHost hlisted item hitem h h'
      ((spares_fromHostAll program global _ rest _).trans hlater fun _ he _ => he) levels
    have hsize := (spares_fromHost program global (fun _ => True) item h).size
    have hmore := map_toHostWithin_fromHostAll hlisted rest hrest _ h'
      (hlater.weaken fun _ he => Nat.le_trans hsize he) levels
    show _ :: _ = _
    rw [List.map_cons, hfirst, hmore]

/-- an object gets its fields behind those that it has -/
theorem map_toHostWithin_defineFields (hlisted : program.Listed) (env : EnvId)
    (fields : List (String × HostValue)) (hfields : HostValue.FieldsOrdered fields) (h : Heap)
    (henv : env.index < h.cells.size)
    (hbelow : ∀ b ∈ h.ownBindings env, ∀ field ∈ fields, compare b.1 field.1 = .lt) :
    ∃ made, (program.defineFields global env fields h).ownBindings env = h.ownBindings env ++ made
      ∧ ∀ h', (program.defineFields global env fields h).Spares (env.index < ·.index) h' →
        ∀ levels, made.map (fun b => (b.1, program.toHostWithin h' levels b.2))
          = fields.map fun field => (field.1, field.2.within levels) := by
  match fields, hfields with
  | [], _ =>
    rw [Program.defineFields]
    exact ⟨[], (List.append_nil _).symm, fun _ _ _ => rfl⟩
  | (name, field) :: rest, ⟨hfirst, hfield, hrest⟩ =>
    rw [Program.defineFields]
    have hkept := spares_fromHost program global (fun _ => True) field h
    have hvalue := toHostWithin_fromHost hlisted field hfield h
    generalize program.fromHost global field h = made at hkept hvalue ⊢
    obtain ⟨value, h₁⟩ := made
    have henv₁ : env.index < h₁.cells.size := Nat.lt_of_lt_of_le henv hkept.size
    have hown₁ : h₁.ownBindings env = h.ownBindings env :=
      ownBindings_congr (hkept.cell env trivial henv)
    have hown₂ : (h₁.define env name value).ownBindings env = h.ownBindings env ++ [(name, value)] := by
      rw [Heap.ownBindings_define_last henv₁ fun b hb => hbelow b (hown₁ ▸ hb) _ (.head _), hown₁]
    have hbelow₂ : ∀ b ∈ (h₁.define env name value).ownBindings env, ∀ other ∈ rest,
        compare b.1 other.1 = .lt := by
      intro b hb other hother
      rw [hown₂] at hb
      rcases List.mem_append.mp hb with hb | hb
      · exact hbelow b hb other (.tail _ hother)
      · rw [List.mem_singleton.mp hb]
        exact hfirst other hother
    obtain ⟨made, hown, hmap⟩ := map_toHostWithin_defineFields hlisted env rest hrest
      (h₁.define env name value) ((h₁.size_define env name value).symm ▸ henv₁) hbelow₂
    refine ⟨(name, value) :: made, ?_, fun h' hlater levels => ?_⟩
    · show (program.defineFields global env rest _).ownBindings env = _
      rw [hown, hown₂, List.append_assoc]
      rfl
    · have hdefined : h₁.Spares (h.cells.size ≤ ·.index) (h₁.define env name value) :=
        .define name value (Nat.not_le.mpr henv)
      have hothers := hdefined.trans (spares_defineFields program global env rest _)
        fun e he _ heq => Nat.not_le.mpr henv (heq ▸ he)
      have hspares := hothers.trans hlater fun e he _ => Nat.lt_of_lt_of_le henv he
      rw [List.map_cons, List.map_cons, hvalue h' hspares levels, hmap h' hlater levels]

end

end

/-! ## programs -/

theorem listed_of_compileProgram {body : List Stmt} {source : Source} {program : Program}
    (h : compileProgram body source = .ok program) : program.Listed := by
  obtain ⟨code, b, -, rfl⟩ := compileProgram_run h
  show (b.functions.map FunctionCode.name).toList = ((b.functions.mapIdx _).map FunctionEntry.name).toList
  refine congrArg Array.toList (Array.ext (by simp) fun i hi hi' => ?_)
  simp

/-- **Data of the host survive the way to a program and back.**  Whatever the heap and the global
environment, what comes back are the data with all parts cut off that lie inside more than 32 arrays and
objects, and so the same data if there are none.  The names of functions come back as well, those of the
program and others.  Data that came from a value, which may lie on a cycle, have no such parts but
`undefined`, and come back as they are. -/
theorem toHost_fromHost {body : List Stmt} {source : Source} {program : Program}
    (h : compileProgram body source = .ok program) (global : EnvId) :
    (∀ (data : HostValue) (heap : Heap), data.Ordered →
      program.toHost (program.fromHost global data heap).2 (program.fromHost global data heap).1
          = data.within 33
        ∧ (data.nesting ≤ 32 → program.toHost (program.fromHost global data heap).2
          (program.fromHost global data heap).1 = data))
      ∧ ∀ (v : Value) (heap heap' : Heap), (program.toHost heap v).nesting ≤ 33
        ∧ program.toHost (program.fromHost global (program.toHost heap v) heap').2
          (program.fromHost global (program.toHost heap v) heap').1 = program.toHost heap v := by
  have hback (data : HostValue) (heap : Heap) (hdata : data.Ordered) :
      program.toHost (program.fromHost global data heap).2 (program.fromHost global data heap).1
        = data.within 33 :=
    toHostWithin_fromHost program global (listed_of_compileProgram h) data hdata heap _ .refl 33
  refine ⟨fun data heap hdata => ⟨hback data heap hdata, fun hnesting => ?_⟩, fun v heap heap' => ?_⟩
  · rw [hback data heap hdata]
    exact HostValue.within_of_nesting hnesting
  · obtain ⟨hordered, hnesting, hwithin⟩ := program.toHostWithin_ordered heap 33 v
    exact ⟨hnesting, (hback _ heap' hordered).trans hwithin⟩

/-- a function of the program and one of the host in an array, and an object that is its own field -/
theorem toHost_fromHost_itself :
    ∃ program data heap, compileProgram [.node (.function (.mk (some "f") [] [] ⟨0, 0⟩)) ⟨0, 0⟩] ⟨#[], ""⟩
          = .ok program
      ∧ program.functionNames = ["f"]
      ∧ data = .object [("all", .array [.function "f", .function "log"]), ("none", .null)]
      ∧ program.toHost (program.fromHost ⟨0⟩ data heap).2 (program.fromHost ⟨0⟩ data heap).1 = data
      ∧ heap = (Heap.empty.newObject ⟨0⟩).2.define ⟨0⟩ "me" (.object ⟨0⟩)
      ∧ program.toHost (program.fromHost ⟨0⟩ (program.toHost heap (.object ⟨0⟩)) heap).2
          (program.fromHost ⟨0⟩ (program.toHost heap (.object ⟨0⟩)) heap).1
        = program.toHost heap (.object ⟨0⟩) := by
  have hnames : (compileProgram [.node (.function (.mk (some "f") [] [] ⟨0, 0⟩)) ⟨0, 0⟩]
      ⟨#[], ""⟩).map Program.functionNames = .ok ["f"] := by cbv
  cases hok : compileProgram [.node (.function (.mk (some "f") [] [] ⟨0, 0⟩)) ⟨0, 0⟩] ⟨#[], ""⟩ with
  | error e =>
    rw [hok] at hnames
    cases hnames
  | ok program =>
    rw [hok] at hnames
    obtain ⟨hdata, hvalue⟩ := toHost_fromHost hok ⟨0⟩
    refine ⟨program, _, _, rfl, Except.ok.inj hnames, rfl, (hdata _ _ ?_).2 ?_, rfl, (hvalue _ _ _).2⟩
    · exact ⟨by decide, ⟨trivial, trivial, trivial⟩, List.forall_mem_nil _, trivial, trivial⟩
    · decide

end ScriptMachine
