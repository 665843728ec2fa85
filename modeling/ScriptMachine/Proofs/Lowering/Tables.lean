import ScriptMachine.Proofs.Lowering.Rules

/-!
# What a compilation adds to its tables

A piece of code is made together with labels, constants, functions and classes.  All of them only
grow, and no label is placed twice: every label that is handed out stands at most once in the code
or in the functions that were made meanwhile, although finalizers are compiled several times.

* `placed`              the labels that stand in a piece of code;
* `Builder.labelCount`  how often a label stands in the functions of a builder;
* `Written`             a function of the table that is complete;
* `Grows b c b'`        what making `c` does to the builder;
* `BodyCode.grows`      the main statement: code by the rules grows the tables.
-/

namespace ScriptMachine

/-! ## labels -/

def Op.label? : Op → Option Label
  | .label l => some l
  | _ => none

/-- the labels that stand in a piece of code, in their order -/
def placed (c : Code) : List Label := c.filterMap fun e => e.op.label?

@[simp] theorem placed_nil : placed [] = [] := rfl

@[simp] theorem placed_append (c c' : Code) : placed (c ++ c') = placed c ++ placed c' :=
  List.filterMap_append

@[simp] theorem placed_place (l : Label) : placed (place l) = [l] := rfl

@[simp] theorem placed_one (op : Op) (range : TokenRange) :
    placed (one op range) = op.label?.toList := by
  show List.filterMap _ [_] = _
  rw [List.filterMap_cons]
  cases h : op.label? <;> simp only [Emitted.inside, h] <;> rfl

@[simp] theorem placed_startStatement (exits : List ExitScope) (range : TokenRange) (c : Code) :
    placed (startStatement exits range c) = placed c := by
  cases c <;> rfl

@[simp] theorem placed_constantCode (b : Builder) (v : Value) (range : TokenRange) :
    placed (b.constantCode v range) = [] := rfl

@[simp] theorem UnaryOp.label?_toOp (op : UnaryOp) : op.toOp.label? = none := by
  cases op <;> rfl

section
variable (range : TokenRange) (c c₁ c₂ c₃ c₄ : Code)

@[simp] theorem placed_blockCode : placed (blockCode range c) = placed c := by
  simp [blockCode, Op.label?]

@[simp] theorem placed_methodCall (method : String) (argc : Nat) :
    placed (methodCall method argc range) = [] := by
  simp [methodCall, Op.label?]

@[simp] theorem placed_logicalCode (op : LogicalOp) (decided done : Label) :
    placed (logicalCode op decided done range c₁ c₂ c₃)
      = placed c₁ ++ placed c₂ ++ [decided] ++ placed c₃ ++ [done] := by
  cases op <;> simp [logicalCode, LogicalOp.toOp, Op.label?]

@[simp] theorem placed_newCode (className : String) (argc : Nat) :
    placed (newCode className argc range c) = placed c := by
  simp [newCode, Op.label?]

@[simp] theorem placed_ifCode (otherwise : Label) :
    placed (ifCode otherwise range c₁ c₂) = placed c₁ ++ placed c₂ ++ [otherwise] := by
  simp [ifCode, Op.label?]

@[simp] theorem placed_ifElseCode (otherwise done : Label) (r : TokenRange) :
    placed (ifElseCode otherwise done r range c₁ c₂ c₃)
      = placed c₁ ++ placed c₂ ++ [otherwise] ++ placed c₃ ++ [done] := by
  simp [ifElseCode, Op.label?]

@[simp] theorem placed_whileCode (start done : Label) (r : TokenRange) :
    placed (whileCode start done r range c₁ c₂)
      = [start] ++ placed c₁ ++ placed c₂ ++ [done] := by
  simp [whileCode, Op.label?]

@[simp] theorem placed_forCode (start next done : Label) :
    placed (forCode start next done range c₁ c₂ c₃ c₄)
      = placed c₁ ++ [start] ++ placed c₂ ++ placed c₃ ++ [next] ++ placed c₄ ++ [done] := by
  simp [forCode, Op.label?]

@[simp] theorem placed_returnCode : placed (returnCode range c₁ c₂) = placed c₁ ++ placed c₂ := by
  simp [returnCode, Op.label?]

@[simp] theorem placed_catchCode (caught done uncaught : Label) (binding : Option String) :
    placed (catchCode caught done uncaught binding range c) = [caught] ++ placed c := by
  cases binding <;> simp [catchCode, bindingCode, Op.label?]

@[simp] theorem placed_tryCode (start done uncaught : Label) (handled : Bool) :
    placed (tryCode start done uncaught handled range c₁ c₂ c₃ c₄)
      = placed c₁ ++ placed c₂ ++ [uncaught] ++ placed c₃ ++ [done] ++ placed c₄ := by
  cases handled <;> simp [tryCode, Op.label?]

end

/-- how often a label stands in the functions -/
def Builder.labelCount (b : Builder) (l : Label) : Nat :=
  (b.functions.toList.map fun f => (placed f.code).count l).sum

theorem Builder.labelCount_reserve (b : Builder) (name : String) (params : List String) (l : Label) :
    (b.reserve name params).labelCount l = b.labelCount l := by
  show ((b.functions.push ⟨name, params, []⟩).toList.map _).sum = _
  rw [Array.toList_push, List.map_append, List.sum_append]
  rfl

/-- the number of labels of one function is replaced by that of its new code -/
theorem Builder.labelCount_fill (b : Builder) (i : Nat) (c : Code) (f : FunctionCode)
    (h : b.functions[i]? = some f) (l : Label) :
    (b.fill i c).labelCount l + (placed f.code).count l = b.labelCount l + (placed c).count l := by
  have hi : b.functions.toList[i]? = some f := by
    rw [Array.getElem?_toList]
    exact h
  obtain ⟨hlt, hget⟩ := List.getElem?_eq_some_iff.mp hi
  show ((b.functions.modify i fun f => { f with code := c }).toList.map _).sum + _ = _
  rw [Array.toList_modify, List.modify_eq_take_cons_drop hlt]
  unfold labelCount
  conv => rhs; rw [← List.take_append_drop i b.functions.toList, List.drop_eq_getElem_cons hlt]
  rw [hget]
  simp only [List.map_append, List.map_cons, List.sum_append, List.sum_cons]
  omega

/-! ## growth -/

/-- a value that literals can have -/
def Value.isPlain : Value → Bool
  | .undefined => true
  | .null => true
  | .bool _ => true
  | .number _ => true
  | .string _ => true
  | _ => false

/-- Function `i` of the table is complete: it was declared, or is the constructor of a class that
declares none.  `b` is the builder behind it. -/
inductive Written (b : Builder) (i : Nat) : Prop
  | declared (h : FunctionAdded ctx name decl b₀ i b₁) (hkept : b.functions[i]? = b₁.functions[i]?)
      (hconst : b₁.constants.toList <+: b.constants.toList)
  | plain (h : Closes closing [] b₀ c b₁) (hentry : b.functions[i]? = some ⟨name, [], c⟩)
      (hconst : b₁.constants.toList <+: b.constants.toList)

/-- a class has a constructor, and all its methods are in the function table -/
def ClassEntry.Complete (entry : ClassEntry) (functions : Nat) : Prop :=
  (∃ index, (constructorName, index) ∈ entry.methods) ∧ ∀ m ∈ entry.methods, m.2 < functions

/-- the methods of a class stand in the function table under the names that the class gives them -/
def ClassEntry.Named (entry : ClassEntry) (functions : Array FunctionCode) : Prop :=
  ∀ m ∈ entry.methods, functions[m.2]?.map FunctionCode.name = some (methodName entry.name m.1)

/-- one for the labels that were handed out between two builders -/
def handedOut (b b' : Builder) (l : Label) : Nat :=
  if b.nextLabel ≤ l ∧ l < b'.nextLabel then 1 else 0

theorem handedOut_trans (i j k l : Nat) (h : i ≤ j) (h' : j ≤ k) :
    (if i ≤ l ∧ l < j then 1 else 0) + (if j ≤ l ∧ l < k then 1 else 0)
      = if i ≤ l ∧ l < k then 1 else 0 := by
  split <;> split <;> split <;> omega

/-- what making the code `c` does to the builder -/
structure Grows (b : Builder) (c : Code) (b' : Builder) : Prop where
  next : b.nextLabel ≤ b'.nextLabel
  labels : ∀ l, (placed c).count l + b'.labelCount l ≤ b.labelCount l + handedOut b b' l
  constants : b.constants.toList <+: b'.constants.toList
  plain : (∀ v ∈ b.constants.toList, v.isPlain) → ∀ v ∈ b'.constants.toList, v.isPlain
  functions_le : b.functions.size ≤ b'.functions.size
  functions : ∀ i, i < b.functions.size → b'.functions[i]? = b.functions[i]?
  written : ∀ i, b.functions.size ≤ i → i < b'.functions.size → Written b' i
  classes : ∀ k ∈ b'.classes, k ∈ b.classes ∨ k.Complete b'.functions.size
  methods : ∀ k ∈ b'.classes, k ∈ b.classes ∨ k.Named b'.functions

theorem Written.mono {b b' : Builder} {i : Nat} (h : Written b i)
    (hkept : b'.functions[i]? = b.functions[i]?)
    (hconst : b.constants.toList <+: b'.constants.toList) : Written b' i := by
  cases h with
  | declared h hkept' hconst' => exact .declared h (hkept.trans hkept') (hconst'.trans hconst)
  | plain h hentry hconst' => exact .plain h (hkept.trans hentry) (hconst'.trans hconst)

theorem ClassEntry.Complete.mono {entry : ClassEntry} {n m : Nat} (h : entry.Complete n)
    (hle : n ≤ m) : entry.Complete m :=
  ⟨h.1, fun x hx => Nat.lt_of_lt_of_le (h.2 x hx) hle⟩

theorem lt_of_name {functions : Array FunctionCode} {i : Nat} {name : String}
    (h : functions[i]?.map FunctionCode.name = some name) : i < functions.size := by
  obtain ⟨f, hf, -⟩ := Option.map_eq_some_iff.mp h
  exact (Array.getElem?_eq_some_iff.mp hf).1

theorem Builder.name_fill (b : Builder) (i j : Nat) (c : Code) :
    (b.fill i c).functions[j]?.map FunctionCode.name = b.functions[j]?.map FunctionCode.name := by
  show (b.functions.modify i _)[j]?.map _ = _
  rw [Array.getElem?_modify]
  split
  · rw [Option.map_map]
    rfl
  · rfl

namespace Grows

variable {b b₁ b₂ b' : Builder} {c c₁ c₂ c' : Code}

theorem refl : Grows b [] b where
  next := Nat.le_refl _
  labels l := by
    rw [placed_nil, List.count_nil]
    omega
  constants := List.prefix_refl _
  plain h := h
  functions_le := Nat.le_refl _
  functions _ _ := rfl
  written i h h' := absurd h' (by omega)
  classes k hk := .inl hk
  methods k hk := .inl hk

/-- a function keeps its name -/
theorem name_eq (h : Grows b c b') {i : Nat} {name : String}
    (hname : b.functions[i]?.map FunctionCode.name = some name) :
    b'.functions[i]?.map FunctionCode.name = some name := by
  rw [h.functions i (lt_of_name hname)]
  exact hname

theorem trans (h : Grows b c₁ b₁) (h' : Grows b₁ c₂ b₂) : Grows b (c₁ ++ c₂) b₂ where
  next := Nat.le_trans h.next h'.next
  labels l := by
    have h₁ := h.labels l
    have h₂ := h'.labels l
    have hsum : handedOut b b₁ l + handedOut b₁ b₂ l = handedOut b b₂ l :=
      handedOut_trans _ _ _ l h.next h'.next
    rw [placed_append, List.count_append]
    omega
  constants := h.constants.trans h'.constants
  plain hb := h'.plain (h.plain hb)
  functions_le := Nat.le_trans h.functions_le h'.functions_le
  functions i hi := (h'.functions i (Nat.lt_of_lt_of_le hi h.functions_le)).trans (h.functions i hi)
  written i hi hi' := by
    by_cases hlt : i < b₁.functions.size
    · exact (h.written i hi hlt).mono (h'.functions i hlt) h'.constants
    · exact h'.written i (by omega) hi'
  classes k hk := by
    rcases h'.classes k hk with hk | hk
    · rcases h.classes k hk with hk | hk
      · exact .inl hk
      · exact .inr (hk.mono h'.functions_le)
    · exact .inr hk
  methods k hk := by
    rcases h'.methods k hk with hk | hk
    · rcases h.methods k hk with hk | hk
      · exact .inl hk
      · exact .inr fun m hm => h'.name_eq (hk m hm)
    · exact .inr hk

/-- what counts of the code are its labels -/
theorem cast (h : Grows b c b') (hc : ∀ l, (placed c').count l ≤ (placed c).count l) :
    Grows b c' b' :=
  { h with labels := fun l => Nat.le_trans (Nat.add_le_add_right (hc l) _) (h.labels l) }

end Grows

/-! ## steps -/

namespace Grows

variable {b b₁ b₂ b' : Builder} {c c₁ c₂ c' : Code}

theorem label (b : Builder) : Grows b (place b.nextLabel) (b.addLabels 1) :=
  { (refl : Grows b [] b) with
    next := Nat.le_add_right _ _
    written := fun _ h h' => absurd h' (Nat.not_lt.mpr h)
    labels := fun l => by
      have hone (i l : Nat) : [i].count l ≤ if i ≤ l ∧ l < i + 1 then 1 else 0 := by
        rw [List.count_singleton]
        split
        · rename_i heq
          have heq : i = l := eq_of_beq heq
          exact Nat.le_of_eq (if_pos (by omega)).symm
        · exact Nat.zero_le _
      rw [Nat.add_comm]
      exact Nat.add_le_add_left (hone b.nextLabel l) _ }

theorem twoLabels (b : Builder) :
    Grows b (place b.nextLabel ++ place (b.nextLabel + 1)) (b.addLabels 2) :=
  (label b).trans (label (b.addLabels 1))

theorem threeLabels (b : Builder) :
    Grows b (place b.nextLabel ++ place (b.nextLabel + 1) ++ place (b.nextLabel + 2))
      (b.addLabels 3) :=
  (twoLabels b).trans (label (b.addLabels 2))

theorem constant (b : Builder) (v : Value) (range : TokenRange) (hv : v.isPlain) :
    Grows b (b.constantCode v range) (b.addConstant v) := by
  have hcases : (internConstant b.constants v).2 = b.constants
      ∨ (internConstant b.constants v).2 = b.constants.push v := by
    unfold internConstant
    split
    · exact .inl rfl
    · exact .inr rfl
  refine { (refl : Grows b [] b) with constants := ?_, plain := ?_, written := ?_ }
  · show b.constants.toList <+: (internConstant b.constants v).2.toList
    generalize (internConstant b.constants v).2 = constants at hcases
    rcases hcases with rfl | rfl
    · exact List.prefix_refl _
    · rw [Array.toList_push]
      exact List.prefix_append _ _
  · intro hb w hw
    have hw' : w ∈ (internConstant b.constants v).2.toList := hw
    rcases hcases with h | h <;> rw [h] at hw'
    · exact hb w hw'
    · rw [Array.toList_push, List.mem_append, List.mem_singleton] at hw'
      rcases hw' with hw' | rfl
      · exact hb w hw'
      · exact hv
  · intro i h h'
    exact absurd h' (Nat.not_lt.mpr h)

theorem anonymous (b : Builder) : Grows b [] b.addAnonymous :=
  { (refl : Grows b [] b) with written := fun _ h h' => absurd h' (Nat.not_lt.mpr h) }

theorem named (b : Builder) (decl : FunctionDecl) : Grows b [] (b.named decl) := by
  unfold Builder.named
  split
  · exact refl
  · exact anonymous b

theorem addClass {k : ClassEntry} (h : Grows b c b')
    (hconstructor : ∃ index, (constructorName, index) ∈ k.methods) (hk : k.Named b'.functions) :
    Grows b c (b'.addClass k) :=
  { h with
    written := fun i hi hi' => (h.written i hi hi').mono rfl (List.prefix_refl _)
    classes := fun k' hk' => by
      have hk'' : k' ∈ b'.classes.push k := hk'
      rcases Array.mem_push.mp hk'' with hk'' | rfl
      · exact h.classes k' hk''
      · exact .inr ⟨hconstructor, fun m hm => lt_of_name (hk m hm)⟩
    methods := fun k' hk' => by
      have hk'' : k' ∈ b'.classes.push k := hk'
      rcases Array.mem_push.mp hk'' with hk'' | rfl
      · exact h.methods k' hk''
      · exact .inr hk }

theorem close {closing : TokenRange} (h : Grows b c b₁) (hc : Closes closing c b₁ c' b') :
    Grows b c' b' := by
  cases hc with
  | already => exact h
  | added =>
    refine (h.trans (constant b₁ .undefined closing rfl)).cast (fun l => ?_)
    rw [placed_append, placed_one]
    exact Nat.le_of_eq (congrArg (List.count l) (List.append_nil _))

/-- between taking its place and getting its code, a function has none -/
theorem reserved {name : String} {params : List String} (h : Grows (b.reserve name params) c b') :
    b'.functions[b.functions.size]? = some ⟨name, params, []⟩ := by
  have hsize : (b.reserve name params).functions.size = b.functions.size + 1 := Array.size_push _
  rw [h.functions _ (by omega)]
  exact Array.getElem?_push_size

theorem entry_fill {name : String} {params : List String} (h : Grows (b.reserve name params) c b')
    (c' : Code) :
    (b'.fill b.functions.size c').functions[b.functions.size]? = some ⟨name, params, c'⟩ := by
  show (b'.functions.modify b.functions.size _)[b.functions.size]? = _
  rw [Array.getElem?_modify, if_pos rfl, h.reserved]
  rfl

/-- Between taking its place and getting its code, a function's place does not change.  Behind that
its labels count, and its functions stand behind it. -/
theorem fill {name : String} {params : List String} (h : Grows (b.reserve name params) c b')
    (hw : Written (b'.fill b.functions.size c) b.functions.size) :
    Grows b [] (b'.fill b.functions.size c) := by
  have hsize : (b.reserve name params).functions.size = b.functions.size + 1 := Array.size_push _
  have hfsize : (b'.fill b.functions.size c).functions.size = b'.functions.size :=
    Array.size_modify
  have hle := h.functions_le
  have hentry := h.reserved
  have hother : ∀ j, j ≠ b.functions.size →
      (b'.fill b.functions.size c).functions[j]? = b'.functions[j]? := by
    intro j hj
    show (b'.functions.modify _ _)[j]? = _
    rw [Array.getElem?_modify, if_neg (Ne.symm hj)]
  refine ⟨h.next, fun l => ?_, h.constants, h.plain, by omega, fun i hi => ?_, fun i hi hi' => ?_,
    fun k hk => ?_, fun k hk => ?_⟩
  · have hl := h.labels l
    have hfill := b'.labelCount_fill _ c _ hentry l
    rw [Builder.labelCount_reserve] at hl
    rw [placed_nil, List.count_nil] at *
    have hsame : handedOut b (b'.fill b.functions.size c) l
        = handedOut (b.reserve name params) b' l := rfl
    omega
  · rw [hother i (by omega), h.functions i (by omega)]
    show (b.functions.push _)[i]? = _
    rw [Array.getElem?_push, if_neg (by omega)]
  · by_cases heq : i = b.functions.size
    · rw [heq]
      exact hw
    · exact (h.written i (by omega) (by omega)).mono (hother i heq) (List.prefix_refl _)
  · rcases h.classes k hk with hk | hk
    · exact .inl hk
    · exact .inr (hfsize ▸ hk)
  · rcases h.methods k hk with hk | hk
    · exact .inl hk
    · exact .inr fun m hm => (b'.name_fill _ _ c).trans (hk m hm)

end Grows

/-! ## parts that may be missing -/

theorem ExprForm.isPlain_of_literal {form : ExprForm} {v : Value} (h : form.literal? = some v) :
    v.isPlain := by
  cases form <;> cases h <;> rfl

theorem exists_constructor {methods : List (String × Nat)}
    (h : methods.any (·.1 = constructorName) = true) :
    ∃ index, (constructorName, index) ∈ methods := by
  obtain ⟨m, hm, hname⟩ := List.any_eq_true.mp h
  exact ⟨m.2, of_decide_eq_true hname ▸ hm⟩

namespace Grows

variable {b b' : Builder} {c : Code}

/-- code that is there in both cases -/
theorem ofOption {α : Type} {o : Option α} (hsome : ∀ a, o = some a → Grows b c b')
    (hnone : o = none → Grows b c b') : Grows b c b' := by
  cases o with
  | none => exact hnone rfl
  | some a => exact hsome a rfl

theorem valueOf {α : Type} {o : Option α} {range : TokenRange}
    (h : o = none → c = b.constantCode .undefined range ∧ b' = b.addConstant .undefined)
    (ho : o = none) :
    Grows b c b' := by
  obtain ⟨rfl, rfl⟩ := h ho
  exact constant b .undefined range rfl

theorem nothing {α : Type} {o : Option α} (h : o = none → c = [] ∧ b' = b) (ho : o = none) :
    Grows b c b' := by
  obtain ⟨rfl, rfl⟩ := h ho
  exact refl

theorem ofOptional (op : Op) {e : Option Expr} (hsome : ∀ e', e = some e' → Grows b c b')
    (hnone : e = none → b' = b) (hop : op.label? = none := by rfl) :
    Grows b (optionalCode op e c) b' := by
  cases e with
  | none =>
    rw [hnone rfl]
    exact refl
  | some e => exact (hsome e rfl).cast (fun l => by simp [optionalCode, hop])

/-- the label of a handler counts for itself -/
theorem ofHandler {handler : Option CatchClause} (caught done uncaught : Label)
    (hsome : ∀ binding body r, handler = some (.mk binding body r) → Grows b c b')
    (hnone : handler = none → b' = b) :
    ∃ c', Grows b c' b' ∧ ∀ l, (placed (handlerCode caught done uncaught handler c)).count l
      ≤ [caught].count l + (placed c').count l := by
  cases handler with
  | none =>
    rw [hnone rfl]
    exact ⟨[], refl, fun l => Nat.zero_le _⟩
  | some clause =>
    obtain ⟨binding, body, r⟩ := clause
    refine ⟨c, hsome binding body r rfl, fun l => ?_⟩
    exact Nat.le_of_eq (by rw [handlerCode, placed_catchCode, List.count_append])

theorem ofFinalizer (range : TokenRange) {finalizer : Option (List Stmt)}
    (hsome : ∀ body, finalizer = some body → Grows b c b') (hnone : finalizer = none → b' = b) :
    Grows b (finalCode range finalizer c) b' := by
  cases finalizer with
  | none =>
    rw [hnone rfl]
    exact refl
  | some body => exact (hsome body rfl).cast (fun l => by simp [finalCode])

end Grows

/-! ## the rules -/

mutual

theorem ExprCode.grows {ctx : Context} {e : Expr} {b b' : Builder} {c : Code}
    (h : ExprCode ctx e b c b') : Grows b c b' := by
  match h with
  | .literal h => exact .constant _ _ _ (ExprForm.isPlain_of_literal h)
  | .variable => exact Grows.refl.cast (fun l => by simp [Op.label?])
  | .this => exact Grows.refl.cast (fun l => by simp [Op.label?])
  | .assignVariable hv => exact hv.grows.cast (fun l => by simp [Op.label?])
  | .assignMember ho hv => exact (ho.grows.trans hv.grows).cast (fun l => by simp [Op.label?])
  | .assignIndex ho hv hk =>
    exact ((ho.grows.trans hv.grows).trans hk.grows).cast (fun l => by simp)
  | .binary hl hr => exact (hl.grows.trans hr.grows).cast (fun l => by simp [Op.label?])
  | .logical hl hr =>
    refine ((((Grows.twoLabels _).trans hl.grows).trans hr.grows).trans
      (.constant _ _ e.range rfl)).cast ?_
    intro l
    simp only [placed_logicalCode, placed_append, placed_place, placed_constantCode,
      List.count_append]
    omega
  | .unary h => exact h.grows.cast (fun l => by simp)
  | .callMember _ ho ha => exact (ho.grows.trans ha.grows).cast (fun l => by simp)
  | .callVariable _ ha => exact ha.grows.cast (fun l => by simp [Op.label?])
  | .callValue _ _ ha hc => exact (ha.grows.trans hc.grows).cast (fun l => by simp [Op.label?])
  | .member ho => exact ho.grows.cast (fun l => by simp [Op.label?])
  | .index ho hk => exact (ho.grows.trans hk.grows).cast (fun l => by simp)
  | .new _ ha => exact ha.grows.cast (fun l => by simp)
  | .function hf => exact ((Grows.named _ _).trans hf.grows.1).cast (fun l => by simp [Op.label?])
  | .array ha => exact ha.grows.cast (fun l => by simp [Op.label?])

theorem ArgsCode.grows {ctx : Context} {es : List Expr} {b b' : Builder} {c : Code}
    (h : ArgsCode ctx es b c b') : Grows b c b' := by
  match h with
  | .nil => exact .refl
  | .cons hr he => exact hr.grows.trans he.grows

theorem FunctionAdded.grows {ctx : Context} {name : String} {decl : FunctionDecl} {b b' : Builder}
    {i : Nat} (h : FunctionAdded ctx name decl b i b') :
    Grows b [] b' ∧ b'.functions[i]?.map FunctionCode.name = some name := by
  match h with
  | .mk hn hb hc =>
    have hall := hb.grows.close hc
    exact ⟨hall.fill (.declared (.mk (n := decl.name?) hn hb hc) rfl (List.prefix_refl _)),
      congrArg (Option.map FunctionCode.name) (hall.entry_fill _)⟩

theorem MethodsAdded.grows {ctx : Context} {className : String} {decls : List FunctionDecl}
    {b b' : Builder} {methods : List (String × Nat)}
    (h : MethodsAdded ctx className decls b methods b') :
    Grows b [] b' ∧ ClassEntry.Named ⟨className, methods⟩ b'.functions := by
  match h with
  | .nil => exact ⟨.refl, nofun⟩
  | .cons _ hf hr =>
    obtain ⟨hgrow, hname⟩ := hf.grows
    obtain ⟨hgrow', hnames⟩ := hr.grows
    refine ⟨hgrow.trans hgrow', fun m hm => ?_⟩
    rcases List.mem_cons.mp hm with rfl | hm
    · exact hgrow'.name_eq hname
    · exact hnames m hm

theorem StmtCode.grows {ctx : Context} {stmt : Stmt} {b b' : Builder} {c : Code}
    (h : StmtCode ctx stmt b c b') : Grows b c b' := by
  match h with
  | .block h => exact h.grows.cast (fun l => by simp)
  | .form _ h => exact h.grows.cast (fun l => by simp)

theorem BodyCode.grows {ctx : Context} {body : List Stmt} {b b' : Builder} {c : Code}
    (h : BodyCode ctx body b c b') : Grows b c b' := by
  match h with
  | .nil => exact .refl
  | .cons hs hr => exact hs.grows.trans hr.grows

theorem FormCode.grows {ctx : Context} {range : TokenRange} {form : StmtForm} {b b' : Builder}
    {c : Code} (h : FormCode ctx range form b c b') : Grows b c b' := by
  match h with
  | .expression h => exact h.grows.cast (fun l => by simp [Op.label?])
  | .varDecl hsome hnone =>
    have hvalue := Grows.ofOption (fun e he => (hsome e he).grows) (Grows.valueOf hnone)
    exact hvalue.cast (fun l => by simp [Op.label?])
  | .ifOnly ht hs =>
    refine (((Grows.label _).trans ht.grows).trans hs.grows).cast (fun l => ?_)
    simp only [placed_ifCode, placed_append, placed_place, List.count_append]
    omega
  | .ifElse ht hs he =>
    refine (((((Grows.label _).trans ht.grows).trans hs.grows).trans (Grows.label _)).trans
      he.grows).cast (fun l => ?_)
    simp only [placed_ifElseCode, placed_append, placed_place, List.count_append]
    omega
  | .whileLoop ht hs =>
    refine (((Grows.twoLabels _).trans ht.grows).trans hs.grows).cast (fun l => ?_)
    simp only [placed_whileCode, placed_append, placed_place, List.count_append]
    omega
  | .forLoop hisome hinone htsome htnone hs husome hunone =>
    have hinit := Grows.ofOption (fun s h => (hisome s h).grows) (Grows.nothing hinone)
    have htest := Grows.ofOptional (.jumpFalse (b.nextLabel + 2)) (fun e h => (htsome e h).grows) htnone
    have hupdate := Grows.ofOptional .pop (fun e h => (husome e h).grows) hunone
    refine (((((Grows.threeLabels _).trans hinit).trans htest).trans hs.grows).trans hupdate).cast
      (fun l => ?_)
    simp only [placed_forCode, placed_append, placed_place, List.count_append]
    omega
  | .jump _ _ => exact Grows.refl.cast (fun l => by simp [Op.label?])
  | .jumpCrossing _ _ hc => exact hc.grows.cast (fun l => by simp [Op.label?])
  | .returnValue _ hsome hnone _ =>
    have hvalue := Grows.ofOption (fun e he => (hsome e he).grows) (Grows.valueOf hnone)
    exact hvalue.cast (fun l => by simp [Op.label?])
  | .returnCrossing _ hsome hnone _ hc =>
    have hvalue := Grows.ofOption (fun e he => (hsome e he).grows) (Grows.valueOf hnone)
    exact (hvalue.trans hc.grows).cast (fun l => by simp)
  | .throwValue h => exact h.grows.cast (fun l => by simp [Op.label?])
  | .tryCatch hb hhsome hhnone hrsome hrnone hfsome hfnone =>
    obtain ⟨c₂, hhandler, hcount⟩ := Grows.ofHandler b.nextLabel (b.nextLabel + 1) (b.nextLabel + 2)
      (fun n s r h => (hhsome n s r h).grows) hhnone
    have hrethrow := Grows.ofFinalizer range (fun s h => (hrsome s h).grows) hrnone
    have hfinal := Grows.ofFinalizer range (fun s h => (hfsome s h).grows) hfnone
    refine (((((Grows.threeLabels _).trans hb.grows).trans hhandler).trans hrethrow).trans
      hfinal).cast (fun l => ?_)
    simp only [placed_tryCode, placed_append, placed_place, List.count_append]
    have hcaught := hcount l
    omega
  | .function _ hf => exact hf.grows.1
  | .classDecl hm hc =>
    obtain ⟨hgrow, hnames⟩ := hm.grows
    exact hgrow.addClass (exists_constructor hc) hnames
  | .classPlain hm _ hb =>
    obtain ⟨hgrow, hnames⟩ := hm.grows
    have hall := Grows.refl.close hb
    have hadd := hall.fill (.plain hb (hall.entry_fill _) (List.prefix_refl _))
    refine (hgrow.trans hadd).addClass
      ⟨_, List.mem_append_right _ (List.mem_singleton.mpr rfl)⟩ fun m hm => ?_
    rcases List.mem_append.mp hm with hm | hm
    · exact hadd.name_eq (hnames m hm)
    · cases List.mem_singleton.mp hm
      exact congrArg (Option.map FunctionCode.name) (hall.entry_fill _)
  | .debugger => exact Grows.refl.cast (fun l => by simp [Op.label?])
  | .empty => exact .refl

theorem CrossCode.grows {ctx : Context} {range : TokenRange} {crossed outer : List ExitScope}
    {b b' : Builder} {c : Code} (h : CrossCode ctx range crossed outer b c b') : Grows b c b' := by
  match h with
  | .nil => exact .refl
  | .loop h => exact h.grows.cast (fun l => by simp [Op.label?])
  | .pendingThrow h => exact h.grows.cast (fun l => by simp [Op.label?])
  | .guarded h => exact h.grows.cast (fun l => by simp [Op.label?])
  | .finalizer hb h => exact (hb.grows.trans h.grows).cast (fun l => by simp [Op.label?])

end

end ScriptMachine
