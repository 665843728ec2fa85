import ScriptMachine.Proofs.Lowering.Tables
import ScriptMachine.Proofs.Meaning.Literals
import ScriptMachine.Proofs.Meaning.Trace

/-!
# The code of expressions computes their values

* `Linked.Means`    a linked program with given functions;
* `Follows`         the machine does what the evaluator does: both come to corresponding ends, and
                    where the evaluator uses up its fuel the machine goes on at least as long;
* `Gives`           how the code of an expression ends: with its value on the stack, or throwing;
* `Calls`           calls of functions are followed;
* `follows_expr`    the main statement: the code of an expression follows its evaluation.
-/

namespace ScriptMachine

/-! ## programs -/

/-- no function is declared inside of another one, so names mean themselves -/
def Context.Plain (ctx : Context) : Prop := ∀ scope ∈ ctx.enclosing, scope.names = []

theorem Context.Plain.resolve {ctx : Context} (h : ctx.Plain) (name : String) :
    ctx.resolve name = name := by
  have hnone : ctx.enclosing.find? (fun scope => scope.names.contains name) = none := by
    rw [List.find?_eq_none]
    intro scope hscope
    rw [h scope hscope]
    exact Bool.false_ne_true
  unfold Context.resolve
  rw [hnone]

/-- the constants of a builder are among those of a program, at the same places -/
def Builder.Within (b : Builder) (program : Program) : Prop :=
  b.constants.toList <+: program.constants.toList

theorem Grows.within {b b' : Builder} {c : Code} {program : Program} (h : Grows b c b')
    (hb : b'.Within program) : b.Within program := h.constants.trans hb

/-- A linked program whose functions have these names.  The host has no functions. -/
structure Linked.Means (linked : Linked) (functions : List FunctionDecl) : Prop where
  natives : linked.natives = []
  labels : ∀ (loc : Location) (l : Label), At linked.program loc (place l) →
    linked.labels.resolve? l = some loc
  constants : ∀ v ∈ linked.program.constants, v ≠ .number (-0)
  names : linked.program.functionNames = functions.map fun decl => decl.name?.getD ""

namespace Linked.Means

variable {linked : Linked} {functions : List FunctionDecl}

theorem native? (h : linked.Means functions) (name : String) : linked.native? name = none := by
  unfold Linked.native?
  rw [h.natives]
  rfl

theorem hasNative (h : linked.Means functions) (name : String) :
    linked.hasNative name = decide (name = Linked.printName) := by
  unfold Linked.hasNative
  rw [h.native? name]
  rfl

/-- a literal is found at its place -/
theorem constant (h : linked.Means functions) {b : Builder} {v : Value}
    (hb : (b.addConstant v).Within linked.program) (hv : v ≠ .number (-0)) :
    linked.program.constants[(internConstant b.constants v).1]? = some v := by
  have hmem : ∀ w ∈ (internConstant b.constants v).2, w ≠ .number (-0) := by
    intro w hw
    exact h.constants w (Array.mem_toList_iff.mp (hb.subset (Array.mem_toList_iff.mpr hw)))
  have hold : ∀ w ∈ b.constants, w ≠ .number (-0) := by
    intro w hw
    refine hmem w ?_
    unfold internConstant
    split
    · exact hw
    · exact Array.mem_push_of_mem _ hw
  have hget := internConstant_get hold hv
  rw [← Array.getElem?_toList] at hget ⊢
  obtain ⟨hlt, -⟩ := List.getElem?_eq_some_iff.mp hget
  obtain ⟨rest, hrest⟩ := hb
  rw [← hrest]
  exact (List.getElem?_append_left hlt).trans hget

theorem lookupScript? (h : linked.Means functions) {s : State} {name : String}
    (hname : name ≠ "this") :
    Exec.lookupScript? linked s name = lookupName? functions s.heap s.env name := by
  unfold Exec.lookupScript? lookupName? functionPlace? Program.functionIndex?
  rw [if_neg hname, h.names]

end Linked.Means

/-! ## following -/

/-- What the machine does from `s` on where the evaluator comes to `r`.  If the evaluator uses up its
fuel, the machine goes on at least so long. -/
def Follows {ρ : Type} (linked : Linked) (n fuel : Nat) (env : EnvId) (t : Twin) (s : State)
    (r : Option (ρ × World)) (ends : ρ → Twin → State → Prop) : Prop :=
  match r with
  | none => Late linked fuel s
  | some (a, w) => ∃ t' k s', t'.world = w ∧ t.Moves linked.global n env t' ∧ Steps linked s k s'
      ∧ ends a t' s'

namespace Follows

variable {ρ ρ' : Type} {linked : Linked} {n fuel k : Nat} {env e : EnvId} {t t' : Twin} {s s' : State}
  {r : Option (ρ × World)} {ends ends' : ρ → Twin → State → Prop} {a : ρ}

/-- both are at the end -/
theorem now (hm : t.Moves linked.global n env t') (hs : Steps linked s k s') (h : ends a t' s') :
    Follows linked n fuel env t s (some (a, t'.world)) ends := ⟨t', k, s', rfl, hm, hs, h⟩

theorem here (ht : t.Ok linked.global n) (h : ends a t s) :
    Follows linked n fuel env t s (some (a, t.world)) ends := now (ht.moves_refl env) .refl h

/-- The machine goes first.  Where the rest happens in a new environment, that one does not count. -/
theorem after (hm : t.Moves linked.global n env t') (hs : Steps linked s k s')
    (he : e = env ∨ t.heap.cells.size ≤ e.index) (h : Follows linked n fuel e t' s' r ends) :
    Follows linked n fuel env t s r ends := by
  cases r with
  | none => exact (hs.late h).mono (Nat.le_add_left _ _)
  | some x =>
    obtain ⟨t'', m, s'', hw, hm', hs', hends⟩ := h
    exact ⟨t'', k + m, s'', hw, hm.trans_new hm' he, hs.trans hs', hends⟩

theorem steps (ht : t.Ok linked.global n) (hs : Steps linked s k s')
    (h : Follows linked n fuel env t s' r ends) : Follows linked n fuel env t s r ends :=
  after (ht.moves_refl env) hs (.inl rfl) h

/-- with an instruction on the way there is more fuel -/
theorem later (hs : Steps linked s (k + 1) s')
    (h : Follows linked n fuel env t s' r ends) : Follows linked n (fuel + 1) env t s r ends := by
  cases r with
  | none => exact (hs.late h).mono (by omega)
  | some x =>
    obtain ⟨t', m, s'', hw, hm', hs', hends⟩ := h
    exact ⟨t', k + 1 + m, s'', hw, hm', hs.trans hs', hends⟩

theorem less {fuel' : Nat} (h : Follows linked n fuel env t s r ends) (hle : fuel' ≤ fuel) :
    Follows linked n fuel' env t s r ends := by
  cases r with
  | none => exact Late.mono h hle
  | some x => exact h

/-- the machine goes on to another end -/
theorem go (h : Follows linked n fuel env t s r ends)
    (hgo : ∀ a t' s', t.Moves linked.global n env t' → ends a t' s' →
      ∃ k s'', Steps linked s' k s'' ∧ ends' a t' s'') :
    Follows linked n fuel env t s r ends' := by
  cases r with
  | none => exact h
  | some x =>
    obtain ⟨t', k, s', hw, hm, hs, hends⟩ := h
    obtain ⟨m, s'', hs', hends'⟩ := hgo _ t' s' hm hends
    exact ⟨t', k + m, s'', hw, hm, hs.trans hs', hends'⟩

/-- one after the other -/
theorem bind {ends' : ρ' → Twin → State → Prop} {f : ρ → World → Option (ρ' × World)}
    (h : Follows linked n fuel env t s r ends)
    (hf : ∀ a t' s', t.Moves linked.global n env t' → ends a t' s' →
      Follows linked n fuel env t' s' (f a t'.world) ends') :
    Follows linked n fuel env t s (r.bind fun x => f x.1 x.2) ends' := by
  cases r with
  | none => exact h
  | some x =>
    obtain ⟨a, w⟩ := x
    obtain ⟨t', k, s', rfl, hm, hs, hends⟩ := h
    exact after hm hs (.inl rfl) (hf a t' s' hm hends)

end Follows

/-! ## values -/

/-- How the code of an expression ends: it leaves something of `α` on the stack, or it throws. -/
def Gives {α : Type} (linked : Linked) (n : Nat) (stop : Location) (env : EnvId) (st : List Slot)
    (good : α → Prop) (slots : α → List Slot) : Except Value α → Twin → State → Prop
  | .ok a, t, s => good a ∧ s = t.at stop env (slots a ++ st)
  | .error v, t, s => v.Simple n ∧ Raises linked s v st t.heap t.world.events

/-- with a value on top of the stack -/
abbrev GivesValue (linked : Linked) (n : Nat) (stop : Location) (env : EnvId) (st : List Slot) :
    Except Value Value → Twin → State → Prop :=
  Gives linked n stop env st (Value.Simple n) fun v => [.value v]

/-- with so many values on top of the stack -/
abbrev GivesValues (linked : Linked) (n count : Nat) (stop : Location) (env : EnvId)
    (st : List Slot) : Except Value (List Value) → Twin → State → Prop :=
  Gives linked n stop env st (fun vs => vs.length = count ∧ ∀ v ∈ vs, v.Simple n)
    fun vs => vs.map .value

/-- what is done with the result of an expression -/
def Eval.next {α β : Type} (f : α → Eval β) : Except Value α → Eval β
  | .ok a => f a
  | .error v => Eval.throw v

theorem Eval.bind_apply {α β : Type} (x : Eval α) (f : α → Eval β) (w : World) :
    (x >>= f) w = (x w).bind fun r => Eval.next f r.1 r.2 := by
  show Eval.bind x f w = _
  unfold Eval.bind
  rcases x w with - | ⟨- | a, w'⟩ <;> rfl

section
variable {α β : Type} {linked : Linked} {n fuel : Nat} {env : EnvId} {t : Twin} {s : State}
  {stop stop' : Location} {st st' : List Slot} {good : α → Prop} {good' : β → Prop}
  {slots : α → List Slot} {slots' : β → List Slot}

/-- an expression and then another one, which may throw over what the first one left -/
theorem Follows.eval {x : Eval α} {f : α → Eval β}
    (h : Follows linked n fuel env t s (x t.world) (Gives linked n stop env st good slots))
    (hp : Passes st st')
    (hf : ∀ a t', t.Moves linked.global n env t' → good a →
      Follows linked n fuel env t' (t'.at stop env (slots a ++ st)) (f a t'.world)
        (Gives linked n stop' env st' good' slots')) :
    Follows linked n fuel env t s ((x >>= f) t.world)
      (Gives linked n stop' env st' good' slots') := by
  rw [Eval.bind_apply]
  refine h.bind fun r t' s' hm hr => ?_
  cases r with
  | error v => exact .here hm.ok ⟨hr.1, hr.2.passes hp⟩
  | ok a =>
    obtain ⟨ha, rfl⟩ := hr
    exact hf a t' hm ha

/-- the value stays on the stack while the machine goes on -/
theorem Follows.value {r : Option (Except Value Value × World)} {k : Nat}
    (h : Follows linked n fuel env t s r (GivesValue linked n stop env st))
    (hgo : ∀ v (t' : Twin), Steps linked (t'.at stop env (.value v :: st)) k
      (t'.at stop' env (.value v :: st))) :
    Follows linked n fuel env t s r (GivesValue linked n stop' env st) := by
  refine h.go fun r t' s' _ hr => ?_
  cases r with
  | error v => exact ⟨0, s', .refl, hr⟩
  | ok v =>
    obtain ⟨hv, rfl⟩ := hr
    exact ⟨k, _, hgo v t', hv, rfl⟩

end

/-! ## operations -/

@[simp] theorem length_one (op : Op) (range : TokenRange) : (one op range).length = 1 := rfl

@[simp] theorem length_place (l : Label) : (place l).length = 1 := rfl

theorem Location.skip_append (loc : Location) (c c' : Code) :
    loc.skip (c ++ c').length = (loc.skip c.length).skip c'.length := by
  rw [Location.skip_skip, List.length_append]

/-- the end of a piece of code is the end of its second part -/
theorem At.tail {program : Program} {loc : Location} {c c' : Code} (h : At program loc (c ++ c')) :
    ∃ loc', At program loc' c' ∧ loc.skip (c ++ c').length = loc'.skip c'.length :=
  ⟨_, h.right, loc.skip_append c c'⟩

section
variable {linked : Linked} {functions : List FunctionDecl} {fuel : Nat} {env : EnvId} {t : Twin}
  {V : String → Prop} {loc : Location} {st : List Slot} {range : TokenRange} {name : String}
  {v target : Value} {args : List Value}

theorem follows_constant (hm : linked.Means functions) (ht : t.Ok linked.global functions.length)
    {b : Builder} (hb : (b.addConstant v).Within linked.program) (hv : v ≠ .number (-0))
    (hs : v.Simple functions.length) (hat : At linked.program loc (b.constantCode v range)) :
    Follows linked functions.length fuel env t (t.at loc env st) (some (.ok v, t.world))
      (GivesValue linked functions.length (loc.skip 1) env st) :=
  .now (ht.moves_refl env) (step_const hat (hm.constant hb hv)) ⟨hs, rfl⟩

/-- both find the same under a name -/
theorem Sees.lookupName (hs : Sees linked.global t V env env)
    (ht : t.Ok linked.global functions.length) (hname : name ≠ returnSlot) (hV : V name) :
    lookupName? functions t.heap env name = lookupName? functions t.world.heap env name := by
  unfold lookupName?
  rw [hs.lookup ht hname hV]

theorem Twin.Ok.simple_lookupName (ht : t.Ok linked.global functions.length)
    (hv : lookupName? functions t.world.heap env name = some v) : v.Simple functions.length := by
  unfold lookupName? at hv
  rcases Option.or_eq_some_iff.mp hv with hlook | ⟨-, hplace⟩
  · obtain ⟨owner, -, hown⟩ := Option.bind_eq_some_iff.mp hlook
    exact ht.values owner name v hown
  · obtain ⟨i, hi, rfl⟩ := Option.map_eq_some_iff.mp hplace
    have hlt := Program.lastIndex?_lt hi
    rwa [List.length_map] at hlt

theorem follows_name (hm : linked.Means functions) (ht : t.Ok linked.global functions.length)
    (hs : Sees linked.global t V env env) (hname : Proper name) (hV : V name)
    (hat : At linked.program loc (one (.fetch name .variable) range)) :
    Follows linked functions.length fuel env t (t.at loc env st)
      (readName functions env name t.world)
      (GivesValue linked functions.length (loc.skip 1) env st) := by
  have hlook : Exec.lookupScript? linked (t.at loc env st) name
      = lookupName? functions t.world.heap env name :=
    (hm.lookupScript? hname.2).trans (hs.lookupName ht hname.1 hV)
  unfold readName
  cases hfind : lookupName? functions t.world.heap env name with
  | some v =>
    rw [hfind] at hlook
    exact .now (ht.moves_refl env) (step_fetch hat hlook) ⟨ht.simple_lookupName hfind, rfl⟩
  | none =>
    rw [hfind] at hlook
    have hstep := step_fetch_none (s := t.at loc env st) hat hlook
    rw [hm.hasNative] at hstep
    refine .now (ht.moves_refl env) hstep ⟨?_, ?_⟩
    · split <;> trivial
    · simp only [decide_eq_true_eq]
      rfl

/-- both give a name a new value at the same place -/
def Twin.assign (t : Twin) (global env : EnvId) (name : String) (v : Value) : Twin :=
  t.define ((t.world.heap.owner? env name).getD global) name v

theorem Twin.Ok.assign (ht : t.Ok linked.global functions.length)
    (hs : Sees linked.global t V env env) (hname : name ≠ returnSlot) (hV : V name)
    (hv : v.Simple functions.length) (e : EnvId) :
    t.Moves linked.global functions.length e (t.assign linked.global env name v) := by
  refine ht.define hname hv (fun hne => ?_) e
  cases hown : t.world.heap.owner? env name with
  | none =>
    rw [hown] at hne
    exact absurd rfl hne
  | some d =>
    -- where a name is found it is bound
    have hfind : t.heap.owner? env name = some d := (hs.owner ht hname hV).trans hown
    have hhas : t.heap.hasOwn d name = true := by
      unfold Heap.owner? at hfind
      have hsome := List.find?_some hfind
      exact hsome
    rw [hown] at hne
    rcases ht.bound d name hne hhas with hret | hmem
    · exact absurd hret hname
    · exact hmem

theorem step_assign (hs : Sees linked.global t V env env) (ht : t.Ok linked.global functions.length)
    (hname : name ≠ returnSlot) (hV : V name)
    (hat : At linked.program loc (one (.store name false) range)) :
    Steps linked (t.at loc env (.value v :: st)) 1
      ((t.assign linked.global env name v).at (loc.skip 1) env (.value v :: st)) := by
  unfold Twin.assign
  rw [← hs.owner ht hname hV]
  exact step_store hat

theorem follows_assign (ht : t.Ok linked.global functions.length)
    (hs : Sees linked.global t V env env) (hname : Proper name) (hV : V name)
    (hv : v.Simple functions.length)
    (hat : At linked.program loc (one (.store name false) range)) :
    Follows linked functions.length fuel env t (t.at loc env (.value v :: st))
      (assignName linked.global env name v t.world)
      (GivesValue linked functions.length (loc.skip 1) env st) :=
  .now (ht.assign hs hname.1 hV hv env) (step_assign hs ht hname.1 hV hat) ⟨hv, rfl⟩

theorem follows_array (ht : t.Ok linked.global functions.length)
    (hargs : ∀ v ∈ args, v.Simple functions.length)
    (hat : At linked.program loc (one (.makeArray args.length) range)) :
    Follows linked functions.length fuel env t (t.at loc env (args.map .value ++ st))
      (makeArray args t.world) (GivesValue linked functions.length (loc.skip 1) env st) := by
  have hitems : ∀ v ∈ args.toArray, v.Simple functions.length :=
    fun v hv => hargs v (List.mem_toArray.mp hv)
  obtain ⟨hid, hmoves⟩ := ht.newArray hitems env
  refine ⟨_, 1, _, rfl, hmoves, step_makeArray args hat, trivial, ?_⟩
  rw [hid]
  rfl

/-! ### properties -/

theorem Twin.Ok.getProperty (ht : t.Ok linked.global functions.length)
    (hv : target.Simple functions.length) :
    t.heap.getProperty target name = t.world.heap.getProperty target name
      ∧ eitherSimple functions.length (t.world.heap.getProperty target name) := by
  cases target with
  | object env => exact hv.elim
  | array id =>
    have hprop : t.heap.arrayProperty? id name = t.world.heap.arrayProperty? id name := by
      unfold Heap.arrayProperty? Heap.arrayLength
      rw [Heap.items_congr ht.arrays]
    have hsimple : ((t.world.heap.arrayProperty? id name).getD .undefined).Simple functions.length := by
      unfold Heap.arrayProperty?
      split <;> trivial
    refine ⟨?_, hsimple⟩
    show Except.ok ((t.heap.arrayProperty? id name).getD .undefined) = _
    rw [hprop]
    rfl
  | string s =>
    refine ⟨rfl, ?_⟩
    show (if name = "length" then Value.number _ else .undefined).Simple functions.length
    split <;> trivial
  | _ => exact ⟨rfl, trivial⟩

theorem follows_property (ht : t.Ok linked.global functions.length)
    (hv : target.Simple functions.length)
    (hat : At linked.program loc (one (.fetch name .property) range)) :
    Follows linked functions.length fuel env t (t.at loc env (.value target :: st))
      (readProperty target name t.world) (GivesValue linked functions.length (loc.skip 1) env st) := by
  obtain ⟨heq, hsimple⟩ : t.heap.getProperty target name = t.world.heap.getProperty target name
      ∧ eitherSimple functions.length (t.world.heap.getProperty target name) := ht.getProperty hv
  unfold readProperty
  cases hget : t.world.heap.getProperty target name with
  | ok v =>
    rw [hget] at heq hsimple
    exact .now (ht.moves_refl env) (step_fetchProperty hat heq) ⟨hsimple, rfl⟩
  | error v =>
    rw [hget] at heq hsimple
    exact .here ht ⟨hsimple, raises_fetchProperty hat heq⟩

/-! ### indexing -/

/-- what an indexer of a value without methods of its own is -/
def Method.Indexes (linked : Linked) (n : Nat) (env : EnvId) (t : Twin) (args : List Value) :
    Method → Prop
  | .immediate run => t.Agrees linked.global n env (run args t.heap) (run args t.world.heap)
  | .missing thrown => thrown.Simple n
  | _ => False

theorem Heap.method_congr (h h' : Heap) (hv : target.Simple functions.length) (indexer : String) :
    h.method target indexer = h'.method target indexer := by
  cases target with
  | object env => exact hv.elim
  | _ => rfl

theorem Twin.Ok.indexes (ht : t.Ok linked.global functions.length)
    (hv : target.Simple functions.length) (hargs : ∀ v ∈ args, v.Simple functions.length)
    {indexer : String} (hix : indexer = indexerGet ∨ indexer = indexerSet) :
    (t.world.heap.method target indexer).Indexes linked functions.length env t args := by
  have hne : indexerSet ≠ indexerGet := by decide
  cases target with
  | object env => exact hv.elim
  | array id =>
    rcases hix with rfl | rfl
    · exact ht.getItem id args env
    · exact ht.setItem id hargs env
  | string s =>
    rcases hix with rfl | rfl
    · refine ht.agrees_same (.ok (characterAt s args.head?)) ?_ env
      show (characterAt s args.head?).Simple functions.length
      unfold characterAt
      split
      · split <;> trivial
      · trivial
    · have hmissing : t.world.heap.method (.string s) indexerSet
          = .missing (notAFunction indexerSet) := by
        rw [Heap.method, if_neg hne]
      rw [hmissing]
      trivial
  | _ => trivial

theorem follows_index (ht : t.Ok linked.global functions.length)
    (hv : target.Simple functions.length) (hargs : ∀ v ∈ args, v.Simple functions.length)
    {indexer : String} (hix : indexer = indexerGet ∨ indexer = indexerSet)
    (hat : At linked.program loc (methodCall indexer args.length range)) :
    Follows linked functions.length fuel env t
      (t.at loc env (args.map .value ++ Slot.value target :: st))
      (indexWith indexer target args t.world)
      (GivesValue linked functions.length (loc.skip 3) env st) := by
  have hindexes : (t.world.heap.method target indexer).Indexes linked functions.length env t args :=
    ht.indexes hv hargs hix
  have hmethod := Heap.method_congr t.heap t.world.heap hv indexer
  refine .steps ht (step_pick args hat.left.left) ?_
  have hfetch : At linked.program (loc.skip 1)
      (one (.fetch indexer (.callProperty args.length)) range) := hat.left.right
  unfold indexWith
  cases hm : t.world.heap.method target indexer with
  | callee value =>
    rw [hm] at hindexes
    exact hindexes.elim
  | refusing thrown =>
    rw [hm] at hindexes
    exact hindexes.elim
  | missing thrown =>
    rw [hm] at hindexes hmethod
    exact .here ht ⟨hindexes, (raises_missing hfetch hmethod).passes (.value target st)⟩
  | immediate run =>
    rw [hm] at hindexes hmethod
    obtain ⟨hresult, hsimple, hmoves⟩ := hindexes
    cases hrun : run args t.world.heap with
    | mk result heap =>
      dsimp only
      rw [hrun] at hresult hsimple hmoves ⊢
      have hpair : run args t.heap = (result, (run args t.heap).2) := Prod.ext hresult rfl
      cases result with
      | ok v =>
        let t' : Twin := ⟨t.names, (run args t.heap).2, { t.world with heap := heap }⟩
        have hcall : Steps linked
            (t'.at (loc.skip 2) env (.nativeResult :: .value v :: .value target :: st)) 1
            (t'.at (loc.skip 3) env (.value v :: st)) := step_calledOn hat.right
        exact ⟨t', 1 + 1, _, rfl, hmoves, (step_immediate hfetch hmethod hpair).trans hcall, hsimple, rfl⟩
      | error v =>
        refine ⟨_, 0, _, rfl, hmoves, .refl, hsimple, ?_⟩
        exact (raises_immediate hfetch hmethod hpair).passes (.value target st)

/-! ### calls -/

theorem Twin.Ok.world_printed (ht : t.Ok linked.global functions.length) (args : List Value) :
    (t.printed args).world = t.world.print args := by
  have htext : t.heap.text = t.world.heap.text := funext (Heap.text_congr ht.arrays)
  unfold Twin.printed Twin.note World.print
  rw [htext]

/-- Calls of functions of the program are followed. -/
def Calls (linked : Linked) (functions : List FunctionDecl) (call : Nat → List Value → Eval Value)
    (fuel : Nat) : Prop :=
  ∀ (index : Nat) (args : List Value), index < functions.length →
    (∀ v ∈ args, v.Simple functions.length) →
    ∀ (t : Twin) (loc : Location) (env : EnvId) (st : List Slot) (range : TokenRange),
      t.Ok linked.global functions.length →
      At linked.program loc (one (.call args.length false) range) →
      Follows linked functions.length fuel env t
        (t.at loc env (Slot.value (.function index) :: args.map .value ++ st)) (call index args t.world)
        (GivesValue linked functions.length (loc.skip 1) env st)

variable {call : Nat → List Value → Eval Value}

theorem follows_callNative (hm : linked.Means functions) (ht : t.Ok linked.global functions.length)
    (hat : At linked.program loc (one (.call args.length false) range)) :
    Follows linked functions.length fuel env t
      (t.at loc env (Slot.value (.native name) :: args.map .value ++ st)) (callHost name args t.world)
      (GivesValue linked functions.length (loc.skip 1) env st) := by
  unfold callHost
  split
  · rename_i hname
    subst hname
    rw [← ht.world_printed]
    exact .now (ht.note _ env) (step_callPrint hat (hm.native? _)) ⟨trivial, rfl⟩
  · rename_i hname
    exact .here ht ⟨trivial, raises_callMissing hat (hm.native? name) hname⟩

theorem follows_callValue (hm : linked.Means functions)
    (hcall : Calls linked functions call fuel) (ht : t.Ok linked.global functions.length)
    (hv : v.Simple functions.length) (hargs : ∀ v ∈ args, v.Simple functions.length)
    (hat : At linked.program loc (one (.call args.length false) range)) :
    Follows linked functions.length fuel env t
      (t.at loc env (Slot.value v :: args.map .value ++ st)) (callValueWith call v args t.world)
      (GivesValue linked functions.length (loc.skip 1) env st) := by
  have hother (hfun : ∀ index, v ≠ .function index) (hnative : ∀ name, v ≠ .native name) :
      Follows linked functions.length fuel env t
        (t.at loc env (Slot.value v :: args.map .value ++ st))
        (some (.error (notAFunction (t.world.heap.text v)), t.world))
        (GivesValue linked functions.length (loc.skip 1) env st) := by
    refine .here ht ⟨trivial, ?_⟩
    rw [← Heap.text_congr ht.arrays v]
    exact raises_callValue hat hfun hnative
  cases v with
  | function index => exact hcall index args hv hargs t loc env st range ht hat
  | native name => exact follows_callNative hm ht hat
  | _ => exact hother nofun nofun

/-- Fetching a function by its name and calling it. -/
theorem follows_callName (hm : linked.Means functions)
    (hcall : Calls linked functions call fuel) (ht : t.Ok linked.global functions.length)
    (hs : Sees linked.global t V env env) (hname : Proper name) (hV : V name)
    (hargs : ∀ v ∈ args, v.Simple functions.length)
    (hat : At linked.program loc (one (.fetch name (.callVariable args.length)) range
      ++ one (.call args.length false) range)) :
    Follows linked functions.length fuel env t (t.at loc env (args.map .value ++ st))
      (callName functions call env name args t.world)
      (GivesValue linked functions.length (loc.skip 2) env st) := by
  have hlook : Exec.lookupScript? linked (t.at loc env (args.map .value ++ st)) name
      = lookupName? functions t.world.heap env name :=
    (hm.lookupScript? hname.2).trans (hs.lookupName ht hname.1 hV)
  unfold callName
  cases hfind : lookupName? functions t.world.heap env name with
  | some v =>
    rw [hfind] at hlook
    refine .steps ht (step_fetchCallee hat.left hlook) ?_
    exact follows_callValue hm hcall ht (ht.simple_lookupName hfind) hargs hat.right
  | none =>
    rw [hfind] at hlook
    dsimp only
    unfold callHost
    split
    · rename_i hprint
      subst hprint
      rw [← ht.world_printed]
      have hcalled : Steps linked
          ((t.printed args).at (loc.skip 1) env (.nativeResult :: .value .undefined :: st)) 1
          ((t.printed args).at (loc.skip 2) env (.value .undefined :: st)) := step_called hat.right
      exact .now (ht.note _ env)
        ((step_fetchPrint hat.left hlook (hm.native? _)).trans hcalled) ⟨trivial, rfl⟩
    · rename_i hprint
      refine .here ht ⟨trivial, raises_fetchCallee hat.left hlook ?_⟩
      rw [hm.hasNative]
      exact decide_eq_false hprint

/-! ## expressions -/

theorem ExprForm.literal_ne {form : ExprForm} (hlit : form.literal? = some v)
    (hlang : form.InLanguage) : v ≠ .number (-0) := by
  cases form <;> cases hlit
  case number x => exact fun heq => hlang (Value.number.inj heq)
  all_goals exact nofun

theorem ExprForm.literal_simple {form : ExprForm} (hlit : form.literal? = some v) :
    v.Simple functions.length := by
  cases form <;> cases hlit <;> trivial

theorem evalForm_literal {form : ExprForm} (hlit : form.literal? = some v) (w : World) :
    evalForm functions linked.global call env form w = some (.ok v, w) := by
  cases form <;> cases hlit <;> rfl

/-- the jump over the right side, which is taken where the left side decides -/
theorem step_logical {op : LogicalOp} {l : Label} {loc' : Location}
    (h : At linked.program loc (one (op.toOp l) range)) (hl : linked.labels.resolve? l = some loc') :
    Steps linked (t.at loc env (.value v :: st)) 1
      (t.at (if v.isTruthy = op.decided then loc' else loc.skip 1) env st) := by
  cases op with
  | and =>
    have hstep : Steps linked (t.at loc env (.value v :: st)) 1
        (t.at (if v.isTruthy then loc.skip 1 else loc') env st) := step_jumpFalse h hl
    cases hv : v.isTruthy <;> rw [hv] at hstep <;> exact hstep
  | or =>
    have hstep : Steps linked (t.at loc env (.value v :: st)) 1
        (t.at (if v.isTruthy then loc' else loc.skip 1) env st) := step_jumpTrue h hl
    cases hv : v.isTruthy <;> rw [hv] at hstep <;> exact hstep

theorem evalForm_logical (op : LogicalOp) (left right : Expr) :
    evalForm functions linked.global call env (.logical op left right) = (do
      let a ← evalExpr functions linked.global call env left
      if a.isTruthy = op.decided then pure (.bool op.decided)
      else evalExpr functions linked.global call env right) := by
  cases op with
  | and =>
    rw [evalForm]
    refine congrArg _ (funext fun a => ?_)
    cases a.isTruthy <;> rfl
  | or =>
    rw [evalForm]
    refine congrArg _ (funext fun a => ?_)
    cases a.isTruthy <;> rfl

theorem ExprForm.not_path {callee : Expr} {args : List Expr}
    (h : (ExprForm.call callee args).InLanguage) (hplain : callee.form.isPath = false) : False := by
  obtain ⟨form, r⟩ := callee
  cases form <;> first | exact h | cases hplain

theorem simple_applyBinary (h : Heap) (op : BinaryOp) (a b : Value) :
    (h.applyBinary op a b).Simple functions.length := by
  cases op with
  | add =>
    show (h.add a b).Simple functions.length
    unfold Heap.add
    split <;> trivial
  | _ => trivial

mutual

/-- **The code of an expression follows its evaluation.** -/
theorem follows_expr (hm : linked.Means functions) (hcall : Calls linked functions call fuel)
    (e : Expr) (hlang : e.InLanguage) {ctx : Context} {b b' : Builder} {c : Code}
    (hc : ExprCode ctx e b c b') (hctx : ctx.Plain) (hb : b'.Within linked.program)
    {loc : Location} (hat : At linked.program loc c) {t : Twin}
    (ht : t.Ok linked.global functions.length) (hs : Sees linked.global t (· ∈ e.mentions) env env)
    (st : List Slot) :
    Follows linked functions.length fuel env t (t.at loc env st)
      (evalExpr functions linked.global call env e t.world)
      (GivesValue linked functions.length (loc.skip c.length) env st) := by
  match e, hlang, hc, hs with
  | .node form range, hlang, .literal hlit, _ =>
    rw [evalExpr, evalForm_literal hlit]
    exact follows_constant hm ht hb (ExprForm.literal_ne hlit hlang) (ExprForm.literal_simple hlit) hat
  | .node (.variable name) range, hlang, .variable, hs =>
    rw [hctx.resolve] at hat
    exact follows_name hm ht hs hlang List.mem_cons_self hat
  | .node (.assign (.node (.variable name) r) value) range, hlang, .assignVariable hv, hs =>
    have hvalue := follows_expr hm hcall value hlang.2 hv hctx hb hat.left ht
      (hs.mono fun x hx => List.mem_append_right _ hx) st
    rw [Location.skip_append]
    refine hvalue.eval (.refl st) fun v t' hmoves hv => ?_
    exact follows_assign hmoves.ok (hs.moves hmoves) hlang.1
      (List.mem_append_left _ List.mem_cons_self) hv hat.right
  | .node (.assign (.node (.index object key) r) value) range, hlang, .assignIndex ho hv hk, hs =>
    rw [List.append_assoc, List.append_assoc] at hat ⊢
    simp only [Location.skip_append]
    have hobject := follows_expr hm hcall object hlang.1 ho hctx
      (hv.grows.within (hk.grows.within hb)) hat.left ht
      (hs.mono fun x hx => List.mem_append_left _ (List.mem_append_left _ hx)) st
    refine hobject.eval (.refl st) fun o t₁ hm₁ ho => ?_
    have hvalue := follows_expr hm hcall value hlang.2.1 hv hctx (hk.grows.within hb)
      hat.right.left hm₁.ok ((hs.moves hm₁).mono fun x hx => List.mem_append_right _ hx)
      (.value o :: st)
    refine hvalue.eval (.value o st) fun v t₂ hm₂ hv => ?_
    have hkey := follows_expr hm hcall key hlang.2.2 hk hctx hb hat.right.right.left hm₂.ok
      (((hs.moves hm₁).moves hm₂).mono fun x hx =>
        List.mem_append_left _ (List.mem_append_right _ hx)) (.value v :: .value o :: st)
    refine hkey.eval (.values [v, o] st) fun k t₃ hm₃ hk => ?_
    have hargs : ∀ x ∈ [k, v], x.Simple functions.length :=
      List.forall_mem_cons.mpr ⟨hk, List.forall_mem_singleton.mpr hv⟩
    exact follows_index hm₃.ok ho hargs (.inr rfl) hat.right.right.right
  | .node (.binary op left right) range, hlang, .binary hl hr, hs =>
    rw [List.append_assoc] at hat ⊢
    simp only [Location.skip_append]
    have hleft := follows_expr hm hcall left hlang.1 hl hctx (hr.grows.within hb) hat.left ht
      (hs.mono fun x hx => List.mem_append_left _ hx) st
    refine hleft.eval (.refl st) fun a t₁ hm₁ ha => ?_
    have hright := follows_expr hm hcall right hlang.2 hr hctx hb hat.right.left hm₁.ok
      ((hs.moves hm₁).mono fun x hx => List.mem_append_right _ hx) (.value a :: st)
    refine hright.eval (.value a st) fun v t₂ hm₂ hv => ?_
    refine .now (hm₂.ok.moves_refl env) (step_binary hat.right.right) ⟨?_, ?_⟩
    · exact simple_applyBinary _ op a v
    · rw [Heap.applyBinary_congr hm₂.ok.arrays]
      rfl
  | .node (.logical op left right) range, hlang, .logical hl hr, hs =>
    have hb₂ := (Grows.constant _ _ range rfl).within hb
    unfold logicalCode at hat ⊢
    simp only [List.append_assoc] at hat ⊢
    simp only [Location.skip_append, length_one, length_place]
    have hleft := follows_expr hm hcall left hlang.1 hl hctx (hr.grows.within hb₂) hat.left ht
      (hs.mono fun x hx => List.mem_append_left _ hx) st
    rw [evalExpr, evalForm_logical]
    refine hleft.eval (.refl st) fun a t₁ hm₁ ha => ?_
    -- behind the jump: the right side, the jump over the literal, the literal, the end
    have hright := hat.right.right
    have hliteral := hright.right.right
    have hdone := hliteral.right.right
    refine .steps hm₁.ok (step_logical hat.right.left (hm.labels _ _ hliteral.left)) ?_
    by_cases hdecided : a.isTruthy = op.decided
    · rw [if_pos hdecided, if_pos hdecided]
      refine .steps hm₁.ok (step_label hliteral.left) ?_
      exact (follows_constant hm hm₁.ok hb nofun trivial hliteral.right.left).value
        fun v t' => step_label hdone
    · rw [if_neg hdecided, if_neg hdecided]
      have hvalue := follows_expr hm hcall right hlang.2 hr hctx hb₂ hright.left hm₁.ok
        ((hs.moves hm₁).mono fun x hx => List.mem_append_right _ hx) st
      exact hvalue.value fun v t' =>
        (step_jump hright.right.left (hm.labels _ _ hdone)).trans (step_label hdone)
  | .node (.unary op operand) range, hlang, .unary ho, hs =>
    have hoperand := follows_expr hm hcall operand hlang ho hctx hb hat.left ht hs st
    rw [Location.skip_append]
    cases op with
    | neg =>
      refine hoperand.eval (.refl st) fun v t' hmoves _ => ?_
      exact .now (hmoves.ok.moves_refl env) (step_neg hat.right) ⟨trivial, rfl⟩
    | not =>
      refine hoperand.eval (.refl st) fun v t' hmoves _ => ?_
      exact .now (hmoves.ok.moves_refl env) (step_not hat.right) ⟨trivial, rfl⟩
  | .node (.call (.node (.variable name) r) args) range, hlang, .callVariable _ ha, hs =>
    rw [List.append_assoc] at hat ⊢
    rw [Location.skip_append]
    have hvalues := follows_args hm hcall args hlang.2 ha hctx hb hat.left ht
      (hs.mono fun x hx => List.mem_append_right _ hx) st
    refine hvalues.eval (.refl st) fun vs t' hmoves hvs => ?_
    obtain ⟨hlen, hvs⟩ := hvs
    have hcode := hat.right
    rw [← hlen, hctx.resolve] at hcode
    exact follows_callName hm hcall hmoves.ok (hs.moves hmoves) hlang.1
      (List.mem_append_left _ List.mem_cons_self) hvs hcode
  | .node (.call callee args) range, hlang, .callValue _ hplain _ _, _ =>
    exact (ExprForm.not_path hlang hplain).elim
  | .node (.member object property) range, hlang, .member ho, hs =>
    have hobject := follows_expr hm hcall object hlang ho hctx hb hat.left ht hs st
    rw [Location.skip_append]
    refine hobject.eval (.refl st) fun v t' hmoves hv => ?_
    exact follows_property hmoves.ok hv hat.right
  | .node (.index object key) range, hlang, .index ho hk, hs =>
    rw [List.append_assoc] at hat ⊢
    simp only [Location.skip_append]
    have hobject := follows_expr hm hcall object hlang.1 ho hctx (hk.grows.within hb) hat.left ht
      (hs.mono fun x hx => List.mem_append_left _ hx) st
    refine hobject.eval (.refl st) fun o t₁ hm₁ ho => ?_
    have hkey := follows_expr hm hcall key hlang.2 hk hctx hb hat.right.left hm₁.ok
      ((hs.moves hm₁).mono fun x hx => List.mem_append_right _ hx) (.value o :: st)
    refine hkey.eval (.value o st) fun k t₂ hm₂ hk => ?_
    exact follows_index hm₂.ok ho (List.forall_mem_singleton.mpr hk) (.inl rfl) hat.right.right
  | .node (.array elements) range, hlang, .array ha, hs =>
    have hvalues := follows_args hm hcall elements hlang ha hctx hb hat.left ht hs st
    rw [Location.skip_append]
    refine hvalues.eval (.refl st) fun vs t' hmoves hvs => ?_
    obtain ⟨hlen, hvs⟩ := hvs
    have hcode := hat.right
    rw [← hlen] at hcode
    exact follows_array hmoves.ok hvs hcode
  | .node .this _, hlang, .this, _ => exact hlang.elim
  | .node (.assign (.node (.member _ _) _) _) _, hlang, .assignMember _ _, _ => exact hlang.elim
  | .node (.call (.node (.member _ _) _) _) _, hlang, .callMember _ _ _, _ => exact hlang.elim
  | .node (.new _ _) _, hlang, .new _ _, _ => exact hlang.elim
  | .node (.function _) _, hlang, .function _, _ => exact hlang.elim

theorem follows_args (hm : linked.Means functions) (hcall : Calls linked functions call fuel)
    (es : List Expr) (hlang : Expr.AllInLanguage es) {ctx : Context} {b b' : Builder} {c : Code}
    (hc : ArgsCode ctx es b c b') (hctx : ctx.Plain) (hb : b'.Within linked.program)
    {loc : Location} (hat : At linked.program loc c) {t : Twin}
    (ht : t.Ok linked.global functions.length)
    (hs : Sees linked.global t (· ∈ Expr.mentionsAll es) env env) (st : List Slot) :
    Follows linked functions.length fuel env t (t.at loc env st)
      (evalArgs functions linked.global call env es t.world)
      (GivesValues linked functions.length es.length (loc.skip c.length) env st) := by
  match es, hlang, hc, hs with
  | [], _, .nil, _ => exact .here ht ⟨⟨rfl, nofun⟩, rfl⟩
  | e :: rest, hlang, .cons hr he, hs =>
    rw [Location.skip_append]
    have hrest := follows_args hm hcall rest hlang.2 hr hctx (he.grows.within hb) hat.left ht
      (hs.mono fun x hx => List.mem_append_right _ hx) st
    refine hrest.eval (.refl st) fun vs t₁ hm₁ hvs => ?_
    obtain ⟨hlen, hvs⟩ := hvs
    have hfirst := follows_expr hm hcall e hlang.1 he hctx hb hat.right hm₁.ok
      ((hs.moves hm₁).mono fun x hx => List.mem_append_left _ hx) (vs.map .value ++ st)
    refine hfirst.eval (.values vs st) fun v t₂ hm₂ hv => ?_
    exact .here hm₂.ok ⟨⟨congrArg (· + 1) hlen, List.forall_mem_cons.mpr ⟨hv, hvs⟩⟩, rfl⟩

end

end

end ScriptMachine
