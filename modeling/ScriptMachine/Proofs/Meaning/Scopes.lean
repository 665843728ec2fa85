import ScriptMachine.Proofs.Meaning.Exits

/-!
# Code in scopes

* `Knows`               what the code of a statement needs of the environment that it runs in;
* `Follows.seq`         one statement after the other;
* `Follows.inScope`     a scope of its own, which machine and evaluator may make in different
                        environments;
* `follows_declare`     a declaration with a value;
* `BodyFollowed`        statements in a row that are followed wherever their code stands.
-/

namespace ScriptMachine

/-! ## environments -/

/-- From `env` machine and evaluator find the same under the names of `mentions`, and it may bind the
names of `own`. -/
structure Knows (global : EnvId) (n : Nat) (t : Twin) (env : EnvId) (mentions own : List String) :
    Prop where
  ok : t.Ok global n
  sees : Sees global t (· ∈ mentions) env env
  own : ∀ name ∈ own, env ≠ global → name ∈ t.names env

theorem Sees.lt_size {global e e' : EnvId} {n : Nat} {t : Twin} {V : String → Prop}
    (h : Sees global t V e e') (ht : t.Ok global n) : e.index < t.heap.cells.size := by
  cases h with
  | global => exact ht.root
  | keep hp _ _ => exact parent?_lt_size hp
  | skip hp _ _ _ => exact parent?_lt_size hp

namespace Knows

variable {global env e : EnvId} {n : Nat} {t t' : Twin} {mentions mentions' own own' : List String}

theorem lt_size (h : Knows global n t env mentions own) : env.index < t.heap.cells.size :=
  h.sees.lt_size h.ok

theorem moves (h : Knows global n t env mentions own) (hm : t.Moves global n e t') :
    Knows global n t' env mentions own where
  ok := hm.ok
  sees := h.sees.moves hm
  own name hname hne := by
    rw [hm.names env h.lt_size]
    exact h.own name hname hne

theorem mono (h : Knows global n t env mentions own) (hm : ∀ name ∈ mentions', name ∈ mentions)
    (ho : ∀ name ∈ own', name ∈ own) : Knows global n t env mentions' own' :=
  ⟨h.ok, h.sees.mono hm, fun name hname => h.own name (ho name hname)⟩

/-- in a new scope, which the evaluator may make elsewhere -/
theorem enter (ht : t.Ok global n) (hs : Sees global t (· ∈ mentions) e env)
    (henv : env.index < t.heap.cells.size) (names : List String) :
    Knows global n (t.enter e env names) t.next mentions names where
  ok := (ht.enter e env names e).ok
  sees := ht.sees_enter hs (hs.lt_size ht) henv names
  own name hname _ := by
    rw [Twin.names_enter]
    exact hname

end Knows

/-- a scope stays where it was made -/
theorem Twin.Moves.parent?_next {global e e' d : EnvId} {n : Nat} {t t' : Twin} {names : List String}
    (hm : (t.enter e e' names).Moves global n d t') (he : e.index < t.heap.cells.size) :
    t'.heap.parent? t.next = some e := by
  have hparent : (t.enter e e' names).heap.parent? t.next = some e := Twin.parent?_enter he e' names
  rw [hm.heap.parent _ (parent?_lt_size hparent), hparent]

/-! ## effects -/

/-- nothing, but it counts as an end of this kind -/
def Effect.ended (c : Completion) : Effect := fun w => some (c, w)

/-- what is done with the result of an expression -/
def Effect.given {α : Type} (f : α → Effect) : Except Value α → Effect
  | .ok a => f a
  | .error v => ended (.throws v)

theorem Effect.ofEval_apply {α : Type} (x : Eval α) (f : α → Effect) (w : World) :
    Effect.ofEval x f w = (x w).bind fun r => Effect.given f r.1 r.2 := by
  unfold Effect.ofEval
  rcases x w with - | ⟨- | a, w'⟩ <;> rfl

/-- an effect, and another one by how it ended -/
def Effect.andThen (first : Effect) (next : Completion → Effect) : Effect := fun w =>
  (first w).bind fun r => next r.1 r.2

/-- what is done after a statement -/
def Effect.next (second : Effect) : Completion → Effect
  | .normal => second
  | c => ended c

theorem Effect.seq_eq (first second : Effect) : seq first second = first.andThen (next second) := by
  funext w
  unfold seq andThen
  rcases first w with - | ⟨- | - | - | - | -, w'⟩ <;> rfl

theorem Effect.next_of_ne {second : Effect} {c : Completion} (hc : c ≠ .normal) :
    next second c = ended c := by
  cases c with
  | normal => exact absurd rfl hc
  | _ => rfl

section
variable {α : Type} {linked : Linked} {n fuel : Nat} {env e : EnvId} {t : Twin} {s : State}
  {loc stop stop' : Location} {st st' : List Slot} {ctx : Context} {X X' : List String}
  {range : TokenRange}

theorem Follows.ofEval {x : Eval α} {f : α → Effect} {good : α → Prop} {slots : α → List Slot}
    (h : Follows linked n fuel env t s (x t.world) (Gives linked n stop env st good slots))
    (hp : Passes st st')
    (hf : ∀ a t', t.Moves linked.global n env t' → good a →
      Follows linked n fuel env t' (t'.at stop env (slots a ++ st)) (f a t'.world)
        (Reaches linked n ctx stop' env st' X)) :
    Follows linked n fuel env t s (Effect.ofEval x f t.world) (Reaches linked n ctx stop' env st' X) := by
  rw [Effect.ofEval_apply]
  refine h.bind (f := Effect.given f) fun r t' s' hm hr => ?_
  cases r with
  | error v => exact .here hm.ok (.throws hr.1 (hr.2.passes hp))
  | ok a =>
    obtain ⟨ha, rfl⟩ := hr
    exact hf a t' hm ha

/-- where the statement ends normally the machine goes on -/
theorem Follows.onward {r : Option (Completion × World)} {k : Nat}
    (h : Follows linked n fuel env t s r (Reaches linked n ctx stop env st X))
    (hX : ∀ name ∈ X, name ∈ X')
    (hgo : ∀ t' : Twin, Steps linked (t'.at stop env st) k (t'.at stop' env st)) :
    Follows linked n fuel env t s r (Reaches linked n ctx stop' env st X') := by
  refine h.go fun c t' s' _ hr => ?_
  by_cases hc : c = .normal
  · subst hc
    cases hr.eq_at
    exact ⟨k, _, hgo t', .normal⟩
  · exact ⟨0, s', .refl, hr.outside hc .here hX stop'⟩

theorem Follows.andThen {first : Effect} {next : Completion → Effect}
    {ends ends' : Completion → Twin → State → Prop}
    (h : Follows linked n fuel env t s (first t.world) ends)
    (hf : ∀ c t' s', t.Moves linked.global n env t' → ends c t' s' →
      Follows linked n fuel env t' s' (next c t'.world) ends') :
    Follows linked n fuel env t s (first.andThen next t.world) ends' := h.bind hf

/-- one effect after the other, unless the first one does not end normally -/
theorem Follows.next {first second : Effect} {ends ends' : Completion → Twin → State → Prop}
    (h : Follows linked n fuel env t s (first t.world) ends)
    (hnormal : ∀ t' s', t.Moves linked.global n env t' → ends .normal t' s' →
      Follows linked n fuel env t' s' (second t'.world) ends')
    (hother : ∀ c t' s', c ≠ .normal → t.Moves linked.global n env t' → ends c t' s' →
      ∃ k s'', Steps linked s' k s'' ∧ ends' c t' s'') :
    Follows linked n fuel env t s (Effect.seq first second t.world) ends' := by
  rw [Effect.seq_eq]
  refine h.andThen fun c t' s' hm hends => ?_
  by_cases hc : c = .normal
  · subst hc
    exact hnormal t' s' hm hends
  · obtain ⟨k, s'', hs, hends'⟩ := hother c t' s' hc hm hends
    rw [Effect.next_of_ne hc]
    exact .now (hm.ok.moves_refl env) hs hends'

/-- one statement after the other -/
theorem Follows.seq {first second : Effect}
    (h : Follows linked n fuel env t s (first t.world) (Reaches linked n ctx stop env st X))
    (hX : ∀ name ∈ X, name ∈ X')
    (hf : ∀ t', t.Moves linked.global n env t' →
      Follows linked n fuel env t' (t'.at stop env st) (second t'.world)
        (Reaches linked n ctx stop' env st X')) :
    Follows linked n fuel env t s (Effect.seq first second t.world)
      (Reaches linked n ctx stop' env st X') := by
  refine h.next (fun t' s' hm hr => ?_) fun c t' s' hc _ hr => ?_
  · cases hr.eq_at
    exact hf t' hm
  · exact ⟨0, s', .refl, hr.outside hc .here hX stop'⟩

/-- A scope of its own.  The machine makes it in `e` and the evaluator in `env`. -/
theorem Follows.entered (ht : t.Ok linked.global n) {f : EnvId → Effect} {names : List String}
    {ends ends' : Completion → Twin → State → Prop} (he : e.index < t.heap.cells.size)
    (henter : At linked.program loc (one .enterScope range))
    (h : Follows linked n fuel t.next (t.enter e env names)
      ((t.enter e env names).at (loc.skip 1) t.next st) (f t.next (t.enter e env names).world) ends)
    (hgo : ∀ c t' s', t'.heap.parent? t.next = some e → Inside linked.global t' names t.next e →
      ends c t' s' → ∃ k s'', Steps linked s' k s'' ∧ ends' c t' s'') (d : EnvId) :
    Follows linked n fuel d t (t.at loc e st) (Effect.inScope env f t.world) ends' := by
  have hscope : Effect.inScope env f t.world = f t.next (t.enter e env names).world := by
    show f (t.world.heap.newScope env).1 _ = _
    rw [ht.fst_newScope]
    rfl
  rw [hscope]
  refine .after (ht.enter e env names d) (step_enterScope henter env names) (.inr (Nat.le_refl _))
    (h.go fun c t' s' hm hends => hgo c t' s' ?_ ?_ hends)
  · exact hm.parent?_next he
  · refine .up (hm.parent?_next he) ht.next_ne (fun name hname => ?_) .here
    rwa [hm.names _ (parent?_lt_size (Twin.parent?_enter he env names)), Twin.names_enter] at hname

/-- a block -/
theorem Follows.inScope (ht : t.Ok linked.global n) {f : EnvId → Effect} {names : List String}
    (he : e.index < t.heap.cells.size) (henter : At linked.program loc (one .enterScope range))
    (hleave : At linked.program stop (one .leaveScope range))
    (h : Follows linked n fuel t.next (t.enter e env names)
      ((t.enter e env names).at (loc.skip 1) t.next st) (f t.next (t.enter e env names).world)
      (Reaches linked n ctx stop t.next st X)) (d : EnvId) :
    Follows linked n fuel d t (t.at loc e st) (Effect.inScope env f t.world)
      (Reaches linked n ctx (stop.skip 1) e st (names ++ X)) := by
  refine Follows.entered ht he henter h (fun c t' s' hparent hin hr => ?_) d
  by_cases hc : c = .normal
  · subst hc
    cases hr.eq_at
    exact ⟨1, _, step_leaveScope hleave hparent, .normal⟩
  · exact ⟨0, s', .refl, hr.outside hc (hin.mono fun x hx => List.mem_append_left _ hx)
      (fun x hx => List.mem_append_right _ hx) _⟩

end

/-! ## declarations -/

section
variable {linked : Linked} {functions : List FunctionDecl} {fuel : Nat} {env : EnvId} {t : Twin}
  {loc stop : Location} {st st' : List Slot} {ctx : Context} {X mentions own : List String}
  {range : TokenRange} {name : String}

/-- a declaration, then a value, which is stored -/
theorem follows_declare {x : Eval Value}
    (hk : Knows linked.global functions.length t env mentions own) (hname : name ≠ returnSlot)
    (hmem : name ∈ mentions) (hown : name ∈ own)
    (hdeclare : At linked.program loc (one (.declare name) range))
    (hstore : At linked.program stop (one (.store name false) range ++ one .pop range))
    (hx : ∀ t', t.Moves linked.global functions.length env t' →
      Follows linked functions.length fuel env t' (t'.at (loc.skip 1) env st') (x t'.world)
        (GivesValue linked functions.length stop env st)) :
    Follows linked functions.length fuel env t (t.at loc env st')
      (declareWith linked.global env name x t.world)
      (Reaches linked functions.length ctx (stop.skip 2) env st X) := by
  have hdefine : t.Moves linked.global functions.length env (t.define env name .undefined) :=
    hk.ok.define (v := .undefined) hname trivial (hk.own name hown) env
  refine .after hdefine (step_declare hdeclare) (.inl rfl) ?_
  refine (hx _ hdefine).ofEval (.refl st) fun v t₁ hm₁ hv => ?_
  have hs := (hk.sees.moves hdefine).moves hm₁
  have hassign : Steps linked (t₁.at stop env (.value v :: st)) (1 + 1)
      ((t₁.assign linked.global env name v).at (stop.skip 2) env st) :=
    (step_assign hs hm₁.ok hname hmem hstore.left).trans (step_pop hstore.right)
  exact .now (hm₁.ok.assign hs hname hmem hv env) hassign .normal

end

/-! ## statements in a row -/

section
variable (linked : Linked) (functions : List FunctionDecl) (call : Nat → List Value → Eval Value)
  (fuel : Nat)

/-- The code of a statement follows its evaluation wherever it stands. -/
def StmtFollowed (stmt : Stmt) : Prop :=
  ∀ (ctx : Context) (b b' : Builder) (c : Code), StmtCode ctx stmt b c b' → ctx.Plain →
    b'.Within linked.program → ∀ loc : Location, At linked.program loc c →
    ∀ (t : Twin) (env : EnvId) (st : List Slot),
      Knows linked.global functions.length t env stmt.mentions stmt.direct →
      Follows linked functions.length fuel env t (t.at loc env st)
        (exec functions linked.global call fuel env stmt t.world)
        (Reaches linked functions.length ctx (loc.skip c.length) env st stmt.inner)

/-- the same for statements in a row -/
def BodyFollowed (body : List Stmt) : Prop :=
  ∀ (ctx : Context) (b b' : Builder) (c : Code), BodyCode ctx body b c b' → ctx.Plain →
    b'.Within linked.program → ∀ loc : Location, At linked.program loc c →
    ∀ (t : Twin) (env : EnvId) (st : List Slot),
      Knows linked.global functions.length t env (Stmt.mentionsAll body) (Stmt.directAll body) →
      Follows linked functions.length fuel env t (t.at loc env st)
        (execAll functions linked.global call fuel env body t.world)
        (Reaches linked functions.length ctx (loc.skip c.length) env st (Stmt.innerAll body))

end

namespace BodyFollowed

variable {linked : Linked} {functions : List FunctionDecl} {call : Nat → List Value → Eval Value}
  {fuel : Nat} {stmt : Stmt} {rest : List Stmt}

theorem nil : BodyFollowed linked functions call fuel [] := by
  intro ctx b b' c hc _ _ loc _ t env st hk
  cases hc with
  | nil => exact .here hk.ok .normal

theorem cons (hstmt : StmtFollowed linked functions call fuel stmt)
    (hrest : BodyFollowed linked functions call fuel rest) :
    BodyFollowed linked functions call fuel (stmt :: rest) := by
  intro ctx b b' c hc hctx hb loc hat t env st hk
  cases hc with
  | cons hs hr =>
    rw [Location.skip_append]
    have hfirst := hstmt _ _ _ _ hs hctx (hr.grows.within hb) loc hat.left t env st
      (hk.mono (fun name hname => List.mem_append_left _ hname)
        fun name hname => List.mem_append_left _ hname)
    refine hfirst.seq (fun name hname => List.mem_append_left _ hname) fun t' hmoves => ?_
    have hafter := hrest _ _ _ _ hr hctx hb _ hat.right t' env st
      ((hk.moves hmoves).mono (fun name hname => List.mem_append_right _ hname)
        fun name hname => List.mem_append_right _ hname)
    exact hafter.onward (fun name hname => List.mem_append_right _ hname) fun _ => .refl

end BodyFollowed

theorem length_blockCode (range : TokenRange) (c : Code) : (blockCode range c).length = c.length + 2 := by
  unfold blockCode
  rw [List.length_append, List.length_append, length_one, length_one, Nat.add_comm 1, Nat.add_assoc]

section
variable {linked : Linked} {functions : List FunctionDecl} {call : Nat → List Value → Eval Value}
  {fuel : Nat} {body : List Stmt} {ctx : Context} {b b' : Builder} {c : Code} {range : TokenRange}
  {loc : Location} {t : Twin} {e env : EnvId}

/-- A block, which the machine may run in another environment than the evaluator. -/
theorem BodyFollowed.block (h : BodyFollowed linked functions call fuel body)
    (hc : BodyCode ctx body b c b') (hctx : ctx.Plain) (hb : b'.Within linked.program)
    (hat : At linked.program loc (blockCode range c)) (ht : t.Ok linked.global functions.length)
    (hs : Sees linked.global t (· ∈ Stmt.mentionsAll body) e env)
    (henv : env.index < t.heap.cells.size) (st : List Slot) (d : EnvId) :
    Follows linked functions.length fuel d t (t.at loc e st)
      (Effect.inScope env (fun scope => execAll functions linked.global call fuel scope body) t.world)
      (Reaches linked functions.length ctx (loc.skip (c.length + 2)) e st
        (Stmt.directAll body ++ Stmt.innerAll body)) := by
  have hbody := h ctx b b' c hc hctx hb (loc.skip 1) hat.left.right (t.enter e env (Stmt.directAll body))
    t.next st (.enter ht hs henv _)
  have hleave : At linked.program ((loc.skip 1).skip c.length) (one .leaveScope range) := by
    have hright := hat.right
    rwa [Location.skip_append] at hright
  have hstop : ((loc.skip 1).skip c.length).skip 1 = loc.skip (c.length + 2) := by
    rw [Location.skip_skip, Location.skip_skip]
    exact congrArg loc.skip (by omega)
  rw [← hstop]
  exact Follows.inScope ht (hs.lt_size ht) hat.left.left hleave hbody d

end

end ScriptMachine
