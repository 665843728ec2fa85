import ScriptMachine.Proofs.Lowering.Reentry

/-!
# The stacks of a compilation are restored

The compiler that keeps the scopes in its state ends on every syntax tree: its calls get smaller on the
way, and so do those that take up the finalizers around a jump.  It does what `Compile` does, and whether
it succeeds or not, the stacks are those that it has begun with.

* `CompilerState.stacked`   the state inside some scopes;
* `Reentrant.Mirrors`       a step that does what a step of `Compile` does and restores the stacks;
* `Reentrant.mirrors_crossExits`   the finalizers around a jump, each under the scopes around its region;
* `Reentrant.Faithful`      all calls below a bound;
* `reentry_restores`        the main statement.
-/

namespace ScriptMachine

/-! ## stacks -/

namespace ExitScope

/-- the labels of the loops among the scopes -/
def loopsOf : List ExitScope → List LoopLabels
  | [] => []
  | .loop next done :: outer => ⟨next, done⟩ :: loopsOf outer
  | _ :: outer => loopsOf outer

/-- the scopes as they stand on the stack: loops without their labels, and regions with the number of the
loops around them -/
def exitsOf : List ExitScope → List Exit
  | [] => []
  | .loop _ _ :: outer => .loop :: exitsOf outer
  | .guarded finalizer :: outer => .guarded finalizer (loopsOf outer).length :: exitsOf outer
  | .pendingThrow :: outer => .pendingThrow :: exitsOf outer

theorem scopesOf_stacks (scopes : List ExitScope) : scopesOf (exitsOf scopes) (loopsOf scopes) = scopes := by
  induction scopes with
  | nil => rfl
  | cons scope outer ih =>
    cases scope with
    | loop next done => exact congrArg (.loop next done :: ·) ih
    | guarded finalizer => exact congrArg (.guarded finalizer :: ·) ih
    | pendingThrow => exact congrArg (.pendingThrow :: ·) ih

theorem loopsOf_append (inner outer : List ExitScope) :
    loopsOf (inner ++ outer) = loopsOf inner ++ loopsOf outer := by
  induction inner with
  | nil => rfl
  | cons scope inner ih =>
    cases scope with
    | loop next done => exact congrArg (⟨next, done⟩ :: ·) ih
    | guarded => exact ih
    | pendingThrow => exact ih

theorem drop_exitsOf (inner outer : List ExitScope) :
    (exitsOf (inner ++ outer)).drop inner.length = exitsOf outer := by
  induction inner with
  | nil => rfl
  | cons scope inner ih =>
    cases scope with
    | loop next done => exact ih
    | guarded => exact ih
    | pendingThrow => exact ih

end ExitScope

open ExitScope

/-- The state inside some scopes.  A compilation begins inside none, and every state that it comes to is
inside the scopes around the code that it is at. -/
def CompilerState.stacked (b : Builder) (scopes : List ExitScope) : CompilerState :=
  ⟨b, exitsOf scopes, loopsOf scopes⟩

namespace Reentrant

/-- the outcome is the result of a step of `Compile`, and the stacks are those of the scopes -/
def Returns {α : Type} (scopes : List ExitScope) :
    Except CompileError (α × Builder) → Option (Except CompileError α × CompilerState) → Prop
  | .ok (a, b'), out => out = some (.ok a, .stacked b' scopes)
  | .error e, out => ∃ b', out = some (.error e, .stacked b' scopes)

/-- Inside the scopes, the step does what a step of `Compile` does, and leaves the stacks as they were. -/
def Mirrors {α : Type} (scopes : List ExitScope) (run : Reentrant α) (step : Compile α) : Prop :=
  ∀ b, Returns scopes (step b) (run.outcome (.stacked b scopes))

section
variable {α β : Type} {scopes : List ExitScope} {run : Reentrant α} {step : Compile α}

theorem outcome_bind (run : Reentrant α) (f : α → Reentrant β) (s : CompilerState) :
    (run >>= f).outcome s = (run.outcome s).bind fun r =>
      match r.1 with
      | .ok a => (f a).outcome r.2
      | .error e => some (.error e, r.2) := by
  show (run.outcome s).bind (fun r => ExceptT.bindCont f r.1 r.2) = _
  congr 1
  funext ⟨r, s'⟩
  cases r with
  | ok a => rfl
  | error e => rfl

theorem outcome_within (enter leave : CompilerState → CompilerState) (m : Reentrant α) (s : CompilerState) :
    (within enter leave m).outcome s = (m.outcome (enter s)).map fun r => (r.1, leave r.2) := rfl

/-- behind what reads the state, in the state that it has read -/
theorem Mirrors.read {γ : Type} {reading : Reentrant γ} {c : γ} {f : γ → Reentrant α}
    (hread : ∀ b, reading.outcome (.stacked b scopes) = some (.ok c, .stacked b scopes))
    (h : Mirrors scopes (f c) step) : Mirrors scopes (reading >>= f) step := by
  intro b
  rw [outcome_bind, hread]
  exact h b

theorem Mirrors.readExits {f : List Exit → Reentrant α} (h : Mirrors scopes (f (exitsOf scopes)) step) :
    Mirrors scopes (exits >>= f) step := .read (fun _ => rfl) h

theorem Mirrors.readLoops {f : List LoopLabels → Reentrant α}
    (h : Mirrors scopes (f (loopsOf scopes)) step) : Mirrors scopes (loops >>= f) step :=
  .read (fun _ => rfl) h

theorem Mirrors.readScopes {f : List ExitScope → Reentrant α} (h : Mirrors scopes (f scopes) step) :
    Mirrors scopes (Reentrant.scopes >>= f) step := by
  refine .read (fun b => ?_) h
  show some (Except.ok (scopesOf (exitsOf scopes) (loopsOf scopes)), _) = _
  rw [scopesOf_stacks]

theorem outcome_lift_ok {m : Compile α} {s : CompilerState} {a : α} {b : Builder}
    (h : m s.builder = .ok (a, b)) :
    (lift m).outcome s = some (.ok a, { s with builder := b }) := by
  simp only [outcome, lift, ExceptT.run, ExceptT.mk, StateT.run, h]

theorem outcome_lift_error {m : Compile α} {s : CompilerState} {e : CompileError}
    (h : m s.builder = .error e) : (lift m).outcome s = some (.error e, s) := by
  simp only [outcome, lift, ExceptT.run, ExceptT.mk, StateT.run, h]

theorem Mirrors.lift (m : Compile α) : Mirrors scopes (lift m) m := by
  intro b
  cases hm : m b with
  | ok r => exact outcome_lift_ok hm
  | error e => exact ⟨b, outcome_lift_error hm⟩

theorem Mirrors.pure (a : α) : Mirrors scopes (pure a) (pure a) := fun _ => rfl

/-- what stands behind an error does not matter -/
theorem Mirrors.throwBind {f : α → Reentrant β} {g : α → Compile β} (e : CompileError) :
    Mirrors scopes (throw e >>= f) (throw e >>= g) := fun b => ⟨b, rfl⟩

theorem Mirrors.throw (e : CompileError) : Mirrors scopes (throw e : Reentrant α) (throw e) :=
  fun b => ⟨b, rfl⟩

theorem Mirrors.bind {f : α → Reentrant β} {g : α → Compile β} (h : Mirrors scopes run step)
    (hf : ∀ a, Mirrors scopes (f a) (g a)) : Mirrors scopes (run >>= f) (step >>= g) := by
  intro b
  have hb := h b
  rw [outcome_bind]
  show Returns scopes (step b >>= fun x => g x.1 x.2) _
  cases hs : step b with
  | ok r =>
    rw [hs] at hb
    rw [hb]
    exact hf r.1 r.2
  | error e =>
    rw [hs] at hb
    obtain ⟨b', hb⟩ := hb
    rw [hb]
    exact ⟨b', rfl⟩

theorem Mirrors.ite {c : Prop} [Decidable c] {r r' : Reentrant α} {s s' : Compile α}
    (h : Mirrors scopes r s) (h' : Mirrors scopes r' s') :
    Mirrors scopes (if c then r else r') (if c then s else s') := by
  split
  · exact h
  · exact h'

/-- Scopes that are entered and left again do not matter for what is around, whether the step inside fails
or not. -/
theorem Mirrors.within (inner : List ExitScope) {enter leave : CompilerState → CompilerState}
    (henter : ∀ b, enter (.stacked b scopes) = .stacked b inner)
    (hleave : ∀ b, leave (.stacked b inner) = .stacked b scopes) (h : Mirrors inner run step) :
    Mirrors scopes (within enter leave run) step := by
  intro b
  have hb := h b
  rw [outcome_within, henter]
  cases hs : step b with
  | ok r =>
    rw [hs] at hb
    rw [hb]
    exact congrArg (fun s => some (Except.ok r.1, s)) (hleave r.2)
  | error e =>
    rw [hs] at hb
    obtain ⟨b', hb⟩ := hb
    rw [hb]
    exact ⟨b', congrArg (fun s => some (Except.error e, s)) (hleave b')⟩

theorem Mirrors.loopBody (labels : LoopLabels)
    (h : Mirrors (.loop labels.next labels.done :: scopes) run step) :
    Mirrors scopes (loopBody labels run) step := .within _ (fun _ => rfl) (fun _ => rfl) h

theorem Mirrors.withGuarded {finalizer : Option (List Stmt)}
    (h : Mirrors (.guarded finalizer :: scopes) run step) :
    Mirrors scopes (withExit (.guarded finalizer (loopsOf scopes).length) run) step :=
  .within _ (fun _ => rfl) (fun _ => rfl) h

theorem Mirrors.withThrow (h : Mirrors (.pendingThrow :: scopes) run step) :
    Mirrors scopes (withExit .pendingThrow run) step := .within _ (fun _ => rfl) (fun _ => rfl) h

theorem Mirrors.alone (h : Mirrors [] run step) : Mirrors scopes (alone run) step :=
  .readExits (.readLoops (.within _ (fun _ => rfl) (fun _ => rfl) h))

/-- the stacks cut down to the outer scopes are their stacks -/
theorem Mirrors.outside (inner : List ExitScope) {outer : List ExitScope} (h : Mirrors outer run step) :
    Mirrors (inner ++ outer) (outside inner.length (loopsOf outer).length run) step := by
  have hcount : (loopsOf (inner ++ outer)).length - (loopsOf outer).length = (loopsOf inner).length := by
    rw [loopsOf_append, List.length_append, Nat.add_sub_cancel]
  refine .readExits (.readLoops (.readLoops (.within outer (fun b => ?_) (fun b => ?_) h)))
  · show CompilerState.mk b ((exitsOf (inner ++ outer)).drop inner.length)
      ((loopsOf (inner ++ outer)).drop ((loopsOf (inner ++ outer)).length - (loopsOf outer).length)) = _
    rw [hcount, loopsOf_append, List.drop_left, drop_exitsOf]
    rfl
  · show CompilerState.mk b ((exitsOf (inner ++ outer)).take inner.length ++ exitsOf outer)
      ((loopsOf (inner ++ outer)).take ((loopsOf (inner ++ outer)).length - (loopsOf outer).length)
        ++ loopsOf outer) = _
    rw [hcount, ← drop_exitsOf inner outer, List.take_append_drop, loopsOf_append, List.take_left,
      ← loopsOf_append]
    rfl

/-- a call is made if it is smaller than the bound -/
theorem Mirrors.smaller {bound : Nat} {size : List ExitScope → Nat}
    {body : { n : Nat // n < bound } → Reentrant α} (hlt : size scopes < bound)
    (h : Mirrors scopes (body ⟨size scopes, hlt⟩) step) : Mirrors scopes (smaller bound size body) step := by
  refine .readScopes ?_
  rw [dif_pos hlt]
  exact h

theorem Mirrors.defineFunction {body : Reentrant Code} {code : Compile Code} (name : String)
    (params : List String) (h : Mirrors [] body code) :
    Mirrors scopes (defineFunction name params body) (Compile.defineFunction name params code) := by
  have hdefine : Compile.defineFunction name params code = (do
      let index ← modifyGet fun b => (b.functions.size, b.reserve name params)
      let c ← code
      modify fun b => b.fill index c
      return index) := rfl
  rw [hdefine]
  exact .bind (.lift _) fun _ => .bind h.alone fun _ => .bind (.lift _) fun _ => .pure _

/-! ## loops -/

variable {p : Surroundings}

theorem mirrors_reversed {compile : Expr → Reentrant Code} {es : List Expr}
    (h : ∀ e ∈ es, Mirrors scopes (compile e) (Compile.expr (p.context scopes) e)) :
    Mirrors scopes (reversed compile es) (Compile.exprsReversed (p.context scopes) es) := by
  induction es with
  | nil =>
    rw [reversed, Compile.exprsReversed]
    exact .pure _
  | cons e rest ih =>
    obtain ⟨he, hrest⟩ := List.forall_mem_cons.mp h
    rw [reversed, Compile.exprsReversed]
    exact .bind (ih hrest) fun _ => .bind he fun _ => .pure _

theorem mirrors_each {compile : Stmt → Reentrant Code} {body : List Stmt}
    (h : ∀ stmt ∈ body, Mirrors scopes (compile stmt) (Compile.statement (p.context scopes) stmt)) :
    Mirrors scopes (each compile body) (Compile.statements (p.context scopes) body) := by
  induction body with
  | nil =>
    rw [each, Compile.statements]
    exact .pure _
  | cons stmt rest ih =>
    obtain ⟨hstmt, hrest⟩ := List.forall_mem_cons.mp h
    rw [each, Compile.statements]
    exact .bind hstmt fun _ => .bind (ih hrest) fun _ => .pure _

theorem mirrors_methods {compile : String → FunctionDecl → Reentrant Nat} {className : String}
    {decls : List FunctionDecl}
    (h : ∀ decl ∈ decls, ∀ name, Mirrors scopes (compile name decl)
      (Compile.function (p.context scopes) name decl)) :
    Mirrors scopes (methods compile className decls)
      (Compile.methods (p.context scopes) className decls) := by
  induction decls with
  | nil =>
    rw [methods, Compile.methods]
    exact .pure _
  | cons decl rest ih =>
    obtain ⟨hdecl, hrest⟩ := List.forall_mem_cons.mp h
    rw [methods, Compile.methods]
    cases decl.name? with
    | none => exact .throw _
    | some name => exact .bind (hdecl _) fun _ => .bind (ih hrest) fun _ => .pure _

/-! ## parts that may be missing -/

theorem mirrors_valueOf {compile : Expr → Reentrant Code} {range : TokenRange} {e : Option Expr}
    (h : ∀ e', e = some e' → Mirrors scopes (compile e') (Compile.expr (p.context scopes) e')) :
    Mirrors scopes (optional compile (lift (Compile.constant .undefined range)) e)
      (Compile.valueOf (p.context scopes) range e) := by
  rw [Compile.valueOf.eq_def]
  cases e with
  | none => exact .lift _
  | some e => exact h e rfl

theorem mirrors_optionally {compile : Expr → Reentrant Code} {op : Op} {e : Option Expr}
    (h : ∀ e', e = some e' → Mirrors scopes (compile e') (Compile.expr (p.context scopes) e')) :
    Mirrors scopes (optional (followed compile op) (pure []) e)
      (Compile.optionally (p.context scopes) op e) := by
  rw [Compile.optionally.eq_def]
  cases e with
  | none => exact .pure _
  | some e => exact .bind (h e rfl) fun _ => .pure _

theorem mirrors_initializer {compile : Stmt → Reentrant Code} {init : Option Stmt}
    (h : ∀ s, init = some s → Mirrors scopes (compile s) (Compile.statement (p.context scopes) s)) :
    Mirrors scopes (optional compile (pure []) init) (Compile.initializer (p.context scopes) init) := by
  rw [Compile.initializer.eq_def]
  cases init with
  | none => exact .pure _
  | some s => exact h s rfl

theorem mirrors_finalizer {compile : List Stmt → Reentrant Code} {step : Context} {range : TokenRange}
    {finalBody : Option (List Stmt)}
    (h : ∀ body, finalBody = some body →
      Mirrors scopes (compile body) (do return blockCode range (← Compile.statements step body))) :
    Mirrors scopes (optional compile (pure []) finalBody) (Compile.finalizer step range finalBody) := by
  rw [Compile.finalizer.eq_def]
  cases finalBody with
  | none => exact .pure _
  | some body => exact h body rfl

/-! ## leaving scopes -/

theorem exitsOf_getElem? (inner outer : List ExitScope) :
    (exitsOf (inner ++ outer))[inner.length]? = (exitsOf outer)[0]? := by
  rw [← drop_exitsOf inner outer, List.getElem?_drop, Nat.add_zero]

/-- Scopes are left from the place on where the outer ones begin.  Each finalizer among them is compiled in
what is around it. -/
theorem mirrors_crossExits {final : List Stmt → Reentrant Code} {range : TokenRange}
    (inner outer : List ExitScope) (count : Nat)
    (hfinal : ∀ body between rest, outer = between ++ .guarded (some body) :: rest →
      Mirrors rest (final body)
        (do return blockCode range (← Compile.statements (p.context rest) body))) :
    Mirrors (inner ++ outer) (crossExits final range inner.length count)
      (Compile.crossExits (p.context (inner ++ outer)) range outer count) := by
  induction outer generalizing inner count with
  | nil =>
    rw [Compile.crossExits]
    cases count with
    | zero =>
      rw [crossExits]
      exact .pure _
    | succ count =>
      rw [crossExits]
      refine .readExits ?_
      rw [exitsOf_getElem?]
      exact .pure _
  | cons scope outer ih =>
    cases count with
    | zero =>
      rw [crossExits, Compile.crossExits]
      · exact .pure _
      · exact List.cons_ne_nil _ _
    | succ count =>
      have hrest := ih (inner ++ [scope]) count fun body between rest heq =>
        hfinal body (scope :: between) rest (congrArg (scope :: ·) heq)
      rw [List.append_assoc, List.length_append] at hrest
      rw [crossExits]
      refine .readExits ?_
      rw [exitsOf_getElem?]
      cases scope with
      | loop next done =>
        rw [Compile.crossExits]
        exact .bind hrest fun _ => .pure _
      | pendingThrow =>
        rw [Compile.crossExits]
        exact .bind hrest fun _ => .pure _
      | guarded finalizer =>
        cases finalizer with
        | none =>
          rw [Compile.crossExits]
          exact .bind hrest fun _ => .pure _
        | some body =>
          have hcross : Compile.crossExits (p.context (inner ++ .guarded (some body) :: outer)) range
              (.guarded (some body) :: outer) (count + 1) = (do
                let cleanup ← (do return blockCode range (← Compile.statements (p.context outer) body))
                let rest ← Compile.crossExits (p.context (inner ++ .guarded (some body) :: outer)) range
                  outer count
                return one .leaveTry range ++ cleanup ++ rest) := by
            rw [Compile.crossExits, bind_assoc]
            rfl
          have hbody := Mirrors.outside (inner ++ [ExitScope.guarded (some body)]) (hfinal body [] outer rfl)
          rw [List.append_assoc, List.length_append] at hbody
          rw [hcross]
          exact .bind hbody fun _ => .bind hrest fun _ => .pure _

end

/-! ## what jumps look for -/

section
variable (scopes : List ExitScope)

theorem map_needsCleanup :
    (exitsOf scopes).map Exit.needsCleanup = scopes.map ExitScope.needsCleanup := by
  induction scopes with
  | nil => rfl
  | cons scope outer ih => cases scope <;> exact congrArg (_ :: ·) ih

theorem map_isLoop : (exitsOf scopes).map Exit.isLoop = scopes.map ExitScope.isLoop := by
  induction scopes with
  | nil => rfl
  | cons scope outer ih => cases scope <;> exact congrArg (_ :: ·) ih

theorem length_exitsOf : (exitsOf scopes).length = scopes.length := by
  have hmap := congrArg List.length (map_isLoop scopes)
  rwa [List.length_map, List.length_map] at hmap

theorem any_take_exitsOf (count : Nat) :
    ((exitsOf scopes).take count).any Exit.needsCleanup
      = (scopes.take count).any ExitScope.needsCleanup := by
  have hmap := congrArg (fun l => (l.take count).any id) (map_needsCleanup scopes)
  simpa only [← List.map_take, List.any_map, Function.id_comp] using hmap

theorem any_exitsOf :
    (exitsOf scopes).any Exit.needsCleanup = scopes.any ExitScope.needsCleanup := by
  have hall := any_take_exitsOf scopes scopes.length
  rwa [List.take_length, ← length_exitsOf, List.take_length] at hall

theorem length_takeWhile_exitsOf :
    ((exitsOf scopes).takeWhile (!·.isLoop)).length = (scopes.takeWhile (!·.isLoop)).length := by
  have hmap := congrArg (fun l => (l.takeWhile not).length) (map_isLoop scopes)
  simp only [List.takeWhile_map, List.length_map] at hmap
  exact hmap

theorem find?_isLoop :
    scopes.find? ExitScope.isLoop = (loopsOf scopes).head?.map fun l => .loop l.next l.done := by
  induction scopes with
  | nil => rfl
  | cons scope outer ih =>
    cases scope with
    | loop next done => rfl
    | guarded finalizer => exact ih
    | pendingThrow => exact ih

theorem weights_append (inner outer : List ExitScope) :
    weights (inner ++ outer) = weights inner + weights outer := by
  induction inner with
  | nil => exact (Nat.zero_add _).symm
  | cons scope inner ih =>
    show scope.weight + weights (inner ++ outer) = scope.weight + weights inner + weights outer
    rw [ih, Nat.add_assoc]

end

/-! ## the compiler -/

/-- What is smaller than the bound is compiled, and as `Compile` does it. -/
structure Faithful (bound : Nat) : Prop where
  expr (p : Surroundings) (scopes : List ExitScope) (e : Expr) (h : 2 * sizeOf e < bound) :
    Mirrors scopes (expr bound p e) (Compile.expr (p.context scopes) e)
  function (p : Surroundings) (scopes : List ExitScope) (name : String) (decl : FunctionDecl)
      (h : 2 * sizeOf decl < bound) :
    Mirrors scopes (function bound p name decl) (Compile.function (p.context scopes) name decl)
  statement (p : Surroundings) (scopes : List ExitScope) (stmt : Stmt)
      (h : 2 * sizeOf stmt + weights scopes < bound) :
    Mirrors scopes (statement bound p stmt) (Compile.statement (p.context scopes) stmt)
  block (p : Surroundings) (scopes : List ExitScope) (range : TokenRange) (body : List Stmt)
      (h : 2 * sizeOf body + weights scopes < bound) :
    Mirrors scopes (block bound p range body)
      (do return blockCode range (← Compile.statements (p.context scopes) body))
  statementForm (p : Surroundings) (scopes : List ExitScope) (range : TokenRange) (form : StmtForm)
      (h : 2 * sizeOf form + weights scopes < bound) :
    Mirrors scopes (statementForm bound p range form)
      (Compile.statementForm (p.context scopes) range form)
  tryCatch (p : Surroundings) (scopes : List ExitScope) (range : TokenRange) (body : List Stmt)
      (handler : Option CatchClause) (finalBody : Option (List Stmt))
      (h : 2 * (sizeOf body + sizeOf handler + sizeOf finalBody) + weights scopes < bound) :
    Mirrors scopes (tryCatch bound p range body handler finalBody)
      (Compile.statementForm (p.context scopes) range (.tryCatch body handler finalBody))
  leaveExits (p : Surroundings) (scopes : List ExitScope) (range : TokenRange) (count : Nat)
      (h : weights scopes + 1 < bound) :
    Mirrors scopes (leaveExits bound p range count)
      (Compile.leaveExits (p.context scopes) range scopes count)

section
variable {bound : Nat} {p : Surroundings} {scopes : List ExitScope}

theorem mirrors_expr {e : Expr} (hlt : 2 * sizeOf e < bound) (ih : Faithful (2 * sizeOf e)) :
    Mirrors scopes (expr bound p e) (Compile.expr (p.context scopes) e) := by
  have hsub (e' : Expr) (h : sizeOf e' < sizeOf e) : Mirrors scopes (expr (2 * sizeOf e) p e')
      (Compile.expr (p.context scopes) e') := ih.expr p scopes e' (by omega)
  have hargs (es : List Expr) (h : sizeOf es < sizeOf e) :
      Mirrors scopes (reversed (expr (2 * sizeOf e) p) es)
        (Compile.exprsReversed (p.context scopes) es) :=
    mirrors_reversed fun e' he' => hsub e' ((List.sizeOf_lt_of_mem he').trans h)
  rw [expr]
  refine .smaller hlt ?_
  obtain ⟨form, range⟩ := e
  cases form with
  | number x | string x | bool x | null | undefined =>
    rw [Compile.expr]
    exact .lift _
  | «variable» name | this =>
    rw [Compile.expr]
    exact .pure _
  | assign target value =>
    have hvalue := hsub value (by simp; omega)
    obtain ⟨target, r⟩ := target
    cases target with
    | «variable» name =>
      rw [Compile.expr]
      exact .bind hvalue fun _ => .pure _
    | member object property =>
      rw [Compile.expr]
      exact .bind (hsub object (by simp; omega)) fun _ => .bind hvalue fun _ => .pure _
    | index object key =>
      rw [Compile.expr]
      exact .bind (hsub object (by simp; omega)) fun _ => .bind hvalue fun _ =>
        .bind (hsub key (by simp; omega)) fun _ => .pure _
    | _ =>
      simp only [Compile.expr]
      exact .throw _
  | binary op left right =>
    rw [Compile.expr]
    exact .bind (hsub left (by simp; omega)) fun _ =>
      .bind (hsub right (by simp; omega)) fun _ => .pure _
  | logical op left right =>
    rw [Compile.expr]
    exact .bind (.lift _) fun _ => .bind (.lift _) fun _ => .bind (hsub left (by simp; omega)) fun _ =>
      .bind (hsub right (by simp; omega)) fun _ => .bind (.lift _) fun _ => .pure _
  | unary op operand =>
    rw [Compile.expr]
    exact .bind (hsub operand (by simp; omega)) fun _ => .pure _
  | call callee args =>
    have hargs := hargs args (by simp; omega)
    have hcallee := hsub callee (by simp; omega)
    rw [Compile.expr]
    refine .bind (.lift _) fun _ => ?_
    obtain ⟨callee, r⟩ := callee
    cases callee with
    | «variable» name => exact .bind hargs fun _ => .pure _
    | member object property =>
      exact .bind (hsub object (by simp; omega)) fun _ => .bind hargs fun _ => .pure _
    | _ => exact .bind hargs fun _ => .bind hcallee fun _ => .pure _
  | member object property =>
    rw [Compile.expr]
    exact .bind (hsub object (by simp; omega)) fun _ => .pure _
  | index object key =>
    rw [Compile.expr]
    exact .bind (hsub object (by simp; omega)) fun _ =>
      .bind (hsub key (by simp; omega)) fun _ => .pure _
  | new className args =>
    rw [Compile.expr]
    exact .bind (.lift _) fun _ => .bind (hargs args (by simp; omega)) fun _ => .pure _
  | function decl =>
    have hdecl (name : String) := ih.function p scopes name decl (by simp; omega)
    rw [Compile.expr]
    obtain ⟨own, params, body, r⟩ := decl
    cases own with
    | none => exact .bind (.lift _) fun name => .bind (hdecl name) fun _ => .pure _
    | some name => exact .bind (.pure name) fun name => .bind (hdecl name) fun _ => .pure _
  | array elements =>
    rw [Compile.expr]
    exact .bind (hargs elements (by simp; omega)) fun _ => .pure _

theorem mirrors_function {name : String} {decl : FunctionDecl} (hlt : 2 * sizeOf decl < bound)
    (ih : Faithful (2 * sizeOf decl)) :
    Mirrors scopes (function bound p name decl)
      (Compile.function (p.context scopes) name decl) := by
  rw [function]
  refine .smaller hlt ?_
  obtain ⟨own, params, body, range⟩ := decl
  rw [Compile.function]
  let inner : Surroundings := ⟨p.source, true, ⟨name, declaredInAll body⟩ :: p.enclosing⟩
  have hbody : Mirrors [] (each (statement (2 * sizeOf (FunctionDecl.mk own params body range)) inner) body)
      (Compile.statements (inner.context []) body) := by
    refine mirrors_each fun stmt hstmt => ih.statement inner [] stmt ?_
    have hsize := List.sizeOf_lt_of_mem hstmt
    simp
    omega
  exact .ite (.throwBind _) (.defineFunction name params (.bind hbody fun _ => .lift _))

theorem mirrors_block {range : TokenRange} {body : List Stmt}
    (hlt : 2 * sizeOf body + weights scopes < bound)
    (ih : Faithful (2 * sizeOf body + weights scopes)) :
    Mirrors scopes (block bound p range body)
      (do return blockCode range (← Compile.statements (p.context scopes) body)) := by
  rw [block]
  refine .smaller hlt (.bind (mirrors_each fun stmt hstmt => ih.statement p scopes stmt ?_)
    fun code => .pure _)
  have hsize := List.sizeOf_lt_of_mem hstmt
  omega

theorem mirrors_statement {stmt : Stmt} (hlt : 2 * sizeOf stmt + weights scopes < bound)
    (ih : Faithful (2 * sizeOf stmt + weights scopes)) :
    Mirrors scopes (statement bound p stmt) (Compile.statement (p.context scopes) stmt) := by
  have hform (range : TokenRange) (form : StmtForm) (heq : stmt = .node form range) :=
    ih.statementForm p scopes range form (by rw [heq]; simp; omega)
  rw [statement]
  refine .smaller hlt ?_
  obtain ⟨form, range⟩ := stmt
  cases form with
  | block body =>
    rw [Compile.statement]
    exact ih.block p scopes range body (by simp; omega)
  | _ =>
    rw [Compile.statement]
    · exact .readScopes (.bind (hform range _ rfl) fun _ => .pure _)
    · intro body heq
      cases heq

theorem mirrors_leaveExits {range : TokenRange} {count : Nat} (hlt : weights scopes + 1 < bound)
    (ih : Faithful (weights scopes + 1)) :
    Mirrors scopes (leaveExits bound p range count)
      (Compile.leaveExits (p.context scopes) range scopes count) := by
  rw [leaveExits, Compile.leaveExits]
  refine .smaller hlt (.readExits ?_)
  rw [any_take_exitsOf]
  refine .ite (mirrors_crossExits [] scopes count fun body between rest heq => ?_) (.pure _)
  refine ih.block p rest range body ?_
  rw [heq, weights_append]
  simp
  omega

theorem mirrors_tryCatch {range : TokenRange} {body : List Stmt} {handler : Option CatchClause}
    {finalBody : Option (List Stmt)}
    (hlt : 2 * (sizeOf body + sizeOf handler + sizeOf finalBody) + weights scopes < bound)
    (ih : Faithful (2 * (sizeOf body + sizeOf handler + sizeOf finalBody) + weights scopes)) :
    Mirrors scopes (tryCatch bound p range body handler finalBody)
      (Compile.statementForm (p.context scopes) range (.tryCatch body handler finalBody)) := by
  have hguarded (part : List Stmt) (h : sizeOf part ≤ sizeOf body + sizeOf handler) :
      Mirrors scopes
        (withExit (.guarded finalBody (loopsOf scopes).length) (each (statement
          (2 * (sizeOf body + sizeOf handler + sizeOf finalBody) + weights scopes) p) part))
        (Compile.statements (p.context (.guarded finalBody :: scopes)) part) := by
    refine .withGuarded (mirrors_each fun stmt hstmt => ih.statement p _ stmt ?_)
    have hsize := List.sizeOf_lt_of_mem hstmt
    simp
    omega
  rw [tryCatch, Compile.statementForm]
  refine .smaller hlt ?_
  refine .bind (.lift _) fun _ => .bind (.lift _) fun _ => .bind (.lift _) fun _ => .readLoops ?_
  refine .bind (hguarded body (by omega)) fun _ => .bind ?_ fun _ =>
    .bind (mirrors_finalizer fun fbody heq => ?_) fun _ =>
    .bind (mirrors_finalizer fun fbody heq => ?_) fun _ => .pure _
  · rw [Compile.catchClause.eq_def]
    cases handler with
    | none => exact .pure _
    | some clause =>
      obtain ⟨binding, hbody, r⟩ := clause
      exact .bind (hguarded hbody (by simp; omega)) fun _ => .pure _
  · have hsize : sizeOf fbody < sizeOf finalBody := by
      rw [heq]
      simp
    refine .withThrow (ih.block p _ range fbody ?_)
    simp
    omega
  · have hsize : sizeOf fbody < sizeOf finalBody := by
      rw [heq]
      simp
    exact ih.block p scopes range fbody (by omega)

theorem mirrors_statementForm {range : TokenRange} {form : StmtForm}
    (hlt : 2 * sizeOf form + weights scopes < bound) (ih : Faithful (2 * sizeOf form + weights scopes)) :
    Mirrors scopes (statementForm bound p range form)
      (Compile.statementForm (p.context scopes) range form) := by
  have hexpr (e : Expr) (h : sizeOf e < sizeOf form) := ih.expr p scopes e (by omega)
  have hstmt (s : Stmt) (h : sizeOf s < sizeOf form) := ih.statement p scopes s (by omega)
  have hloop (l : LoopLabels) (s : Stmt) (h : sizeOf s < sizeOf form) :=
    Mirrors.loopBody l (ih.statement p (.loop l.next l.done :: scopes) s (by simp; omega))
  have hleave (count : Nat) (h : 0 < sizeOf form) := ih.leaveExits p scopes range count (by omega)
  rw [statementForm]
  refine .smaller hlt ?_
  cases form with
  | expression e =>
    rw [Compile.statementForm]
    exact .bind (hexpr e (by simp)) fun _ => .pure _
  | varDecl name init =>
    rw [Compile.statementForm]
    exact .bind (mirrors_valueOf fun e heq => hexpr e (by rw [heq]; simp; omega)) fun _ => .pure _
  | block body =>
    rw [Compile.statementForm]
    exact ih.block p scopes range body (by simp)
  | ifElse test thenBranch elseBranch =>
    rw [Compile.statementForm]
    refine .bind (.lift _) fun _ => .bind (hexpr test (by simp; omega)) fun _ =>
      .bind (hstmt thenBranch (by simp; omega)) fun _ => ?_
    cases elseBranch with
    | none => exact .pure _
    | some elseBranch =>
      exact .bind (.lift _) fun _ => .bind (hstmt elseBranch (by simp; omega)) fun _ => .pure _
  | whileLoop test body =>
    rw [Compile.statementForm]
    exact .bind (.lift _) fun start => .bind (.lift _) fun done =>
      .bind (hexpr test (by simp; omega)) fun _ =>
      .bind (hloop ⟨start, done⟩ body (by simp)) fun _ => .pure _
  | forLoop init test update body =>
    rw [Compile.statementForm]
    exact .bind (.lift _) fun _ => .bind (.lift _) fun next => .bind (.lift _) fun done =>
      .bind (mirrors_initializer fun s heq => hstmt s (by rw [heq]; simp +arith)) fun _ =>
      .bind (mirrors_optionally fun e heq => hexpr e (by rw [heq]; simp; omega)) fun _ =>
      .bind (hloop ⟨next, done⟩ body (by simp)) fun _ =>
      .bind (mirrors_optionally fun e heq => hexpr e (by rw [heq]; simp; omega)) fun _ => .pure _
  | breakLoop | continueLoop =>
    rw [Compile.statementForm]
    refine .readLoops ?_
    rw [show (p.context scopes).exits = scopes from rfl, find?_isLoop]
    cases (loopsOf scopes).head? with
    | none => exact .throw _
    | some labels =>
      refine .readExits ?_
      rw [length_takeWhile_exitsOf]
      exact .bind (hleave _ (by simp)) fun _ => .pure _
  | returnValue value =>
    rw [Compile.statementForm]
    refine .ite (.throwBind _) ?_
    refine .bind (mirrors_valueOf fun e heq => hexpr e (by rw [heq]; simp; omega)) fun _ => .readExits ?_
    rw [any_exitsOf]
    refine .ite (.readExits ?_) (.pure _)
    rw [length_exitsOf]
    exact .bind (hleave _ (by simp)) fun _ => .pure _
  | throwValue value =>
    rw [Compile.statementForm]
    exact .bind (hexpr value (by simp)) fun _ => .pure _
  | tryCatch body handler finalBody =>
    exact ih.tryCatch p scopes range body handler finalBody (by simp)
  | function decl =>
    rw [Compile.statementForm]
    have hdecl (name : String) := ih.function p scopes name decl (by simp; omega)
    obtain ⟨own, params, body, r⟩ := decl
    cases own with
    | none => exact .throw _
    | some name => exact .bind (hdecl _) fun _ => .pure _
  | classDecl name decls =>
    rw [Compile.statementForm]
    refine .bind (mirrors_methods fun decl hdecl name => ih.function p scopes name decl ?_) fun _ => ?_
    · have hsize := List.sizeOf_lt_of_mem hdecl
      simp
      omega
    · exact .ite (.bind (.lift _) fun _ => .pure _)
        (.bind (.defineFunction _ _ (.lift _)) fun _ => .bind (.lift _) fun _ => .pure _)
  | debugger | empty =>
    rw [Compile.statementForm]
    exact .pure _

end

/-- on the bound: the calls in a call have its size as their bound -/
theorem faithful (bound : Nat) : Faithful bound := by
  induction bound using Nat.strong_induction_on with
  | _ bound ih =>
  exact {
    expr := fun _ _ _ h => mirrors_expr h (ih _ h)
    function := fun _ _ _ _ h => mirrors_function h (ih _ h)
    statement := fun _ _ _ h => mirrors_statement h (ih _ h)
    block := fun _ _ _ _ h => mirrors_block h (ih _ h)
    statementForm := fun _ _ _ _ h => mirrors_statementForm h (ih _ h)
    tryCatch := fun _ _ _ _ _ _ h => mirrors_tryCatch h (ih _ h)
    leaveExits := fun _ _ _ _ h => mirrors_leaveExits h (ih _ h) }

end Reentrant

open Reentrant

/-- **Compilation ends although it goes into the finalizers of the scopes again, and restores its stacks.**
A call has twice the size of what it compiles for its own size, and the weights of the scopes on the stacks
beside it, where a finalizer counts twice.  Whatever the syntax tree and the scopes are: with any bound
above this size, no call comes to a call that is not smaller than itself.  It has the result of `Compile`,
be it code or an error, and behind it the stacks of exits and loops are what they were before.  This holds
of statements one by one, one after another and in blocks, of `try`, of the way out of the scopes and of
functions. -/
theorem reentry_restores (p : Surroundings) (scopes : List ExitScope) (b : Builder) (bound : Nat) :
    (∀ stmt, 2 * sizeOf stmt + weights scopes < bound →
      Returns scopes ((Compile.statement (p.context scopes) stmt).run b)
        ((statement bound p stmt).outcome (.stacked b scopes)))
    ∧ (∀ body, 2 * sizeOf body + weights scopes < bound →
      Returns scopes ((Compile.statements (p.context scopes) body).run b)
        ((each (statement bound p) body).outcome (.stacked b scopes)))
    ∧ (∀ range body, 2 * sizeOf body + weights scopes < bound →
      Returns scopes
        ((do return blockCode range (← Compile.statements (p.context scopes) body) : Compile Code).run b)
        ((block bound p range body).outcome (.stacked b scopes)))
    ∧ (∀ range body handler finalBody,
      2 * (sizeOf body + sizeOf handler + sizeOf finalBody) + weights scopes < bound →
      Returns scopes
        ((Compile.statementForm (p.context scopes) range (.tryCatch body handler finalBody)).run b)
        ((tryCatch bound p range body handler finalBody).outcome (.stacked b scopes)))
    ∧ (∀ range count, weights scopes + 1 < bound →
      Returns scopes ((Compile.leaveExits (p.context scopes) range scopes count).run b)
        ((leaveExits bound p range count).outcome (.stacked b scopes)))
    ∧ ∀ name decl, 2 * sizeOf decl < bound →
      Returns scopes ((Compile.function (p.context scopes) name decl).run b)
        ((function bound p name decl).outcome (.stacked b scopes)) := by
  have hall := faithful bound
  refine ⟨fun stmt h => hall.statement p scopes stmt h b, fun body h => ?_,
    fun range body h => hall.block p scopes range body h b,
    fun range body handler finalBody h => hall.tryCatch p scopes range body handler finalBody h b,
    fun range count h => hall.leaveExits p scopes range count h b,
    fun name decl h => hall.function p scopes name decl h b⟩
  refine mirrors_each (fun stmt hstmt => hall.statement p scopes stmt ?_) b
  have hsize := List.sizeOf_lt_of_mem hstmt
  omega

/-- `try { return; } finally { break; }` -/
def jumpingOut : Stmt :=
  .node (.tryCatch [.node (.returnValue none) ⟨0, 0⟩] none (some [.node .breakLoop ⟨0, 0⟩])) ⟨0, 0⟩

/-- The `return` takes up the `break`, which has a loop to leave in one place and none in the other. -/
theorem reentry_restores_jumpingOut :
    let p : Surroundings := ⟨⟨#[], ""⟩, true, []⟩
    let bound := 2 * sizeOf jumpingOut + 2
    (∃ code b', (statement bound p jumpingOut).outcome (.stacked {} [.loop 0 1])
        = some (.ok code, .stacked b' [.loop 0 1]))
      ∧ ∃ b', (statement bound p jumpingOut).outcome (.stacked {} [])
        = some (.error (.outsideLoop .breakLoop), .stacked b' []) := by
  intro p bound
  constructor
  · have hreturns := (reentry_restores p [.loop 0 1] {} bound).1 jumpingOut (Nat.lt_succ_self _)
    have hok : ((Compile.statement (p.context [.loop 0 1]) jumpingOut).run {}).toOption.isSome
        = true := by cbv
    cases hrun : (Compile.statement (p.context [.loop 0 1]) jumpingOut).run {} with
    | error e =>
      rw [hrun] at hok
      cases hok
    | ok r =>
      rw [hrun] at hreturns
      exact ⟨r.1, r.2, hreturns⟩
  · have hreturns := (reentry_restores p [] {} bound).1 jumpingOut
      (Nat.lt_add_of_pos_right Nat.two_pos)
    have herror : (Compile.statement (p.context []) jumpingOut).run {}
        = .error (.outsideLoop .breakLoop) := by cbv
    rw [herror] at hreturns
    exact hreturns

end ScriptMachine
