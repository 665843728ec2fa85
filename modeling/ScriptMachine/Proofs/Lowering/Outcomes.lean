import ScriptMachine.Compile
import ScriptMachine.Proofs.Lowering.Compiled
import ScriptMachine.Proofs.WellFormed

/-!
# Which programs compile

A compilation succeeds exactly on well-formed programs.  A jump compiles the finalizers on its way
again, under the scopes outside of their regions.  That neither adds an error nor hides one: a
finalizer is looked at where it stands anyway, and what it asks of its surroundings is the same there.

* `Compile.Total m`            the step `m` never fails;
* `Compile.Settles H m P`      granted `H`, the step `m` succeeds if and only if `P` holds;
* `ExitScope.Settled func exits`   the finalizers of the scopes are well-formed where they stand;
* `Compile.settles_statements`     statements, by recursion along the compilation;
* `compileProgram_ok_iff`      the main statement, about whole programs.
-/

namespace ScriptMachine

/-- errors that no program which was read can have -/
def CompileError.isInternal : CompileError → Bool
  | unnamedFunction => true
  | unnamedMethod => true
  | _ => false

/-! ## exit scopes -/

namespace ExitScope

/-- the finalizers of the scopes are well-formed, each inside the scopes around its region -/
def Settled (func : Bool) : List ExitScope → Prop
  | [] => True
  | guarded (some body) :: outer =>
    Stmt.AllWellFormed (outer.any isLoop) func body ∧ Settled func outer
  | _ :: outer => Settled func outer

/-- the declarations in the finalizers of the scopes have their names -/
def Named (exits : List ExitScope) : Prop :=
  ∀ body, guarded (some body) ∈ exits → ∀ stmt ∈ body, (Node.stmt stmt).Every Node.Named

theorem Named.outer {scope : ExitScope} {outer : List ExitScope} (h : Named (scope :: outer)) :
    Named outer := fun body hbody => h body (.tail _ hbody)

theorem Named.loop {outer : List ExitScope} (h : Named outer) (next done : Label) :
    Named (loop next done :: outer) := by
  intro body hbody
  cases hbody with
  | tail _ hbody => exact h body hbody

theorem Named.pendingThrow {outer : List ExitScope} (h : Named outer) :
    Named (pendingThrow :: outer) := by
  intro body hbody
  cases hbody with
  | tail _ hbody => exact h body hbody

theorem Named.guarded {outer : List ExitScope} (h : Named outer) {finalizer : Option (List Stmt)}
    (hf : ∀ stmt ∈ finalizer.getD [], (Node.stmt stmt).Every Node.Named) :
    Named (guarded finalizer :: outer) := by
  intro body hbody
  cases hbody with
  | head _ => exact hf
  | tail _ hbody => exact h body hbody

/-- one more region, with a finalizer that is well-formed where it stands -/
theorem Settled.guarded {func : Bool} {outer : List ExitScope} (h : Settled func outer)
    {finalizer : Option (List Stmt)}
    (hf : Stmt.BodyWellFormed (outer.any isLoop) func finalizer) :
    Settled func (guarded finalizer :: outer) := by
  cases finalizer with
  | none => exact h
  | some body => exact ⟨hf, h⟩

end ExitScope

namespace Compile

/-! ## steps that settle a condition -/

/-- the step never fails -/
def Total {α : Type} (m : Compile α) : Prop := ∀ b, ∃ r, m b = .ok r

/-- Granted `H`, the step succeeds if and only if `P` holds.  If it fails, the error is not one of
those that no program can have, granted or not. -/
def Settles {α : Type} (H : Prop) (m : Compile α) (P : Prop) : Prop :=
  ∀ b, match m b with
    | .ok _ => H → P
    | .error e => (H → ¬ P) ∧ e.isInternal = false

section
variable {α β : Type} {H P Q : Prop} {m : Compile α} {f : α → Compile β}

theorem Total.pure (a : α) : Total (pure a : Compile α) := fun b => ⟨(a, b), rfl⟩

theorem Total.constant (value : Value) (range : TokenRange) : Total (constant value range) :=
  fun _ => ⟨_, rfl⟩

theorem Total.newLabel : Total newLabel := fun _ => ⟨_, rfl⟩

theorem Total.anonymousName : Total anonymousName := fun _ => ⟨_, rfl⟩

theorem Total.defineClass (entry : ClassEntry) : Total (defineClass entry) := fun _ => ⟨_, rfl⟩

theorem Total.closeBody (closing : TokenRange) (code : Code) : Total (closeBody closing code) := by
  intro b
  unfold Compile.closeBody
  by_cases h : endsInReturn code = true
  · rw [if_pos h]
    exact ⟨_, rfl⟩
  · rw [if_neg h]
    exact ⟨_, rfl⟩

theorem Total.bind (hm : Total m) (hf : ∀ a, Total (f a)) : Total (m >>= f) := by
  intro b
  obtain ⟨⟨a, b₁⟩, ha⟩ := hm b
  obtain ⟨r, hr⟩ := hf a b₁
  refine ⟨r, ?_⟩
  show (m b >>= fun x => f x.1 x.2) = .ok r
  rw [ha]
  exact hr

theorem Settles.congr (h : Settles H m P) (hPQ : H → (P ↔ Q)) : Settles H m Q := by
  intro b
  have hb := h b
  cases hm : m b with
  | ok r =>
    rw [hm] at hb
    exact fun hH => (hPQ hH).mp (hb hH)
  | error e =>
    rw [hm] at hb
    exact ⟨fun hH hQ => hb.1 hH ((hPQ hH).mpr hQ), hb.2⟩

theorem Settles.weaken {H' : Prop} (h : Settles H m P) (hle : H' → H) : Settles H' m P := by
  intro b
  have hb := h b
  cases hm : m b with
  | ok r =>
    rw [hm] at hb
    exact fun hH => hb (hle hH)
  | error e =>
    rw [hm] at hb
    exact ⟨fun hH => hb.1 (hle hH), hb.2⟩

theorem Settles.of_total (hm : Total m) : Settles H m True := by
  intro b
  obtain ⟨r, hr⟩ := hm b
  rw [hr]
  exact fun _ => trivial

theorem Settles.throw {e : CompileError} (hP : H → ¬ P) (he : e.isInternal = false) :
    Settles H (throw e : Compile α) P := fun _ => ⟨hP, he⟩

/-- What the first step asks has only to be right if the rest of the way is. -/
theorem Settles.bind (hm : Settles (H ∧ Q) m P) (hf : ∀ a, Settles H (f a) Q) :
    Settles H (m >>= f) (P ∧ Q) := by
  intro b
  have hb := hm b
  show match (m b >>= fun x => f x.1 x.2 : Except CompileError (β × Builder)) with
    | .ok _ => H → P ∧ Q
    | .error e => (H → ¬ (P ∧ Q)) ∧ e.isInternal = false
  cases hr : m b with
  | error e =>
    rw [hr] at hb
    exact ⟨fun hH hPQ => hb.1 ⟨hH, hPQ.2⟩ hPQ.1, hb.2⟩
  | ok r =>
    rw [hr] at hb
    have hrest := hf r.1 r.2
    show match f r.1 r.2 with
      | .ok _ => H → P ∧ Q
      | .error e => (H → ¬ (P ∧ Q)) ∧ e.isInternal = false
    cases hr' : f r.1 r.2 with
    | error e =>
      rw [hr'] at hrest
      exact ⟨fun hH hPQ => hrest.1 hH hPQ.2, hrest.2⟩
    | ok r' =>
      rw [hr'] at hrest
      exact fun hH => ⟨hb ⟨hH, hrest hH⟩, hrest hH⟩

/-- behind a step that never fails -/
theorem Settles.behind (hm : Total m) (hf : ∀ a, Settles H (f a) Q) : Settles H (m >>= f) Q :=
  (Settles.bind (.of_total hm) hf).congr fun _ => Iff.of_eq (true_and Q)

/-- before steps that never fail -/
theorem Settles.before (hm : Settles H m P) (hf : ∀ a, Total (f a)) : Settles H (m >>= f) P := by
  have h := Settles.bind (hm.weaken And.left) fun a => .of_total (H := H) (hf a)
  exact h.congr fun _ => Iff.of_eq (and_true P)

end

theorem settles_checkArguments {H : Prop} (callee : String) (n : Nat) :
    Settles H (checkArguments callee n) (n ≤ 255) := by
  unfold checkArguments
  by_cases h : maxArguments < n
  · rw [if_pos h]
    exact .throw (fun _ => Nat.not_le.mpr h) rfl
  · rw [if_neg h]
    exact (Settles.of_total (.pure ())).congr fun _ => iff_of_true trivial (Nat.not_lt.mp h)

theorem settles_defineFunction {H P : Prop} {name : String} {params : List String}
    {body : Compile Code} (h : Settles H body P) : Settles H (defineFunction name params body) P := by
  unfold defineFunction
  refine .behind (fun b => ⟨(b, b), rfl⟩) fun b => .behind (fun _ => ⟨_, rfl⟩) fun _ => ?_
  exact .before h fun code => .bind (fun _ => ⟨_, rfl⟩) fun _ => .pure _

theorem Total.of_settles {α : Type} {m : Compile α} (h : Settles True m True) : Total m := by
  intro b
  have hb := h b
  cases hm : m b with
  | ok r => exact ⟨r, rfl⟩
  | error e =>
    rw [hm] at hb
    exact absurd trivial (hb.1 trivial)

theorem Total.defineFunction {name : String} {params : List String} {body : Compile Code}
    (h : Total body) : Total (defineFunction name params body) :=
  .of_settles (settles_defineFunction (.of_total h))

/-! ## parts that may be missing -/

section
variable {H : Prop} {ctx : Context} {range : TokenRange}

theorem settles_valueOf {e : Option Expr} (h : ∀ e', e = some e' → Settles H (expr ctx e') e'.WellFormed) :
    Settles H (valueOf ctx range e) (Expr.OptionWellFormed e) := by
  cases e with
  | none =>
    rw [valueOf]
    exact .of_total (.constant _ _)
  | some e =>
    rw [valueOf]
    exact h e rfl

theorem settles_optionally {op : Op} {e : Option Expr}
    (h : ∀ e', e = some e' → Settles H (expr ctx e') e'.WellFormed) :
    Settles H (optionally ctx op e) (Expr.OptionWellFormed e) := by
  cases e with
  | none =>
    rw [optionally]
    exact .of_total (.pure _)
  | some e =>
    rw [optionally]
    exact .before (h e rfl) fun _ => .pure _

theorem settles_initializer {loop func : Bool} {init : Option Stmt}
    (h : ∀ s, init = some s → Settles H (statement ctx s) (s.WellFormed loop func)) :
    Settles H (initializer ctx init) (Stmt.OptionWellFormed loop func init) := by
  cases init with
  | none =>
    rw [initializer]
    exact .of_total (.pure _)
  | some s =>
    rw [initializer]
    exact h s rfl

theorem settles_catchClause {loop func : Bool} {caught done uncaught : Label}
    {handler : Option CatchClause}
    (h : ∀ binding body r, handler = some (.mk binding body r) →
      Settles H (statements ctx body) (Stmt.AllWellFormed loop func body)) :
    Settles H (catchClause ctx caught done uncaught handler)
      (CatchClause.OptionWellFormed loop func handler) := by
  cases handler with
  | none =>
    rw [catchClause]
    exact .of_total (.pure _)
  | some clause =>
    obtain ⟨binding, body, r⟩ := clause
    rw [catchClause]
    exact .before (h binding body r rfl) fun _ => .pure _

theorem settles_finalizer {loop func : Bool} {body : Option (List Stmt)}
    (h : ∀ body', body = some body' →
      Settles H (statements ctx body') (Stmt.AllWellFormed loop func body')) :
    Settles H (finalizer ctx range body) (Stmt.BodyWellFormed loop func body) := by
  cases body with
  | none =>
    rw [finalizer]
    exact .of_total (.pure _)
  | some body =>
    rw [finalizer]
    exact .before (h body rfl) fun _ => .pure _

/-! ## jumps -/

/-- what the scopes around a jump cost it -/
theorem settles_leaveExits {count : Nat} (h : Settles H (crossExits ctx range ctx.exits count) True) :
    Settles H (leaveExits ctx range ctx.exits count) True := by
  rw [leaveExits]
  split
  · exact h
  · exact .of_total (.pure _)

/-- a jump out of the innermost loop needs a loop -/
theorem settles_jump {form : StmtForm} (hform : form = .breakLoop ∨ form = .continueLoop)
    (h : ∀ count, Settles H (crossExits ctx range ctx.exits count) True) :
    Settles H (statementForm ctx range form) (ctx.exits.any ExitScope.isLoop = true) := by
  cases hfind : ctx.exits.find? ExitScope.isLoop with
  | none =>
    have hany : ¬ ctx.exits.any ExitScope.isLoop = true := by
      intro hany
      obtain ⟨scope, hmem, hscope⟩ := List.any_eq_true.mp hany
      exact List.find?_eq_none.mp hfind scope hmem hscope
    rcases hform with rfl | rfl
    all_goals
      rw [statementForm, hfind]
      exact .throw (fun _ => hany) rfl
  | some scope =>
    have hscope : scope.isLoop = true := List.find?_some hfind
    have hany : ctx.exits.any ExitScope.isLoop = true :=
      List.any_eq_true.mpr ⟨scope, List.mem_of_find?_eq_some hfind, hscope⟩
    cases scope with
    | guarded _ => cases hscope
    | pendingThrow => cases hscope
    | loop next done =>
      rcases hform with rfl | rfl
      all_goals
        rw [statementForm, hfind]
        refine Settles.congr (P := True) ?_ fun _ => iff_of_true trivial hany
        exact .before (settles_leaveExits (h _)) fun _ => .pure _

/-- a function can return, whatever has to run on the way -/
theorem settles_return {value : Option Expr}
    (hvalue : ∀ e, value = some e → Settles H (expr ctx e) e.WellFormed)
    (h : ∀ count, Settles H (crossExits ctx range ctx.exits count) True) :
    Settles H (statementForm ctx range (.returnValue value))
      (ctx.inFunction = true ∧ Expr.OptionWellFormed value) := by
  rw [statementForm]
  by_cases hfunc : ctx.inFunction = true
  · simp only [hfunc, Bool.not_true, Bool.false_eq_true, if_false, true_and]
    refine Settles.congr (Q := Expr.OptionWellFormed value) (.bind (Q := True)
      ((settles_valueOf hvalue).weaken And.left) fun code => ?_) fun _ => and_iff_left trivial
    by_cases hclean : ctx.exits.any ExitScope.needsCleanup = true
    · rw [if_pos hclean]
      exact .before (settles_leaveExits (h _)) fun _ => .pure _
    · rw [if_neg hclean]
      exact .of_total (.pure _)
  · simp only [hfunc, Bool.not_false, if_true]
    exact .throw (fun _ hwell => Bool.false_ne_true hwell.1) rfl

/-! ## assignments, calls, functions and classes -/

/-- what can be assigned to, and the rest -/
theorem isTarget_cases (target : Expr) :
    (∃ name r, target = .node (.variable name) r)
      ∨ (∃ object property r, target = .node (.member object property) r)
      ∨ (∃ object key r, target = .node (.index object key) r)
      ∨ target.form.isTarget = false := by
  obtain ⟨form, r⟩ := target
  cases form with
  | «variable» name => exact .inl ⟨name, r, rfl⟩
  | member object property => exact .inr (.inl ⟨object, property, r, rfl⟩)
  | index object key => exact .inr (.inr (.inl ⟨object, key, r, rfl⟩))
  | _ => exact .inr (.inr (.inr rfl))

theorem settles_invalidTarget {target value : Expr} (h : target.form.isTarget = false) :
    Settles H (expr ctx (.node (.assign target value) range))
      (Expr.node (.assign target value) range).WellFormed := by
  have hthrow : expr ctx (.node (.assign target value) range)
      = throw (.invalidTarget (ctx.textOf target.range)) := by
    obtain ⟨form, r⟩ := target
    cases form with
    | «variable» name => cases h
    | member object property => cases h
    | index object key => cases h
    | _ => simp only [expr]
  rw [hthrow]
  refine .throw (fun _ hwell => ?_) rfl
  have htarget : target.form.isTarget = true := hwell.1
  rw [h] at htarget
  cases htarget

/-- a call of what is neither a name nor a property -/
theorem settles_callValue {callee : Expr} {args : List Expr} (hplain : callee.form.isPath = false)
    (hargs : Settles (H ∧ callee.WellFormed) (exprsReversed ctx args) (Expr.AllWellFormed args))
    (hcallee : Settles H (expr ctx callee) callee.WellFormed) :
    Settles H (expr ctx (.node (.call callee args) range))
      (args.length ≤ 255 ∧ Expr.AllWellFormed args ∧ callee.WellFormed) := by
  rw [expr]
  refine .bind (settles_checkArguments _ _) fun _ => ?_
  split
  · cases hplain
  · cases hplain
  · exact .bind hargs fun _ => .before hcallee fun _ => .pure _

theorem settles_declaration {name : String} {decl : FunctionDecl}
    (h : ∀ ctx : Context, ctx.exits = [] → ctx.inFunction = true →
      Settles H (statements ctx decl.body) (Stmt.AllWellFormed false true decl.body)) :
    Settles H (function ctx name decl) decl.WellFormed := by
  obtain ⟨n, params, body, r⟩ := decl
  rw [function]
  by_cases hn : maxParameters < params.length
  · rw [if_pos hn]
    exact .throw (fun _ hdecl => absurd hdecl.1 (Nat.not_le.mpr hn)) rfl
  · rw [if_neg hn]
    have hbody := h ⟨ctx.source, [], true, ⟨name, declaredInAll body⟩ :: ctx.enclosing⟩ rfl rfl
    refine (settles_defineFunction (.before hbody fun code => ?_)).congr fun _ =>
      (and_iff_right (Nat.not_lt.mp hn)).symm
    exact .closeBody ⟨r.last, r.last⟩ code

theorem settles_class {name : String} {decls : List FunctionDecl}
    (h : Settles H (methods ctx name decls) (FunctionDecl.AllWellFormed decls)) :
    Settles H (statementForm ctx range (.classDecl name decls))
      (FunctionDecl.AllWellFormed decls) := by
  rw [statementForm]
  refine .before h fun declared => ?_
  by_cases hc : declared.any (·.1 = constructorName) = true
  · rw [if_pos hc]
    exact .bind (.defineClass _) fun _ => .pure _
  · rw [if_neg hc]
    exact .bind (.defineFunction (.closeBody _ _)) fun _ => .bind (.defineClass _) fun _ => .pure _

end

/-! ## the compilation -/

mutual

theorem settles_expr (H : Prop) (ctx : Context) (e : Expr) (hn : (Node.expr e).Every Node.Named) :
    Settles H (expr ctx e) e.WellFormed := by
  match e, hn with
  | .node (.number x) range, _ | .node (.string x) range, _ | .node (.bool x) range, _
  | .node .null range, _ | .node .undefined range, _ =>
    rw [expr]
    exact .of_total (.constant _ _)
  | .node (.variable name) range, _ | .node .this range, _ =>
    rw [expr]
    exact .of_total (.pure _)
  | .node (.assign target value) range, hn =>
    have htarget := hn.child (.head _)
    have hvalue (H : Prop) := settles_expr H ctx value (hn.child (.tail _ (.head _)))
    rcases isTarget_cases target with ⟨name, r, heq⟩ | ⟨object, property, r, heq⟩
      | ⟨object, key, r, heq⟩ | hnone
    · rw [heq, expr]
      refine Settles.congr (.before (hvalue H) fun _ => .pure _) fun _ => ?_
      exact ⟨fun hv => ⟨rfl, trivial, hv⟩, fun h => h.2.2⟩
    · have hlt : sizeOf object < sizeOf target := by
        rw [heq]
        exact sizeOf_member object property r
      rw [heq] at htarget ⊢
      rw [expr]
      have hobject (H : Prop) := settles_expr H ctx object (htarget.child (.head _))
      refine Settles.congr (.bind (hobject _) fun _ => .before (hvalue H) fun _ => .pure _) fun _ => ?_
      exact ⟨fun h => ⟨rfl, h⟩, And.right⟩
    · have hlt : sizeOf object < sizeOf target ∧ sizeOf key < sizeOf target := by
        rw [heq]
        exact sizeOf_index object key r
      rw [heq] at htarget ⊢
      rw [expr]
      have hobject (H : Prop) := settles_expr H ctx object (htarget.child (.head _))
      have hkey := settles_expr H ctx key (htarget.child (.tail _ (.head _)))
      refine Settles.congr (.bind (hobject _) fun _ => .bind (hvalue _) fun _ =>
        .before hkey fun _ => .pure _) fun _ => ?_
      exact ⟨fun ⟨ho, hv, hk⟩ => ⟨rfl, ⟨ho, hk⟩, hv⟩, fun ⟨_, ⟨ho, hk⟩, hv⟩ => ⟨ho, hv, hk⟩⟩
    · exact settles_invalidTarget hnone
  | .node (.binary op left right) range, hn =>
    rw [expr]
    exact .bind (settles_expr _ ctx left (hn.child (.head _))) fun _ =>
      .before (settles_expr H ctx right (hn.child (.tail _ (.head _)))) fun _ => .pure _
  | .node (.logical op left right) range, hn =>
    rw [expr]
    refine .behind .newLabel fun _ => .behind .newLabel fun _ => ?_
    refine .bind (settles_expr _ ctx left (hn.child (.head _))) fun _ => ?_
    exact .before (settles_expr H ctx right (hn.child (.tail _ (.head _)))) fun _ =>
      .bind (.constant _ _) fun _ => .pure _
  | .node (.unary op operand) range, hn =>
    rw [expr]
    exact .before (settles_expr H ctx operand (hn.child (.head _))) fun _ => .pure _
  | .node (.call callee args) range, hn =>
    have hcallee := hn.child (.head _)
    have hargs (H : Prop) := settles_args H ctx args fun a ha =>
      hn.child (.tail _ (List.mem_map_of_mem ha))
    cases hpath : callee.form.isPath with
    | false =>
      exact Settles.congr (settles_callValue hpath (hargs _) (settles_expr H ctx callee hcallee))
        fun _ => and_congr_right fun _ => and_comm
    | true =>
      rcases isPath_cases hpath with ⟨name, r, heq⟩ | ⟨object, property, r, heq⟩
      · rw [heq, expr]
        refine Settles.congr (.bind (settles_checkArguments _ _) fun _ =>
          .before (hargs H) fun _ => .pure _) fun _ => ?_
        exact and_congr_right fun _ => (and_iff_right trivial).symm
      · have hlt : sizeOf object < sizeOf callee := by
          rw [heq]
          exact sizeOf_member object property r
        rw [heq] at hcallee ⊢
        rw [expr]
        have hobject (H : Prop) := settles_expr H ctx object (hcallee.child (.head _))
        exact .bind (settles_checkArguments _ _) fun _ => .bind (hobject _) fun _ =>
          .before (hargs H) fun _ => .pure _
  | .node (.member object property) range, hn =>
    rw [expr]
    exact .before (settles_expr H ctx object (hn.child (.head _))) fun _ => .pure _
  | .node (.index object key) range, hn =>
    rw [expr]
    exact .bind (settles_expr _ ctx object (hn.child (.head _))) fun _ =>
      .before (settles_expr H ctx key (hn.child (.tail _ (.head _)))) fun _ => .pure _
  | .node (.new className args) range, hn =>
    rw [expr]
    refine .bind (settles_checkArguments _ _) fun _ => ?_
    exact .before (settles_args H ctx args fun a ha => hn.child (List.mem_map_of_mem ha)) fun _ =>
      .pure _
  | .node (.function decl) range, hn =>
    have hdecl (name : String) := settles_function H ctx name decl (hn.child (.head _))
    rw [expr]
    cases hname : decl.name? with
    | some name => exact .behind (.pure name) fun _ => .before (hdecl _) fun _ => .pure _
    | none => exact .behind .anonymousName fun _ => .before (hdecl _) fun _ => .pure _
  | .node (.array elements) range, hn =>
    rw [expr]
    exact .before (settles_args H ctx elements fun a ha => hn.child (List.mem_map_of_mem ha)) fun _ =>
      .pure _
termination_by 2 * sizeOf e
decreasing_by all_goals (simp; omega)

theorem settles_args (H : Prop) (ctx : Context) (es : List Expr)
    (hn : ∀ e ∈ es, (Node.expr e).Every Node.Named) :
    Settles H (exprsReversed ctx es) (Expr.AllWellFormed es) := by
  match es, hn with
  | [], _ =>
    rw [exprsReversed]
    exact .of_total (.pure _)
  | e :: rest, hn =>
    rw [exprsReversed]
    have hrest (H : Prop) := settles_args H ctx rest fun a ha => hn a (.tail _ ha)
    have he := settles_expr H ctx e (hn e (.head _))
    exact Settles.congr (.bind (hrest _) fun _ => .before he fun _ => .pure _) fun _ => and_comm
termination_by 2 * sizeOf es
decreasing_by all_goals (try simp) <;> omega

theorem settles_function (H : Prop) (ctx : Context) (name : String) (decl : FunctionDecl)
    (hn : (Node.function decl).Every Node.Named) :
    Settles H (function ctx name decl) decl.WellFormed := by
  match decl, hn with
  | .mk n params body range, hn =>
    refine settles_declaration fun inner hexits hfunc => ?_
    have hbody := settles_statements H inner body (fun s hs => hn.child (List.mem_map_of_mem hs))
      (fun _ => hexits ▸ trivial) (hexits ▸ nofun)
    rwa [hexits, hfunc] at hbody
termination_by 2 * sizeOf decl
decreasing_by
  rw [hexits]
  simp
  omega

theorem settles_methods (H : Prop) (ctx : Context) (className : String) (decls : List FunctionDecl)
    (hn : ∀ decl ∈ decls, decl.name?.isSome = true ∧ (Node.function decl).Every Node.Named) :
    Settles H (methods ctx className decls) (FunctionDecl.AllWellFormed decls) := by
  match decls, hn with
  | [], _ =>
    rw [methods]
    exact .of_total (.pure _)
  | decl :: rest, hn =>
    obtain ⟨name, hname⟩ := Option.isSome_iff_exists.mp (hn decl (.head _)).1
    have hrest := settles_methods H ctx className rest fun d hd => hn d (.tail _ hd)
    rw [methods, hname]
    exact .bind (settles_function _ ctx _ decl (hn decl (.head _)).2) fun _ =>
      .before hrest fun _ => .pure _
termination_by 2 * sizeOf decls
decreasing_by all_goals (try simp) <;> omega

theorem settles_statement (H : Prop) (ctx : Context) (stmt : Stmt)
    (hn : (Node.stmt stmt).Every Node.Named)
    (hs : H → ExitScope.Settled ctx.inFunction ctx.exits) (hx : ExitScope.Named ctx.exits) :
    Settles H (statement ctx stmt) (stmt.WellFormed (ctx.exits.any ExitScope.isLoop) ctx.inFunction) := by
  match stmt, hn with
  | .node form range, hn =>
    by_cases hblock : ∃ body, form = .block body
    · obtain ⟨body, hbody⟩ := hblock
      have hlt : sizeOf body < sizeOf form := by
        rw [hbody]
        simp
      rw [hbody] at hn ⊢
      rw [statement]
      exact .before (settles_statements H ctx body (fun s hmem => hn.child (List.mem_map_of_mem hmem)) hs hx)
        fun _ => .pure _
    · have hform : ∀ body, form ≠ .block body := fun body heq => hblock ⟨body, heq⟩
      rw [statement.eq_2 ctx form range hform]
      exact .before (settles_form H ctx range form hform hn hs hx) fun _ => .pure _
termination_by 2 * sizeOf stmt + ExitScope.weights ctx.exits
decreasing_by all_goals (simp; omega)

theorem settles_statements (H : Prop) (ctx : Context) (body : List Stmt)
    (hn : ∀ stmt ∈ body, (Node.stmt stmt).Every Node.Named)
    (hs : H → ExitScope.Settled ctx.inFunction ctx.exits) (hx : ExitScope.Named ctx.exits) :
    Settles H (statements ctx body)
      (Stmt.AllWellFormed (ctx.exits.any ExitScope.isLoop) ctx.inFunction body) := by
  match body, hn with
  | [], _ =>
    rw [statements]
    exact .of_total (.pure _)
  | stmt :: rest, hn =>
    rw [statements]
    have hrest := settles_statements H ctx rest (fun s hmem => hn s (.tail _ hmem)) hs hx
    exact .bind (settles_statement _ ctx stmt (hn stmt (.head _)) (fun h => hs h.1) hx) fun _ =>
      .before hrest fun _ => .pure _
termination_by 2 * sizeOf body + ExitScope.weights ctx.exits
decreasing_by all_goals (try simp) <;> omega

theorem settles_form (H : Prop) (ctx : Context) (range : TokenRange) (form : StmtForm)
    (hform : ∀ body, form ≠ .block body) (hn : (Node.stmt (.node form range)).Every Node.Named)
    (hs : H → ExitScope.Settled ctx.inFunction ctx.exits) (hx : ExitScope.Named ctx.exits) :
    Settles H (statementForm ctx range form)
      (form.WellFormed (ctx.exits.any ExitScope.isLoop) ctx.inFunction) := by
  match form, hform, hn with
  | .expression e, _, hn =>
    rw [statementForm]
    exact .before (settles_expr H ctx e (hn.child (.head _))) fun _ => .pure _
  | .varDecl name init, _, hn =>
    rw [statementForm]
    refine .before (settles_valueOf fun e heq => ?_) fun _ => .pure _
    have hlt : sizeOf e < sizeOf init := lt_of_eq_some heq
    exact settles_expr H ctx e (hn.child (Node.mem_of_eq_some heq .expr))
  | .block body, hform, _ => exact absurd rfl (hform body)
  | .ifElse test thenBranch none, _, hn =>
    rw [statementForm]
    have hthen := settles_statement H ctx thenBranch (hn.child (.tail _ (.head _))) hs hx
    refine .behind .newLabel fun _ => .bind (settles_expr _ ctx test (hn.child (.head _))) fun _ => ?_
    exact Settles.congr (.before hthen fun _ => .pure _) fun _ => (and_iff_left trivial).symm
  | .ifElse test thenBranch (some elseBranch), _, hn =>
    rw [statementForm]
    refine .behind .newLabel fun _ => .bind (settles_expr _ ctx test (hn.child (.head _))) fun _ => ?_
    refine .bind (settles_statement _ ctx thenBranch (hn.child (.tail _ (.head _)))
      (fun h => hs h.1) hx) fun _ => .behind .newLabel fun _ => ?_
    exact .before (settles_statement H ctx elseBranch (hn.child (.tail _ (.tail _ (.head _)))) hs hx)
      fun _ => .pure _
  | .whileLoop test body, _, hn =>
    rw [statementForm]
    refine .behind .newLabel fun start => .behind .newLabel fun done => ?_
    refine .bind (settles_expr _ ctx test (hn.child (.head _))) fun _ => ?_
    exact .before (settles_statement H (ctx.inside (.loop start done)) body
      (hn.child (.tail _ (.head _))) hs (hx.loop start done)) fun _ => .pure _
  | .forLoop init test update body, _, hn =>
    rw [statementForm]
    refine .behind .newLabel fun _ => .behind .newLabel fun next => .behind .newLabel fun done => ?_
    refine .bind (settles_initializer fun s heq => ?_) fun _ =>
      .bind (settles_optionally fun e heq => ?_) fun _ =>
      .bind (settles_statement _ (ctx.inside (.loop next done)) body (hn.child ?_)
        (fun h => hs h.1) (hx.loop next done)) fun _ =>
      .before (settles_optionally fun e heq => ?_) fun _ => .pure _
    · have hlt : sizeOf s < sizeOf init := lt_of_eq_some heq
      have hmem := Node.mem_of_eq_some heq .stmt
      exact settles_statement _ ctx s (hn.child (List.mem_append_left _ hmem)) (fun h => hs h.1) hx
    · have hlt : sizeOf e < sizeOf test := lt_of_eq_some heq
      have hmem := Node.mem_of_eq_some heq .expr
      exact settles_expr _ ctx e (hn.child (List.mem_append_right _ (List.mem_append_left _ hmem)))
    · exact List.mem_append_right _ (List.mem_append_right _ (List.mem_append_right _ (.head _)))
    · have hlt : sizeOf e < sizeOf update := lt_of_eq_some heq
      have hmem := Node.mem_of_eq_some heq .expr
      exact settles_expr _ ctx e (hn.child (List.mem_append_right _ (List.mem_append_right _
        (List.mem_append_left _ hmem))))
  | .breakLoop, _, _ =>
    exact settles_jump (.inl rfl) fun count => settles_cross H ctx range ctx.exits count hs hx
  | .continueLoop, _, _ =>
    exact settles_jump (.inr rfl) fun count => settles_cross H ctx range ctx.exits count hs hx
  | .returnValue value, _, hn =>
    refine settles_return (fun e heq => ?_) fun count => settles_cross H ctx range ctx.exits count hs hx
    have hlt : sizeOf e < sizeOf value := lt_of_eq_some heq
    exact settles_expr _ ctx e (hn.child (Node.mem_of_eq_some heq .expr))
  | .throwValue value, _, hn =>
    rw [statementForm]
    exact .before (settles_expr H ctx value (hn.child (.head _))) fun _ => .pure _
  | .tryCatch body handler finalBody, _, hn =>
    have hbody : ∀ s ∈ body, (Node.stmt s).Every Node.Named := fun s hmem =>
      hn.child (List.mem_append_left _ (List.mem_map_of_mem hmem))
    have hfinal : ∀ s ∈ finalBody.getD [], (Node.stmt s).Every Node.Named := fun s hmem =>
      hn.child (List.mem_append_right _ (List.mem_append_right _ (List.mem_map_of_mem hmem)))
    rw [statementForm]
    refine .behind .newLabel fun _ => .behind .newLabel fun _ => .behind .newLabel fun _ => ?_
    -- the finalizer is compiled twice, and once more at each jump out of the body or the handler
    refine Settles.congr (.bind (settles_statements _ (ctx.inside (.guarded finalBody)) body hbody
        (fun h => (hs h.1).guarded h.2.2.1) (hx.guarded hfinal)) fun _ =>
      .bind (settles_catchClause fun binding hbody r heq => ?_) fun _ =>
      .bind (settles_finalizer fun fbody heq => ?_) fun _ =>
      .before (settles_finalizer fun fbody heq => ?_) fun _ => .pure _) fun _ =>
        and_congr_right fun _ => and_congr_right fun _ => and_self_iff
    · have hlt : sizeOf hbody < sizeOf handler := lt_of_eq_clause heq
      have hmem := Node.mem_of_eq_some heq .handler
      have hclause : (Node.handler (.mk binding hbody r)).Every Node.Named :=
        hn.child (List.mem_append_right _ (List.mem_append_left _ hmem))
      exact settles_statements _ (ctx.inside (.guarded finalBody)) hbody
        (fun s hmem => hclause.child (List.mem_map_of_mem hmem))
        (fun h => (hs h.1).guarded h.2.1) (hx.guarded hfinal)
    · have hlt : sizeOf fbody < sizeOf finalBody := lt_of_eq_some heq
      rw [heq] at hfinal
      exact settles_statements _ (ctx.inside .pendingThrow) fbody hfinal (fun h => hs h.1) hx.pendingThrow
    · have hlt : sizeOf fbody < sizeOf finalBody := lt_of_eq_some heq
      rw [heq] at hfinal
      exact settles_statements H ctx fbody hfinal hs hx
  | .function decl, _, hn =>
    obtain ⟨name, hname⟩ := Option.isSome_iff_exists.mp (show decl.name?.isSome = true from hn.self)
    rw [statementForm, hname]
    exact .before (settles_function H ctx _ decl (hn.child (.head _))) fun _ => .pure _
  | .classDecl name decls, _, hn =>
    refine settles_class (settles_methods H ctx name decls fun decl hmem => ?_)
    exact ⟨hn.self decl hmem, hn.child (List.mem_map_of_mem hmem)⟩
  | .debugger, _, _ | .empty, _, _ =>
    rw [statementForm]
    exact .of_total (.pure _)
termination_by 2 * sizeOf form + ExitScope.weights ctx.exits
decreasing_by all_goals (try simp) <;> omega

theorem settles_cross (H : Prop) (ctx : Context) (range : TokenRange) (exits : List ExitScope)
    (count : Nat) (hs : H → ExitScope.Settled ctx.inFunction exits) (hx : ExitScope.Named exits) :
    Settles H (crossExits ctx range exits count) True := by
  match exits, count, hs, hx with
  | [], _, _, _ =>
    rw [crossExits]
    exact .of_total (.pure _)
  | _ :: _, 0, _, _ =>
    rw [crossExits]
    exact .of_total (.pure _)
    simp
  | .loop _ _ :: outer, count + 1, hs, hx =>
    rw [crossExits]
    exact .before (settles_cross H ctx range outer count hs hx.outer) fun _ => .pure _
  | .pendingThrow :: outer, count + 1, hs, hx =>
    rw [crossExits]
    exact .before (settles_cross H ctx range outer count hs hx.outer) fun _ => .pure _
  | .guarded none :: outer, count + 1, hs, hx =>
    rw [crossExits]
    exact .before (settles_cross H ctx range outer count hs hx.outer) fun _ => .pure _
  | .guarded (some body) :: outer, count + 1, hs, hx =>
    rw [crossExits]
    have hfinal := settles_statements H { ctx with exits := outer } body (hx body (.head _))
      (fun h => (hs h).2) hx.outer
    have hrest := settles_cross H ctx range outer count (fun h => (hs h).2) hx.outer
    refine Settles.congr (.bind (hfinal.weaken And.left) fun _ => .before hrest fun _ => .pure _)
      fun h => ?_
    exact iff_of_true ⟨(hs h).1, trivial⟩ trivial
termination_by ExitScope.weights exits
decreasing_by all_goals simp

end

end Compile

/-! ## programs -/

/-- **A program compiles if and only if it is well-formed.**  Granted that its statements were read
from a token list with one end mark, at its end, the compilation succeeds if and only if each `break`
and `continue` stands inside the body of a loop of the same function, each `return` stands inside a
function, each left side of `=` is a target, and no function has more than 127 parameters and no call
more than 255 arguments, wherever in the tree they are.  If it fails, the error is a fault of the
program. -/
theorem compileProgram_ok_iff {tokens : List Token} {ts : List TokenKind} {body : List Stmt}
    (hkinds : tokens.map Token.kind = ts ++ [.eof]) (honly : .eof ∉ ts)
    (h : parseProgram tokens = .ok body) (source : Source) :
    ((∃ program, compileProgram body source = .ok program) ↔ Stmt.AllWellFormed false false body)
      ∧ ∀ e, compileProgram body source = .error e → e.isInternal = false := by
  have hnamed : ∀ stmt ∈ body, (Node.stmt stmt).Every Node.Named :=
    ((Grammar.parseProgram_eq_ok_iff ⟨hkinds, honly⟩).mp h).named
  have hsettles := Compile.settles_statements True { source := source } body hnamed
    (fun _ => trivial) nofun {}
  unfold compileProgram
  show ((∃ program, (Compile.statements { source := source } body {} >>= _) = .ok program) ↔ _)
    ∧ ∀ e, (Compile.statements { source := source } body {} >>= _) = .error e → _
  cases hrun : Compile.statements { source := source } body {} with
  | ok r =>
    rw [hrun] at hsettles
    exact ⟨iff_of_true ⟨_, rfl⟩ (hsettles trivial), nofun⟩
  | error e =>
    rw [hrun] at hsettles
    refine ⟨iff_of_false nofun (hsettles.1 trivial), ?_⟩
    intro e' he'
    cases he'
    exact hsettles.2

/-- In `for (;;) try { break; } finally { break; }` the first jump runs the second one on its way, and
both have their loop.  In `try { } finally { break; }` the jump has none, although nothing leads
there. -/
theorem compileProgram_ok_finalizer_jump :
    (∃ body, parseProgram ([.keyword .forKw, .symbol .lparen, .symbol .semicolon, .symbol .semicolon,
          .symbol .rparen, .keyword .tryKw, .symbol .lbrace, .keyword .breakKw, .symbol .semicolon,
          .symbol .rbrace, .keyword .finallyKw, .symbol .lbrace, .keyword .breakKw, .symbol .semicolon,
          .symbol .rbrace, .eof].map fun kind => ⟨kind, "", {}, 0⟩) = .ok body
        ∧ ∃ program, compileProgram body ⟨#[], ""⟩ = .ok program)
      ∧ ∃ body, parseProgram ([.keyword .tryKw, .symbol .lbrace, .symbol .rbrace, .keyword .finallyKw,
          .symbol .lbrace, .keyword .breakKw, .symbol .semicolon, .symbol .rbrace,
          .eof].map fun kind => ⟨kind, "", {}, 0⟩) = .ok body
        ∧ ¬ ∃ program, compileProgram body ⟨#[], ""⟩ = .ok program := by
  constructor
  · have honly : TokenKind.eof ∉ [TokenKind.keyword .forKw, .symbol .lparen, .symbol .semicolon,
        .symbol .semicolon, .symbol .rparen, .keyword .tryKw, .symbol .lbrace, .keyword .breakKw,
        .symbol .semicolon, .symbol .rbrace, .keyword .finallyKw, .symbol .lbrace, .keyword .breakKw,
        .symbol .semicolon, .symbol .rbrace] := by simp
    have hsp := Grammar.spells_kinds honly
    have hparse := (Grammar.parseProgram_eq_ok_iff hsp).mpr
      (.cons (.forLoop rfl rfl (.none rfl) (.none rfl) (.none rfl)
        (.tryCatch rfl (.mk rfl (.cons (.breakLoop rfl rfl) .nil) rfl) .none
          (.some rfl (.mk rfl (.cons (.breakLoop rfl rfl) .nil) rfl)) (.inr rfl))) .nil)
    refine ⟨_, hparse, (compileProgram_ok_iff hsp.kinds honly hparse ⟨#[], ""⟩).1.mpr ?_⟩
    exact ⟨⟨trivial, trivial, ⟨⟨rfl, trivial⟩, trivial, rfl, trivial⟩, trivial⟩, trivial⟩
  · have honly : TokenKind.eof ∉ [TokenKind.keyword .tryKw, .symbol .lbrace, .symbol .rbrace,
        .keyword .finallyKw, .symbol .lbrace, .keyword .breakKw, .symbol .semicolon,
        .symbol .rbrace] := by simp
    have hsp := Grammar.spells_kinds honly
    have hparse := (Grammar.parseProgram_eq_ok_iff hsp).mpr
      (.cons (.tryCatch rfl (.mk rfl .nil rfl) .none
        (.some rfl (.mk rfl (.cons (.breakLoop rfl rfl) .nil) rfl)) (.inr rfl)) .nil)
    refine ⟨_, hparse, fun hok => ?_⟩
    have hwell := (compileProgram_ok_iff hsp.kinds honly hparse ⟨#[], ""⟩).1.mp hok
    have hjump : false = true := hwell.1.2.2.1
    cases hjump

end ScriptMachine
