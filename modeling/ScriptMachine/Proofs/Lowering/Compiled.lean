import ScriptMachine.Proofs.Lowering.Rules

/-!
# Compilation follows the rules

Whatever a compilation makes is code by the rules of `ExprCode`, `StmtCode` and the others.

* `Compile.bind_ok`, `Compile.pure_ok`, ...   how a step of a compilation succeeds;
* `Compile.Ruled`            the rules for all that is smaller than a bound;
* `Compile.ruled_expr`, `Compile.ruled_form`, ...   one lemma for each function of the compiler;
* `Compile.bodyCode_of_ok`   the main statement: compiled statements are `BodyCode`.
-/

namespace ScriptMachine.Compile

/-! ## steps that succeed -/

section
variable {α β : Type} {b : Builder}

theorem bind_ok {m : Compile α} {f : α → Compile β} {r : β × Builder} :
    (m >>= f) b = .ok r ↔ ∃ a b₁, m b = .ok (a, b₁) ∧ f a b₁ = .ok r := by
  show (m b >>= fun x => f x.1 x.2) = .ok r ↔ _
  cases m b with
  | ok x =>
    show f x.1 x.2 = .ok r ↔ _
    constructor
    · intro h
      exact ⟨x.1, x.2, rfl, h⟩
    · rintro ⟨a, b₁, h₁, h₂⟩
      cases h₁
      exact h₂
  | error e =>
    show Except.error e = .ok r ↔ _
    simp

theorem pure_ok {a : α} {r : α × Builder} : (pure a : Compile α) b = .ok r ↔ (a, b) = r := by
  show Except.ok (a, b) = .ok r ↔ _
  rw [Except.ok.injEq]

theorem throw_ok {e : CompileError} {r : α × Builder} :
    (throw e : Compile α) b = .ok r ↔ False := by
  show Except.error e = .ok r ↔ _
  simp

theorem constant_ok {v : Value} {range : TokenRange} {r : Code × Builder} :
    constant v range b = .ok r ↔ (b.constantCode v range, b.addConstant v) = r := by
  show Except.ok (b.constantCode v range, b.addConstant v) = .ok r ↔ _
  rw [Except.ok.injEq]

theorem newLabel_ok {r : Label × Builder} :
    newLabel b = .ok r ↔ (b.nextLabel, b.addLabels 1) = r := by
  show Except.ok (b.nextLabel, b.addLabels 1) = .ok r ↔ _
  rw [Except.ok.injEq]

theorem defineClass_ok {entry : ClassEntry} {r : Unit × Builder} :
    defineClass entry b = .ok r ↔ ((), b.addClass entry) = r := by
  show Except.ok ((), b.addClass entry) = .ok r ↔ _
  rw [Except.ok.injEq]

theorem anonymousName_ok {r : String × Builder} :
    anonymousName b = .ok r ↔ ("$_anon_" ++ toString b.anonymous, b.addAnonymous) = r := by
  show Except.ok ("$_anon_" ++ toString b.anonymous, b.addAnonymous) = .ok r ↔ _
  rw [Except.ok.injEq]

theorem checkArguments_ok {callee : String} {n : Nat} {r : Unit × Builder} :
    checkArguments callee n b = .ok r ↔ n ≤ maxArguments ∧ ((), b) = r := by
  unfold checkArguments
  by_cases h : maxArguments < n
  · simp only [h, if_true, throw_ok, false_iff]
    omega
  · simp only [h, if_false, pure_ok]
    exact ⟨fun h' => ⟨by omega, h'⟩, fun h' => h'.2⟩

theorem defineFunction_ok {name : String} {params : List String} {body : Compile Code} {index : Nat}
    {b' : Builder} (h : defineFunction name params body b = .ok (index, b')) :
    ∃ c b₁, body (b.reserve name params) = .ok (c, b₁) ∧ index = b.functions.size
      ∧ b' = b₁.fill b.functions.size c := by
  unfold defineFunction at h
  obtain ⟨b₀, b₀', h₀, h⟩ := bind_ok.mp h
  obtain ⟨rfl, rfl⟩ : b = b₀ ∧ b = b₀' := by
    have h₀' : Except.ok (b, b) = Except.ok (b₀, b₀') := h₀
    simpa using h₀'
  obtain ⟨u, b₁, h₁, h⟩ := bind_ok.mp h
  obtain rfl : b.reserve name params = b₁ := by
    have h₁' : Except.ok ((), b.reserve name params) = Except.ok (u, b₁) := h₁
    simpa using h₁'
  obtain ⟨c, b₂, hc, h⟩ := bind_ok.mp h
  obtain ⟨u', b₃, h₃, h⟩ := bind_ok.mp h
  obtain rfl : b₂.fill b.functions.size c = b₃ := by
    have h₃' : Except.ok ((), b₂.fill b.functions.size c) = Except.ok (u', b₃) := h₃
    simpa using h₃'
  rw [pure_ok, Prod.mk.injEq] at h
  exact ⟨c, b₂, hc, h.1.symm, h.2.symm⟩

theorem closes_of_ok {closing : TokenRange} {code c : Code} {b' : Builder}
    (h : closeBody closing code b = .ok (c, b')) : Closes closing code b c b' := by
  unfold closeBody at h
  by_cases hend : endsInReturn code = true
  · simp only [hend, if_true, pure_ok, Prod.mk.injEq] at h
    obtain ⟨rfl, rfl⟩ := h
    exact .already hend
  · simp only [hend, if_false, bind_ok, constant_ok, pure_ok, Bool.false_eq_true] at h
    obtain ⟨_, _, h₁, h₂⟩ := h
    cases h₁
    cases h₂
    exact .added (by simpa using hend)

end

/-! ## parts that may be missing -/

section
variable {ctx : Context} {range : TokenRange} {b b' : Builder} {c : Code}

theorem lt_of_eq_some {α : Type} [SizeOf α] {a : α} {o : Option α} (h : o = some a) :
    sizeOf a < sizeOf o := by
  rw [h]
  simp

theorem lt_of_eq_clause {binding : Option String} {body : List Stmt} {range : TokenRange}
    {handler : Option CatchClause} (h : handler = some (.mk binding body range)) :
    sizeOf body < sizeOf handler := by
  rw [h]
  simp only [Option.some.sizeOf_spec, CatchClause.mk.sizeOf_spec]
  omega

theorem valueOf_none {e : Option Expr} (h : valueOf ctx range e b = .ok (c, b')) :
    e = none → c = b.constantCode .undefined range ∧ b' = b.addConstant .undefined := by
  rintro rfl
  rw [valueOf, constant_ok, Prod.mk.injEq] at h
  exact ⟨h.1.symm, h.2.symm⟩

theorem valueOf_some {e : Option Expr} {e' : Expr} (h : valueOf ctx range e b = .ok (c, b'))
    (he : e = some e') : expr ctx e' b = .ok (c, b') := by
  rwa [he, valueOf] at h

theorem initializer_none {init : Option Stmt} (h : initializer ctx init b = .ok (c, b')) :
    init = none → c = [] ∧ b' = b := by
  rintro rfl
  rw [initializer, pure_ok, Prod.mk.injEq] at h
  exact ⟨h.1.symm, h.2.symm⟩

theorem initializer_some {init : Option Stmt} {s : Stmt} (h : initializer ctx init b = .ok (c, b'))
    (hs : init = some s) : statement ctx s b = .ok (c, b') := by
  rwa [hs, initializer] at h

theorem optionally_ok {op : Op} {e : Option Expr} (h : optionally ctx op e b = .ok (c, b')) :
    ∃ c₁, c = optionalCode op e c₁ ∧ (∀ e', e = some e' → expr ctx e' b = .ok (c₁, b'))
      ∧ (e = none → b' = b) := by
  cases e with
  | none =>
    rw [optionally, pure_ok, Prod.mk.injEq] at h
    exact ⟨[], h.1.symm, fun _ heq => absurd heq (Option.some_ne_none _).symm, fun _ => h.2.symm⟩
  | some e =>
    simp only [optionally, bind_ok, pure_ok, Prod.mk.injEq] at h
    obtain ⟨c₁, b₁, he, rfl, rfl⟩ := h
    refine ⟨c₁, rfl, fun e' heq => ?_, fun heq => absurd heq (Option.some_ne_none _)⟩
    cases heq
    exact he

theorem catchClause_ok {caught done uncaught : Label} {handler : Option CatchClause}
    (h : catchClause ctx caught done uncaught handler b = .ok (c, b')) :
    ∃ c₁, c = handlerCode caught done uncaught handler c₁
      ∧ (∀ binding body r, handler = some (.mk binding body r) →
        statements ctx body b = .ok (c₁, b'))
      ∧ (handler = none → b' = b) := by
  cases handler with
  | none =>
    rw [catchClause, pure_ok, Prod.mk.injEq] at h
    exact ⟨[], h.1.symm, fun _ _ _ heq => absurd heq (Option.some_ne_none _).symm, fun _ => h.2.symm⟩
  | some clause =>
    obtain ⟨binding, body, r⟩ := clause
    simp only [catchClause, bind_ok, pure_ok, Prod.mk.injEq] at h
    obtain ⟨c₁, b₁, hb, rfl, rfl⟩ := h
    refine ⟨c₁, rfl, fun binding' body' r' heq => ?_, fun heq => absurd heq (Option.some_ne_none _)⟩
    cases heq
    exact hb

theorem finalizer_ok {body : Option (List Stmt)} (h : finalizer ctx range body b = .ok (c, b')) :
    ∃ c₁, c = finalCode range body c₁
      ∧ (∀ body', body = some body' → statements ctx body' b = .ok (c₁, b'))
      ∧ (body = none → b' = b) := by
  cases body with
  | none =>
    rw [finalizer, pure_ok, Prod.mk.injEq] at h
    exact ⟨[], h.1.symm, fun _ heq => absurd heq (Option.some_ne_none _).symm, fun _ => h.2.symm⟩
  | some body =>
    simp only [finalizer, bind_ok, pure_ok, Prod.mk.injEq] at h
    obtain ⟨c₁, b₁, hb, rfl, rfl⟩ := h
    refine ⟨c₁, rfl, fun body' heq => ?_, fun heq => absurd heq (Option.some_ne_none _)⟩
    cases heq
    exact hb

end

/-! ## statements -/

theorem take_insideLoop (exits : List ExitScope) :
    exits.take (insideLoop exits).length = insideLoop exits := by
  have h : (insideLoop exits ++ fromLoop exits).take (insideLoop exits).length = insideLoop exits :=
    List.take_left
  rwa [insideLoop_append_fromLoop] at h

section
variable {ctx : Context} {range : TokenRange} {b b' : Builder} {c : Code}

theorem leaveLoop_crossing (hneed : (insideLoop ctx.exits).any ExitScope.needsCleanup = true)
    (h : leaveExits ctx range ctx.exits (insideLoop ctx.exits).length b = .ok (c, b')) :
    crossExits ctx range (insideLoop ctx.exits ++ fromLoop ctx.exits) (insideLoop ctx.exits).length b
      = .ok (c, b') := by
  rw [leaveExits, take_insideLoop, if_pos hneed] at h
  rwa [insideLoop_append_fromLoop]

theorem leaveLoop_clean (hneed : ¬ (insideLoop ctx.exits).any ExitScope.needsCleanup = true)
    (h : leaveExits ctx range ctx.exits (insideLoop ctx.exits).length b = .ok (c, b')) :
    c = [] ∧ b' = b := by
  rw [leaveExits, take_insideLoop, if_neg hneed, pure_ok, Prod.mk.injEq] at h
  exact ⟨h.1.symm, h.2.symm⟩

theorem leaveAll_crossing (hneed : ctx.exits.any ExitScope.needsCleanup = true)
    (h : leaveExits ctx range ctx.exits ctx.exits.length b = .ok (c, b')) :
    crossExits ctx range (ctx.exits ++ []) ctx.exits.length b = .ok (c, b') := by
  rw [leaveExits, List.take_length, if_pos hneed] at h
  rwa [List.append_nil]

theorem breakLoop_ok (h : statementForm ctx range .breakLoop b = .ok (c, b')) :
    ∃ label c₁, loopTarget? ctx.exits .breakLoop = some label
      ∧ leaveExits ctx range ctx.exits (insideLoop ctx.exits).length b = .ok (c₁, b')
      ∧ c = c₁ ++ one (.loopExit (some label)) range := by
  rw [statementForm] at h
  cases hfind : ctx.exits.find? ExitScope.isLoop with
  | none =>
    rw [hfind] at h
    exact (throw_ok.mp h).elim
  | some scope =>
    rw [hfind] at h
    cases scope with
    | loop next done =>
      obtain ⟨c₁, b₁, hl, h⟩ := bind_ok.mp h
      rw [pure_ok, Prod.mk.injEq] at h
      obtain ⟨rfl, rfl⟩ := h
      refine ⟨done, c₁, ?_, hl, rfl⟩
      simp only [loopTarget?, hfind]
    | guarded _ => exact (throw_ok.mp h).elim
    | pendingThrow => exact (throw_ok.mp h).elim

theorem continueLoop_ok (h : statementForm ctx range .continueLoop b = .ok (c, b')) :
    ∃ label c₁, loopTarget? ctx.exits .continueLoop = some label
      ∧ leaveExits ctx range ctx.exits (insideLoop ctx.exits).length b = .ok (c₁, b')
      ∧ c = c₁ ++ one (.loopExit (some label)) range := by
  rw [statementForm] at h
  cases hfind : ctx.exits.find? ExitScope.isLoop with
  | none =>
    rw [hfind] at h
    exact (throw_ok.mp h).elim
  | some scope =>
    rw [hfind] at h
    cases scope with
    | loop next done =>
      obtain ⟨c₁, b₁, hl, h⟩ := bind_ok.mp h
      rw [pure_ok, Prod.mk.injEq] at h
      obtain ⟨rfl, rfl⟩ := h
      refine ⟨next, c₁, ?_, hl, rfl⟩
      simp only [loopTarget?, hfind]
    | guarded _ => exact (throw_ok.mp h).elim
    | pendingThrow => exact (throw_ok.mp h).elim

theorem returnValue_ok {value : Option Expr}
    (h : statementForm ctx range (.returnValue value) b = .ok (c, b')) :
    ctx.inFunction = true ∧ ∃ c₁ b₁, valueOf ctx range value b = .ok (c₁, b₁)
      ∧ (if ctx.exits.any ExitScope.needsCleanup then do
          let cleanup ← leaveExits ctx range ctx.exits ctx.exits.length
          return returnCode range c₁ cleanup
        else return c₁ ++ one .ret range : Compile Code) b₁ = .ok (c, b') := by
  rw [statementForm] at h
  cases hfun : ctx.inFunction with
  | false => simp only [hfun, Bool.not_false, if_true, bind_ok, throw_ok, false_and, exists_false] at h
  | true =>
    simp only [hfun, Bool.not_true, Bool.false_eq_true, if_false] at h
    obtain ⟨c₁, b₁, hv, h⟩ := bind_ok.mp h
    exact ⟨rfl, c₁, b₁, hv, h⟩

theorem forLoop_ok {init : Option Stmt} {test update : Option Expr} {body : Stmt}
    (h : statementForm ctx range (.forLoop init test update body) b = .ok (c, b')) :
    ∃ c₁ b₁ c₂ b₂ c₃ b₃ c₄,
      (∀ s, init = some s → statement ctx s (b.addLabels 3) = .ok (c₁, b₁))
      ∧ (init = none → c₁ = [] ∧ b₁ = b.addLabels 3)
      ∧ (∀ e, test = some e → expr ctx e b₁ = .ok (c₂, b₂)) ∧ (test = none → b₂ = b₁)
      ∧ statement (ctx.inside (.loop (b.nextLabel + 1) (b.nextLabel + 2))) body b₂ = .ok (c₃, b₃)
      ∧ (∀ e, update = some e → expr ctx e b₃ = .ok (c₄, b')) ∧ (update = none → b' = b₃)
      ∧ c = forCode b.nextLabel (b.nextLabel + 1) (b.nextLabel + 2) range c₁
        (optionalCode (.jumpFalse (b.nextLabel + 2)) test c₂) c₃ (optionalCode .pop update c₄) := by
  simp only [statementForm, bind_ok, pure_ok, newLabel_ok, Prod.mk.injEq] at h
  obtain ⟨_, _, ⟨rfl, rfl⟩, _, _, ⟨rfl, rfl⟩, _, _, ⟨rfl, rfl⟩, c₁, b₁, hi, c₂, b₂, ht, c₃, b₃,
    hs, c₄, b₄, hu, rfl, rfl⟩ := h
  obtain ⟨c₂, rfl, htsome, htnone⟩ := optionally_ok ht
  obtain ⟨c₄, rfl, husome, hunone⟩ := optionally_ok hu
  exact ⟨c₁, b₁, c₂, b₂, c₃, b₃, c₄, fun s hs => initializer_some hi hs, initializer_none hi, htsome,
    htnone, hs, husome, hunone, rfl⟩

theorem tryCatch_ok {body : List Stmt} {handler : Option CatchClause}
    {finalBody : Option (List Stmt)}
    (h : statementForm ctx range (.tryCatch body handler finalBody) b = .ok (c, b')) :
    ∃ c₁ b₁ c₂ b₂ c₃ b₃ c₄,
      statements (ctx.inside (.guarded finalBody)) body (b.addLabels 3) = .ok (c₁, b₁)
      ∧ (∀ binding hbody r, handler = some (.mk binding hbody r) →
        statements (ctx.inside (.guarded finalBody)) hbody b₁ = .ok (c₂, b₂))
      ∧ (handler = none → b₂ = b₁)
      ∧ (∀ fbody, finalBody = some fbody →
        statements (ctx.inside .pendingThrow) fbody b₂ = .ok (c₃, b₃))
      ∧ (finalBody = none → b₃ = b₂)
      ∧ (∀ fbody, finalBody = some fbody → statements ctx fbody b₃ = .ok (c₄, b'))
      ∧ (finalBody = none → b' = b₃)
      ∧ c = tryCode (if handler.isSome then b.nextLabel else b.nextLabel + 2) (b.nextLabel + 1)
        (b.nextLabel + 2) handler.isSome range c₁
        (handlerCode b.nextLabel (b.nextLabel + 1) (b.nextLabel + 2) handler c₂)
        (finalCode range finalBody c₃) (finalCode range finalBody c₄) := by
  simp only [statementForm, bind_ok, pure_ok, newLabel_ok, Prod.mk.injEq] at h
  obtain ⟨_, _, ⟨rfl, rfl⟩, _, _, ⟨rfl, rfl⟩, _, _, ⟨rfl, rfl⟩, c₁, b₁, hb, c₂, b₂, hh, c₃, b₃,
    hr, c₄, b₄, hf, rfl, rfl⟩ := h
  obtain ⟨c₂, rfl, hhsome, hhnone⟩ := catchClause_ok hh
  obtain ⟨c₃, rfl, hrsome, hrnone⟩ := finalizer_ok hr
  obtain ⟨c₄, rfl, hfsome, hfnone⟩ := finalizer_ok hf
  exact ⟨c₁, b₁, c₂, b₂, c₃, b₃, c₄, hb, hhsome, hhnone, hrsome, hrnone, hfsome, hfnone, rfl⟩

theorem functionForm_ok {decl : FunctionDecl}
    (h : statementForm ctx range (.function decl) b = .ok (c, b')) :
    ∃ name index, decl.name? = some name
      ∧ function ctx (ctx.resolve name) decl b = .ok (index, b') ∧ c = [] := by
  simp only [statementForm] at h
  cases hname : decl.name? with
  | none => simp only [hname, throw_ok] at h
  | some name =>
    simp only [hname, bind_ok, pure_ok, Prod.mk.injEq] at h
    obtain ⟨index, _, hf, rfl, rfl⟩ := h
    exact ⟨name, index, rfl, hf, rfl⟩

theorem classDecl_ok {name : String} {decls : List FunctionDecl}
    (h : statementForm ctx range (.classDecl name decls) b = .ok (c, b')) :
    ∃ ms b₁, methods ctx name decls b = .ok (ms, b₁)
      ∧ (ms.any (·.1 = constructorName) = true ∧ c = [] ∧ b' = b₁.addClass ⟨name, ms⟩
        ∨ ms.any (·.1 = constructorName) = false ∧ ∃ code b₂,
          closeBody ⟨range.last, range.last⟩ [] (b₁.reserve (methodName name constructorName) [])
            = .ok (code, b₂)
          ∧ c = []
          ∧ b' = (b₂.fill b₁.functions.size code).addClass
            ⟨name, ms ++ [(constructorName, b₁.functions.size)]⟩) := by
  simp only [statementForm, bind_ok] at h
  obtain ⟨ms, b₁, hm, h⟩ := h
  refine ⟨ms, b₁, hm, ?_⟩
  by_cases hc : ms.any (·.1 = constructorName) = true
  · simp only [hc, if_true, bind_ok, pure_ok, defineClass_ok, Prod.mk.injEq] at h
    obtain ⟨_, _, ⟨-, rfl⟩, rfl, rfl⟩ := h
    exact .inl ⟨hc, rfl, rfl⟩
  · simp only [hc, if_false, bind_ok, pure_ok, defineClass_ok, Prod.mk.injEq,
      Bool.false_eq_true] at h
    obtain ⟨index, b₂, hdef, _, _, ⟨-, rfl⟩, rfl, rfl⟩ := h
    obtain ⟨code, b₃, hcl, rfl, rfl⟩ := defineFunction_ok hdef
    exact .inr ⟨Bool.not_eq_true _ ▸ hc, code, b₃, hcl, rfl, rfl⟩

end

/-! ## the rules -/

theorem sizeOf_member (object : Expr) (property : String) (r : TokenRange) :
    sizeOf object < sizeOf (Expr.node (.member object property) r) := by
  simp only [Expr.node.sizeOf_spec, ExprForm.member.sizeOf_spec]
  omega

theorem sizeOf_index (object key : Expr) (r : TokenRange) :
    sizeOf object < sizeOf (Expr.node (.index object key) r)
      ∧ sizeOf key < sizeOf (Expr.node (.index object key) r) := by
  simp only [Expr.node.sizeOf_spec, ExprForm.index.sizeOf_spec]
  omega

/-- what can be assigned to -/
theorem assign_ok {ctx : Context} {target value : Expr} {range : TokenRange} {b : Builder} {c : Code}
    {b' : Builder} (h : expr ctx (.node (.assign target value) range) b = .ok (c, b')) :
    (∃ name r, target = .node (.variable name) r)
      ∨ (∃ object property r, target = .node (.member object property) r)
      ∨ ∃ object key r, target = .node (.index object key) r := by
  obtain ⟨form, r⟩ := target
  cases form with
  | «variable» name => exact .inl ⟨name, r, rfl⟩
  | member object property => exact .inr (.inl ⟨object, property, r, rfl⟩)
  | index object key => exact .inr (.inr ⟨object, key, r, rfl⟩)
  | _ => simp only [expr, throw_ok] at h

/-- a path is a name or a property -/
theorem isPath_cases {callee : Expr} (h : callee.form.isPath = true) :
    (∃ name r, callee = .node (.variable name) r)
      ∨ ∃ object property r, callee = .node (.member object property) r := by
  obtain ⟨form, r⟩ := callee
  cases form with
  | «variable» name => exact .inl ⟨name, r, rfl⟩
  | member object property => exact .inr ⟨object, property, r, rfl⟩
  | _ => cases h

/-- calls of what is neither a name nor a property -/
theorem callValue_ok {ctx : Context} {callee : Expr} {args : List Expr} {range : TokenRange}
    {b : Builder} {c : Code} {b' : Builder}
    (hplain : callee.form.isPath = false)
    (h : expr ctx (.node (.call callee args) range) b = .ok (c, b')) :
    args.length ≤ maxArguments ∧ ∃ c₁ b₁ c₂, exprsReversed ctx args b = .ok (c₁, b₁)
      ∧ expr ctx callee b₁ = .ok (c₂, b') ∧ c = c₁ ++ c₂ ++ one (.call args.length false) range := by
  rw [expr] at h
  obtain ⟨_, b₀, hcheck, h⟩ := bind_ok.mp h
  obtain ⟨hn, heq⟩ := checkArguments_ok.mp hcheck
  cases heq
  refine ⟨hn, ?_⟩
  split at h
  · cases hplain
  · cases hplain
  · simp only [bind_ok, pure_ok, Prod.mk.injEq] at h
    obtain ⟨c₁, b₁, ha, c₂, b₂, hc, rfl, rfl⟩ := h
    exact ⟨c₁, b₁, c₂, ha, hc, rfl⟩

/-- What is compiled is code by the rules, for whatever is smaller than the bound. -/
structure Ruled (n : Nat) : Prop where
  expr {ctx : Context} {e : Expr} {b : Builder} {c : Code} {b' : Builder}
      (h : Compile.expr ctx e b = .ok (c, b')) (hlt : 2 * sizeOf e < n) : ExprCode ctx e b c b'
  args {ctx : Context} {es : List Expr} {b : Builder} {c : Code} {b' : Builder}
      (h : exprsReversed ctx es b = .ok (c, b')) (hlt : 2 * sizeOf es < n) : ArgsCode ctx es b c b'
  function {ctx : Context} {name : String} {decl : FunctionDecl} {b : Builder} {index : Nat}
      {b' : Builder} (h : Compile.function ctx name decl b = .ok (index, b'))
      (hlt : 2 * sizeOf decl < n) : FunctionAdded ctx name decl b index b'
  methods {ctx : Context} {className : String} {decls : List FunctionDecl} {b : Builder}
      {ms : List (String × Nat)} {b' : Builder}
      (h : Compile.methods ctx className decls b = .ok (ms, b')) (hlt : 2 * sizeOf decls < n) :
    MethodsAdded ctx className decls b ms b'
  stmt {ctx : Context} {s : Stmt} {b : Builder} {c : Code} {b' : Builder}
      (h : statement ctx s b = .ok (c, b')) (hlt : 2 * sizeOf s + ExitScope.weights ctx.exits < n) :
    StmtCode ctx s b c b'
  body {ctx : Context} {body : List Stmt} {b : Builder} {c : Code} {b' : Builder}
      (h : statements ctx body b = .ok (c, b'))
      (hlt : 2 * sizeOf body + ExitScope.weights ctx.exits < n) : BodyCode ctx body b c b'
  form {ctx : Context} {range : TokenRange} {form : StmtForm} {b : Builder} {c : Code} {b' : Builder}
      (hform : ∀ body, form ≠ .block body) (h : statementForm ctx range form b = .ok (c, b'))
      (hlt : 2 * sizeOf form + ExitScope.weights ctx.exits < n) : FormCode ctx range form b c b'
  cross {ctx : Context} {range : TokenRange} {crossed outer : List ExitScope} {b : Builder} {c : Code}
      {b' : Builder} (h : crossExits ctx range (crossed ++ outer) crossed.length b = .ok (c, b'))
      (hlt : ExitScope.weights (crossed ++ outer) < n) : CrossCode ctx range crossed outer b c b'

section
variable {ctx : Context} {b b' : Builder} {c : Code}

theorem ruled_expr {e : Expr} (ih : Ruled (2 * sizeOf e)) (h : expr ctx e b = .ok (c, b')) :
    ExprCode ctx e b c b' := by
  obtain ⟨form, range⟩ := e
  cases form with
  | number x | string x | bool x | null | undefined =>
    simp only [expr, constant_ok, Prod.mk.injEq] at h
    obtain ⟨rfl, rfl⟩ := h
    exact .literal rfl
  | «variable» name =>
    simp only [expr, pure_ok, Prod.mk.injEq] at h
    obtain ⟨rfl, rfl⟩ := h
    exact .variable
  | this =>
    simp only [expr, pure_ok, Prod.mk.injEq] at h
    obtain ⟨rfl, rfl⟩ := h
    exact .this
  | assign target value =>
    rcases assign_ok h with ⟨name, r, rfl⟩ | ⟨object, property, r, rfl⟩ | ⟨object, key, r, rfl⟩
    · simp only [expr, bind_ok, pure_ok, Prod.mk.injEq] at h
      obtain ⟨_, _, hv, rfl, rfl⟩ := h
      exact .assignVariable (ih.expr hv (by simp; omega))
    · simp only [expr, bind_ok, pure_ok, Prod.mk.injEq] at h
      obtain ⟨_, _, ho, _, _, hv, rfl, rfl⟩ := h
      exact .assignMember (ih.expr ho (by simp; omega)) (ih.expr hv (by simp; omega))
    · simp only [expr, bind_ok, pure_ok, Prod.mk.injEq] at h
      obtain ⟨_, _, ho, _, _, hv, _, _, hk, rfl, rfl⟩ := h
      exact .assignIndex (ih.expr ho (by simp; omega)) (ih.expr hv (by simp; omega))
        (ih.expr hk (by simp; omega))
  | binary op left right =>
    simp only [expr, bind_ok, pure_ok, Prod.mk.injEq] at h
    obtain ⟨_, _, hl, _, _, hr, rfl, rfl⟩ := h
    exact .binary (ih.expr hl (by simp; omega)) (ih.expr hr (by simp; omega))
  | logical op left right =>
    simp only [expr, bind_ok, pure_ok, newLabel_ok, constant_ok, Prod.mk.injEq] at h
    obtain ⟨_, _, ⟨rfl, rfl⟩, _, _, ⟨rfl, rfl⟩, _, _, hl, _, _, hr, _, _, ⟨rfl, rfl⟩, rfl, rfl⟩ := h
    exact .logical (ih.expr hl (by simp; omega)) (ih.expr hr (by simp; omega))
  | unary op operand =>
    simp only [expr, bind_ok, pure_ok, Prod.mk.injEq] at h
    obtain ⟨_, _, ho, rfl, rfl⟩ := h
    exact .unary (ih.expr ho (by simp; omega))
  | call callee args =>
    cases hpath : callee.form.isPath with
    | false =>
      obtain ⟨hn, _, _, _, ha, hc, rfl⟩ := callValue_ok hpath h
      exact .callValue hn hpath (ih.args ha (by simp; omega)) (ih.expr hc (by simp; omega))
    | true =>
      rcases isPath_cases hpath with ⟨name, r, rfl⟩ | ⟨object, property, r, rfl⟩
      · simp only [expr, bind_ok, pure_ok, checkArguments_ok, Prod.mk.injEq] at h
        obtain ⟨_, _, ⟨hn, -, rfl⟩, _, _, ha, rfl, rfl⟩ := h
        exact .callVariable hn (ih.args ha (by simp; omega))
      · simp only [expr, bind_ok, pure_ok, checkArguments_ok, Prod.mk.injEq] at h
        obtain ⟨_, _, ⟨hn, -, rfl⟩, _, _, ho, _, _, ha, rfl, rfl⟩ := h
        exact .callMember hn (ih.expr ho (by simp; omega)) (ih.args ha (by simp; omega))
  | member object property =>
    simp only [expr, bind_ok, pure_ok, Prod.mk.injEq] at h
    obtain ⟨_, _, ho, rfl, rfl⟩ := h
    exact .member (ih.expr ho (by simp; omega))
  | index object key =>
    simp only [expr, bind_ok, pure_ok, Prod.mk.injEq] at h
    obtain ⟨_, _, ho, _, _, hk, rfl, rfl⟩ := h
    exact .index (ih.expr ho (by simp; omega)) (ih.expr hk (by simp; omega))
  | new className args =>
    simp only [expr, bind_ok, pure_ok, checkArguments_ok, Prod.mk.injEq] at h
    obtain ⟨_, _, ⟨hn, -, rfl⟩, _, _, ha, rfl, rfl⟩ := h
    exact .new hn (ih.args ha (by simp; omega))
  | function decl =>
    obtain ⟨own, params, body, r⟩ := decl
    cases own with
    | some name =>
      simp only [expr, bind_ok, FunctionDecl.name?, pure_ok, Prod.mk.injEq] at h
      obtain ⟨_, _, ⟨rfl, rfl⟩, _, _, hf, rfl, rfl⟩ := h
      exact .function (ih.function hf (by simp; omega))
    | none =>
      simp only [expr, bind_ok, FunctionDecl.name?, anonymousName_ok, pure_ok, Prod.mk.injEq] at h
      obtain ⟨_, _, ⟨rfl, rfl⟩, _, _, hf, rfl, rfl⟩ := h
      exact .function (ih.function hf (by simp; omega))
  | array elements =>
    simp only [expr, bind_ok, pure_ok, Prod.mk.injEq] at h
    obtain ⟨_, _, ha, rfl, rfl⟩ := h
    exact .array (ih.args ha (by simp; omega))

theorem ruled_args {es : List Expr} (ih : Ruled (2 * sizeOf es))
    (h : exprsReversed ctx es b = .ok (c, b')) : ArgsCode ctx es b c b' := by
  cases es with
  | nil =>
    simp only [exprsReversed, pure_ok, Prod.mk.injEq] at h
    obtain ⟨rfl, rfl⟩ := h
    exact .nil
  | cons e rest =>
    simp only [exprsReversed, bind_ok, pure_ok, Prod.mk.injEq] at h
    obtain ⟨_, _, hr, _, _, he, rfl, rfl⟩ := h
    exact .cons (ih.args hr (by simp)) (ih.expr he (by simp; omega))

theorem ruled_function {name : String} {decl : FunctionDecl} {index : Nat}
    (ih : Ruled (2 * sizeOf decl)) (h : function ctx name decl b = .ok (index, b')) :
    FunctionAdded ctx name decl b index b' := by
  obtain ⟨own, params, body, range⟩ := decl
  simp only [function] at h
  by_cases hn : maxParameters < params.length
  · simp only [hn, if_true, bind_ok, throw_ok, false_and, exists_false] at h
  · simp only [hn, if_false] at h
    obtain ⟨c', b₂, hbody, rfl, rfl⟩ := defineFunction_ok h
    obtain ⟨c, b₁, hb, hc⟩ := bind_ok.mp hbody
    exact .mk (by omega) (ih.body hb (by simp; omega)) (closes_of_ok hc)

theorem ruled_methods {className : String} {decls : List FunctionDecl} {ms : List (String × Nat)}
    (ih : Ruled (2 * sizeOf decls)) (h : methods ctx className decls b = .ok (ms, b')) :
    MethodsAdded ctx className decls b ms b' := by
  cases decls with
  | nil =>
    simp only [methods, pure_ok, Prod.mk.injEq] at h
    obtain ⟨rfl, rfl⟩ := h
    exact .nil
  | cons decl rest =>
    simp only [methods] at h
    cases hname : decl.name? with
    | none => simp only [hname, throw_ok] at h
    | some name =>
      simp only [hname, bind_ok, pure_ok, Prod.mk.injEq] at h
      obtain ⟨_, _, hf, _, _, hr, rfl, rfl⟩ := h
      exact .cons hname (ih.function hf (by simp; omega)) (ih.methods hr (by simp))

theorem ruled_stmt {stmt : Stmt} (ih : Ruled (2 * sizeOf stmt + ExitScope.weights ctx.exits))
    (h : statement ctx stmt b = .ok (c, b')) : StmtCode ctx stmt b c b' := by
  obtain ⟨form, range⟩ := stmt
  by_cases hblock : ∃ body, form = .block body
  · obtain ⟨body, rfl⟩ := hblock
    rw [statement] at h
    obtain ⟨_, _, hb, h⟩ := bind_ok.mp h
    rw [pure_ok, Prod.mk.injEq] at h
    obtain ⟨rfl, rfl⟩ := h
    exact .block (ih.body hb (by simp; omega))
  · have hform : ∀ body, form ≠ .block body := fun body heq => hblock ⟨body, heq⟩
    rw [statement.eq_2 ctx form range hform] at h
    obtain ⟨_, _, hf, h⟩ := bind_ok.mp h
    rw [pure_ok, Prod.mk.injEq] at h
    obtain ⟨rfl, rfl⟩ := h
    exact .form hform (ih.form hform hf (by simp; omega))

theorem ruled_body {body : List Stmt} (ih : Ruled (2 * sizeOf body + ExitScope.weights ctx.exits))
    (h : statements ctx body b = .ok (c, b')) : BodyCode ctx body b c b' := by
  cases body with
  | nil =>
    simp only [statements, pure_ok, Prod.mk.injEq] at h
    obtain ⟨rfl, rfl⟩ := h
    exact .nil
  | cons stmt rest =>
    simp only [statements, bind_ok, pure_ok, Prod.mk.injEq] at h
    obtain ⟨_, _, hs, _, _, hr, rfl, rfl⟩ := h
    exact .cons (ih.stmt hs (by simp; omega)) (ih.body hr (by simp))

theorem ruled_form {range : TokenRange} {form : StmtForm}
    (ih : Ruled (2 * sizeOf form + ExitScope.weights ctx.exits)) (hform : ∀ body, form ≠ .block body)
    (h : statementForm ctx range form b = .ok (c, b')) : FormCode ctx range form b c b' := by
  cases form with
  | expression e =>
    simp only [statementForm, bind_ok, pure_ok, Prod.mk.injEq] at h
    obtain ⟨_, _, he, rfl, rfl⟩ := h
    exact .expression (ih.expr he (by simp; omega))
  | varDecl name init =>
    simp only [statementForm, bind_ok, pure_ok, Prod.mk.injEq] at h
    obtain ⟨_, _, hv, rfl, rfl⟩ := h
    refine .varDecl (fun e he => ?_) (valueOf_none hv)
    have hlt : sizeOf e < sizeOf init := lt_of_eq_some he
    exact ih.expr (valueOf_some hv he) (by simp; omega)
  | block body => exact absurd rfl (hform body)
  | ifElse test thenBranch elseBranch =>
    cases elseBranch with
    | none =>
      simp only [statementForm, bind_ok, pure_ok, newLabel_ok, Prod.mk.injEq] at h
      obtain ⟨_, _, ⟨rfl, rfl⟩, _, _, ht, _, _, hs, rfl, rfl⟩ := h
      exact .ifOnly (ih.expr ht (by simp; omega)) (ih.stmt hs (by simp))
    | some elseBranch =>
      simp only [statementForm, bind_ok, pure_ok, newLabel_ok, Prod.mk.injEq] at h
      obtain ⟨_, _, ⟨rfl, rfl⟩, _, _, ht, _, _, hs, _, _, ⟨rfl, rfl⟩, _, _, he, rfl, rfl⟩ := h
      exact .ifElse (ih.expr ht (by simp; omega)) (ih.stmt hs (by simp; omega))
        (ih.stmt he (by simp; omega))
  | whileLoop test body =>
    simp only [statementForm, bind_ok, pure_ok, newLabel_ok, Prod.mk.injEq] at h
    obtain ⟨_, _, ⟨rfl, rfl⟩, _, _, ⟨rfl, rfl⟩, _, _, ht, _, _, hs, rfl, rfl⟩ := h
    exact .whileLoop (ih.expr ht (by simp; omega)) (ih.stmt hs (by simp; omega))
  | forLoop init test update body =>
    obtain ⟨c₁, b₁, c₂, b₂, c₃, b₃, c₄, hi, hinone, ht, htnone, hs, hu, hunone, rfl⟩ := forLoop_ok h
    refine .forLoop (fun s hs => ?_) hinone (fun e he => ?_) htnone (ih.stmt hs (by simp; omega))
      (fun e he => ?_) hunone
    · have hlt : sizeOf s < sizeOf init := lt_of_eq_some hs
      exact ih.stmt (hi s hs) (by simp; omega)
    · have hlt : sizeOf e < sizeOf test := lt_of_eq_some he
      exact ih.expr (ht e he) (by simp; omega)
    · have hlt : sizeOf e < sizeOf update := lt_of_eq_some he
      exact ih.expr (hu e he) (by simp; omega)
  | breakLoop =>
    obtain ⟨label, c₁, ht, hl, rfl⟩ := breakLoop_ok h
    by_cases hneed : (insideLoop ctx.exits).any ExitScope.needsCleanup = true
    · have hw := congrArg ExitScope.weights (insideLoop_append_fromLoop ctx.exits)
      exact .jumpCrossing ht hneed (ih.cross (leaveLoop_crossing hneed hl) (by simp; omega))
    · obtain ⟨rfl, rfl⟩ := leaveLoop_clean hneed hl
      exact .jump ht (by simpa using hneed)
  | continueLoop =>
    obtain ⟨label, c₁, ht, hl, rfl⟩ := continueLoop_ok h
    by_cases hneed : (insideLoop ctx.exits).any ExitScope.needsCleanup = true
    · have hw := congrArg ExitScope.weights (insideLoop_append_fromLoop ctx.exits)
      exact .jumpCrossing ht hneed (ih.cross (leaveLoop_crossing hneed hl) (by simp; omega))
    · obtain ⟨rfl, rfl⟩ := leaveLoop_clean hneed hl
      exact .jump ht (by simpa using hneed)
  | returnValue value =>
    obtain ⟨hfun, c₁, b₁, hv, h⟩ := returnValue_ok h
    by_cases hneed : ctx.exits.any ExitScope.needsCleanup = true
    · rw [if_pos hneed] at h
      obtain ⟨c₂, b₂, hl, h⟩ := bind_ok.mp h
      rw [pure_ok, Prod.mk.injEq] at h
      obtain ⟨rfl, rfl⟩ := h
      refine .returnCrossing hfun (fun e he => ?_) (valueOf_none hv) hneed
        (ih.cross (leaveAll_crossing hneed hl) (by simp))
      have hlt : sizeOf e < sizeOf value := lt_of_eq_some he
      exact ih.expr (valueOf_some hv he) (by simp; omega)
    · rw [if_neg hneed, pure_ok, Prod.mk.injEq] at h
      obtain ⟨rfl, rfl⟩ := h
      refine .returnValue hfun (fun e he => ?_) (valueOf_none hv) (by simpa using hneed)
      have hlt : sizeOf e < sizeOf value := lt_of_eq_some he
      exact ih.expr (valueOf_some hv he) (by simp; omega)
  | throwValue value =>
    simp only [statementForm, bind_ok, pure_ok, Prod.mk.injEq] at h
    obtain ⟨_, _, he, rfl, rfl⟩ := h
    exact .throwValue (ih.expr he (by simp; omega))
  | tryCatch body handler finalizer =>
    obtain ⟨c₁, b₁, c₂, b₂, c₃, b₃, c₄, hb, hh, hhnone, hr, hrnone, hf, hfnone, rfl⟩ := tryCatch_ok h
    refine .tryCatch (ih.body hb (by simp; omega)) (fun binding hbody hrange hsome => ?_) hhnone
      (fun body' hsome => ?_) hrnone (fun body' hsome => ?_) hfnone
    · have hlt : sizeOf hbody < sizeOf handler := lt_of_eq_clause hsome
      exact ih.body (hh _ _ _ hsome) (by simp; omega)
    · have hlt : sizeOf body' < sizeOf finalizer := lt_of_eq_some hsome
      exact ih.body (hr _ hsome) (by simp; omega)
    · have hlt : sizeOf body' < sizeOf finalizer := lt_of_eq_some hsome
      exact ih.body (hf _ hsome) (by simp; omega)
  | function decl =>
    obtain ⟨name, index, hname, hf, rfl⟩ := functionForm_ok h
    exact .function hname (ih.function hf (by simp; omega))
  | classDecl name decls =>
    obtain ⟨ms, b₁, hm, h⟩ := classDecl_ok h
    have hmethods := ih.methods hm (by simp; omega)
    rcases h with ⟨hc, rfl, rfl⟩ | ⟨hc, c, b₂, hcl, rfl, rfl⟩
    · exact .classDecl hmethods hc
    · exact .classPlain hmethods hc (closes_of_ok hcl)
  | debugger =>
    simp only [statementForm, pure_ok, Prod.mk.injEq] at h
    obtain ⟨rfl, rfl⟩ := h
    exact .debugger
  | empty =>
    simp only [statementForm, pure_ok, Prod.mk.injEq] at h
    obtain ⟨rfl, rfl⟩ := h
    exact .empty

theorem ruled_cross {range : TokenRange} {crossed outer : List ExitScope}
    (ih : Ruled (ExitScope.weights (crossed ++ outer)))
    (h : crossExits ctx range (crossed ++ outer) crossed.length b = .ok (c, b')) :
    CrossCode ctx range crossed outer b c b' := by
  cases crossed with
  | nil =>
    have hnil : crossExits ctx range outer 0 b = .ok ([], b) := by
      cases outer <;> simp only [crossExits] <;> rfl
    rw [List.nil_append, List.length_nil, hnil, Except.ok.injEq, Prod.mk.injEq] at h
    obtain ⟨rfl, rfl⟩ := h
    exact .nil
  | cons scope crossed =>
    cases scope with
    | loop next done =>
      simp only [List.cons_append, List.length_cons, crossExits, bind_ok, pure_ok, Prod.mk.injEq] at h
      obtain ⟨_, _, hr, rfl, rfl⟩ := h
      exact .loop (ih.cross hr (by simp))
    | pendingThrow =>
      simp only [List.cons_append, List.length_cons, crossExits, bind_ok, pure_ok, Prod.mk.injEq] at h
      obtain ⟨_, _, hr, rfl, rfl⟩ := h
      exact .pendingThrow (ih.cross hr (by simp))
    | guarded finalizer =>
      cases finalizer with
      | none =>
        simp only [List.cons_append, List.length_cons, crossExits, bind_ok, pure_ok,
          Prod.mk.injEq] at h
        obtain ⟨_, _, hr, rfl, rfl⟩ := h
        exact .guarded (ih.cross hr (by simp))
      | some body =>
        simp only [List.cons_append, List.length_cons, crossExits, bind_ok, pure_ok,
          Prod.mk.injEq] at h
        obtain ⟨_, _, hb, _, _, hr, rfl, rfl⟩ := h
        exact .finalizer (ih.body hb (by simp)) (ih.cross hr (by simp))

end

/-- on the bound: what a construct is compiled from is smaller than itself -/
theorem ruled (n : Nat) : Ruled n := by
  induction n using Nat.strong_induction_on with
  | _ n ih =>
  exact {
    expr := fun h hlt => ruled_expr (ih _ hlt) h
    args := fun h hlt => ruled_args (ih _ hlt) h
    function := fun h hlt => ruled_function (ih _ hlt) h
    methods := fun h hlt => ruled_methods (ih _ hlt) h
    stmt := fun h hlt => ruled_stmt (ih _ hlt) h
    body := fun h hlt => ruled_body (ih _ hlt) h
    form := fun hform h hlt => ruled_form (ih _ hlt) hform h
    cross := fun h hlt => ruled_cross (ih _ hlt) h }

theorem formCode_of_ok (ctx : Context) (range : TokenRange) (form : StmtForm) (b : Builder)
    (c : Code) (b' : Builder) (hform : ∀ body, form ≠ .block body)
    (h : statementForm ctx range form b = .ok (c, b')) : FormCode ctx range form b c b' :=
  (ruled _).form hform h (Nat.lt_succ_self _)

theorem bodyCode_of_ok (ctx : Context) (body : List Stmt) (b : Builder) (c : Code) (b' : Builder)
    (h : statements ctx body b = .ok (c, b')) : BodyCode ctx body b c b' :=
  (ruled _).body h (Nat.lt_succ_self _)

end ScriptMachine.Compile
