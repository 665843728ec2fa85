import ScriptMachine.Proofs.Lowering.Compiled

/-!
# Code by the rules is made

The other direction of `Compile.bodyCode_of_ok`: whatever is code by the rules of `ExprCode`,
`StmtCode` and the others comes out of the compilation, and whatever source the compilation is told.
The source is only read for the texts of errors.

* `Context.withSource`   the same context with another source;
* `Compile.ok_of_bodyCode`   the main statement;
* `Compile.statements_withSource`   a compilation that succeeds does not depend on the source.
-/

namespace ScriptMachine

/-- the same surroundings in another source -/
def Context.withSource (ctx : Context) (source : Source) : Context := { ctx with source := source }

namespace Compile

/-! ## steps and parts that may be missing -/

section
variable {ctx : Context} {range : TokenRange} {b b₁ b₂ : Builder} {c : Code}

theorem ok_of_closes {closing : TokenRange} {code : Code} (h : Closes closing code b c b₁) :
    closeBody closing code b = .ok (c, b₁) := by
  unfold closeBody
  cases h with
  | already hend =>
    rw [if_pos hend]
    rfl
  | added hend =>
    rw [if_neg (by simp [hend])]
    rfl

theorem ok_of_body {name : String} {params : List String} {body : Compile Code}
    (h : body (b.reserve name params) = .ok (c, b₁)) :
    defineFunction name params body b = .ok (b.functions.size, b₁.fill b.functions.size c) := by
  unfold defineFunction
  refine bind_ok.mpr ⟨b, b, rfl, ?_⟩
  refine bind_ok.mpr ⟨(), b.reserve name params, rfl, ?_⟩
  exact bind_ok.mpr ⟨c, b₁, h, bind_ok.mpr ⟨(), b₁.fill b.functions.size c, rfl, rfl⟩⟩

theorem ok_of_value {value : Option Expr} (hsome : ∀ e, value = some e → expr ctx e b = .ok (c, b₁))
    (hnone : value = none → c = b.constantCode .undefined range ∧ b₁ = b.addConstant .undefined) :
    valueOf ctx range value b = .ok (c, b₁) := by
  rw [valueOf.eq_def]
  cases value with
  | some e => exact hsome e rfl
  | none =>
    obtain ⟨rfl, rfl⟩ := hnone rfl
    rfl

theorem ok_of_initializer {init : Option Stmt}
    (hsome : ∀ s, init = some s → statement ctx s b = .ok (c, b₁))
    (hnone : init = none → c = [] ∧ b₁ = b) : initializer ctx init b = .ok (c, b₁) := by
  rw [initializer.eq_def]
  cases init with
  | some s => exact hsome s rfl
  | none =>
    obtain ⟨rfl, rfl⟩ := hnone rfl
    rfl

theorem ok_of_optional {op : Op} {e : Option Expr}
    (hsome : ∀ e', e = some e' → expr ctx e' b = .ok (c, b₁)) (hnone : e = none → b₁ = b) :
    optionally ctx op e b = .ok (optionalCode op e c, b₁) := by
  rw [optionally.eq_def]
  cases e with
  | some e => exact bind_ok.mpr ⟨c, b₁, hsome e rfl, rfl⟩
  | none =>
    obtain rfl := hnone rfl
    rfl

theorem ok_of_handler {caught done uncaught : Label} {handler : Option CatchClause}
    (hsome : ∀ binding body r, handler = some (.mk binding body r) →
      statements ctx body b = .ok (c, b₁)) (hnone : handler = none → b₁ = b) :
    catchClause ctx caught done uncaught handler b
      = .ok (handlerCode caught done uncaught handler c, b₁) := by
  rw [catchClause.eq_def]
  cases handler with
  | some clause =>
    obtain ⟨binding, body, r⟩ := clause
    exact bind_ok.mpr ⟨c, b₁, hsome binding body r rfl, rfl⟩
  | none =>
    obtain rfl := hnone rfl
    rfl

theorem ok_of_finalizer {body : Option (List Stmt)}
    (hsome : ∀ body', body = some body' → statements ctx body' b = .ok (c, b₁))
    (hnone : body = none → b₁ = b) :
    finalizer ctx range body b = .ok (finalCode range body c, b₁) := by
  rw [finalizer.eq_def]
  cases body with
  | some body => exact bind_ok.mpr ⟨c, b₁, hsome body rfl, rfl⟩
  | none =>
    obtain rfl := hnone rfl
    rfl

/-! ## expressions and declarations -/

theorem ok_of_literal {form : ExprForm} {value : Value} (h : form.literal? = some value) :
    expr ctx (.node form range) b = .ok (b.constantCode value range, b.addConstant value) := by
  cases form <;> cases h <;> rw [expr] <;> rfl

theorem ok_of_callValue {callee : Expr} {args : List Expr} {c₁ c₂ : Code}
    (hn : args.length ≤ maxArguments) (hplain : callee.form.isPath = false)
    (ha : exprsReversed ctx args b = .ok (c₁, b₁)) (hc : expr ctx callee b₁ = .ok (c₂, b₂)) :
    expr ctx (.node (.call callee args) range) b
      = .ok (c₁ ++ c₂ ++ one (.call args.length false) range, b₂) := by
  rw [expr]
  refine bind_ok.mpr ⟨_, _, checkArguments_ok.mpr ⟨hn, rfl⟩, ?_⟩
  split
  · cases hplain
  · cases hplain
  · exact bind_ok.mpr ⟨_, _, ha, bind_ok.mpr ⟨_, _, hc, rfl⟩⟩

theorem ok_of_function {decl : FunctionDecl} {index : Nat}
    (h : function ctx (functionName b decl) decl (b.named decl) = .ok (index, b₁)) :
    expr ctx (.node (.function decl) range) b
      = .ok (one (.fetch (functionName b decl) .variable) range, b₁) := by
  rw [expr]
  unfold functionName Builder.named at h
  unfold functionName
  cases hname : decl.name? with
  | some name =>
    rw [hname] at h
    exact bind_ok.mpr ⟨_, _, rfl, bind_ok.mpr ⟨_, _, h, rfl⟩⟩
  | none =>
    rw [hname] at h
    exact bind_ok.mpr ⟨_, _, rfl, bind_ok.mpr ⟨_, _, h, rfl⟩⟩

theorem ok_of_declaration {name : String} {n : Option String} {params : List String}
    {body : List Stmt} {c' : Code} (hn : params.length ≤ maxParameters)
    (hb : statements ⟨ctx.source, [], true, ⟨name, declaredInAll body⟩ :: ctx.enclosing⟩ body
      (b.reserve name params) = .ok (c, b₁))
    (hc : closeBody ⟨range.last, range.last⟩ c b₁ = .ok (c', b₂)) :
    function ctx name (.mk n params body range) b
      = .ok (b.functions.size, b₂.fill b.functions.size c') := by
  rw [function, if_neg (Nat.not_lt.mpr hn)]
  exact ok_of_body (bind_ok.mpr ⟨_, _, hb, hc⟩)

theorem ok_of_class {name : String} {decls : List FunctionDecl} {list : List (String × Nat)}
    (hm : methods ctx name decls b = .ok (list, b₁))
    (hc : list.any (·.1 = constructorName) = true) :
    statementForm ctx range (.classDecl name decls) b = .ok ([], b₁.addClass ⟨name, list⟩) := by
  rw [statementForm]
  refine bind_ok.mpr ⟨_, _, hm, ?_⟩
  rw [if_pos hc]
  rfl

theorem ok_of_plainClass {name : String} {decls : List FunctionDecl} {list : List (String × Nat)}
    (hm : methods ctx name decls b = .ok (list, b₁))
    (hc : list.any (·.1 = constructorName) = false)
    (hb : closeBody ⟨range.last, range.last⟩ [] (b₁.reserve (methodName name constructorName) [])
      = .ok (c, b₂)) :
    statementForm ctx range (.classDecl name decls) b
      = .ok ([], (b₂.fill b₁.functions.size c).addClass
        ⟨name, list ++ [(constructorName, b₁.functions.size)]⟩) := by
  rw [statementForm]
  refine bind_ok.mpr ⟨_, _, hm, ?_⟩
  rw [if_neg (by simp [hc])]
  exact bind_ok.mpr ⟨_, _, ok_of_body hb, rfl⟩

/-! ## jumps -/

theorem ok_of_jump {form : StmtForm} {label : Label}
    (ht : loopTarget? ctx.exits form = some label)
    (hl : leaveExits ctx range ctx.exits (insideLoop ctx.exits).length b = .ok (c, b₁)) :
    statementForm ctx range form b = .ok (c ++ one (.loopExit (some label)) range, b₁) := by
  cases form with
  | breakLoop =>
    rw [loopTarget?] at ht
    rw [statementForm]
    split at ht
    · rename_i hfind
      cases ht
      rw [hfind]
      exact bind_ok.mpr ⟨c, b₁, hl, rfl⟩
    · cases ht
  | continueLoop =>
    rw [loopTarget?] at ht
    rw [statementForm]
    split at ht
    · rename_i hfind
      cases ht
      rw [hfind]
      exact bind_ok.mpr ⟨c, b₁, hl, rfl⟩
    · cases ht
  | _ => cases ht

theorem ok_of_leaveLoop (hclean : (insideLoop ctx.exits).any ExitScope.needsCleanup = false) :
    leaveExits ctx range ctx.exits (insideLoop ctx.exits).length b = .ok ([], b) := by
  rw [leaveExits, take_insideLoop, if_neg (by simp [hclean])]
  rfl

theorem ok_of_crossLoop (hneed : (insideLoop ctx.exits).any ExitScope.needsCleanup = true)
    (h : crossExits ctx range (insideLoop ctx.exits ++ fromLoop ctx.exits)
      (insideLoop ctx.exits).length b = .ok (c, b₁)) :
    leaveExits ctx range ctx.exits (insideLoop ctx.exits).length b = .ok (c, b₁) := by
  rw [leaveExits, take_insideLoop, if_pos hneed]
  rwa [insideLoop_append_fromLoop] at h

theorem ok_of_return {value : Option Expr} {c₁ : Code} (hfun : ctx.inFunction = true)
    (hv : valueOf ctx range value b = .ok (c₁, b₁))
    (h : (if ctx.exits.any ExitScope.needsCleanup then do
        let cleanup ← leaveExits ctx range ctx.exits ctx.exits.length
        return returnCode range c₁ cleanup
      else return c₁ ++ one .ret range : Compile Code) b₁ = .ok (c, b₂)) :
    statementForm ctx range (.returnValue value) b = .ok (c, b₂) := by
  rw [statementForm]
  simp only [hfun, Bool.not_true, Bool.false_eq_true, if_false]
  exact bind_ok.mpr ⟨c₁, b₁, hv, h⟩

theorem ok_of_returnCrossing {c₁ : Code} (hneed : ctx.exits.any ExitScope.needsCleanup = true)
    (h : crossExits ctx range (ctx.exits ++ []) ctx.exits.length b = .ok (c, b₁)) :
    (if ctx.exits.any ExitScope.needsCleanup then do
        let cleanup ← leaveExits ctx range ctx.exits ctx.exits.length
        return returnCode range c₁ cleanup
      else return c₁ ++ one .ret range : Compile Code) b = .ok (returnCode range c₁ c, b₁) := by
  rw [List.append_nil] at h
  rw [if_pos hneed]
  refine bind_ok.mpr ⟨c, b₁, ?_, rfl⟩
  rwa [leaveExits, List.take_length, if_pos hneed]

theorem crossExits_none {outer : List ExitScope} :
    crossExits ctx range ([] ++ outer) ([] : List ExitScope).length b = .ok ([], b) := by
  rw [List.nil_append, List.length_nil]
  cases outer <;> rw [crossExits] <;> first | rfl | simp

end

/-! ## the rules -/

section
variable (source : Source)

mutual

theorem ok_of_exprCode {ctx : Context} {e : Expr} {b b' : Builder} {c : Code}
    (h : ExprCode ctx e b c b') : expr (ctx.withSource source) e b = .ok (c, b') := by
  match h with
  | .literal h => exact ok_of_literal h
  | .variable | .this =>
    rw [expr]
    rfl
  | .assignVariable hv =>
    rw [expr]
    exact bind_ok.mpr ⟨_, _, ok_of_exprCode hv, rfl⟩
  | .assignMember ho hv =>
    rw [expr]
    exact bind_ok.mpr ⟨_, _, ok_of_exprCode ho, bind_ok.mpr ⟨_, _, ok_of_exprCode hv, rfl⟩⟩
  | .assignIndex ho hv hk =>
    rw [expr]
    exact bind_ok.mpr ⟨_, _, ok_of_exprCode ho, bind_ok.mpr ⟨_, _, ok_of_exprCode hv,
      bind_ok.mpr ⟨_, _, ok_of_exprCode hk, rfl⟩⟩⟩
  | .binary hl hr =>
    rw [expr]
    exact bind_ok.mpr ⟨_, _, ok_of_exprCode hl, bind_ok.mpr ⟨_, _, ok_of_exprCode hr, rfl⟩⟩
  | .logical hl hr =>
    rw [expr]
    exact bind_ok.mpr ⟨_, _, rfl, bind_ok.mpr ⟨_, _, rfl, bind_ok.mpr ⟨_, _, ok_of_exprCode hl,
      bind_ok.mpr ⟨_, _, ok_of_exprCode hr, rfl⟩⟩⟩⟩
  | .unary h =>
    rw [expr]
    exact bind_ok.mpr ⟨_, _, ok_of_exprCode h, rfl⟩
  | .callMember hn ho ha =>
    rw [expr]
    exact bind_ok.mpr ⟨_, _, checkArguments_ok.mpr ⟨hn, rfl⟩, bind_ok.mpr ⟨_, _, ok_of_exprCode ho,
      bind_ok.mpr ⟨_, _, ok_of_argsCode ha, rfl⟩⟩⟩
  | .callVariable hn ha =>
    rw [expr]
    exact bind_ok.mpr ⟨_, _, checkArguments_ok.mpr ⟨hn, rfl⟩,
      bind_ok.mpr ⟨_, _, ok_of_argsCode ha, rfl⟩⟩
  | .callValue hn hplain ha hc =>
    exact ok_of_callValue hn hplain (ok_of_argsCode ha) (ok_of_exprCode hc)
  | .member ho =>
    rw [expr]
    exact bind_ok.mpr ⟨_, _, ok_of_exprCode ho, rfl⟩
  | .index ho hk =>
    rw [expr]
    exact bind_ok.mpr ⟨_, _, ok_of_exprCode ho, bind_ok.mpr ⟨_, _, ok_of_exprCode hk, rfl⟩⟩
  | .new hn ha =>
    rw [expr]
    exact bind_ok.mpr ⟨_, _, checkArguments_ok.mpr ⟨hn, rfl⟩,
      bind_ok.mpr ⟨_, _, ok_of_argsCode ha, rfl⟩⟩
  | .function hf => exact ok_of_function (ok_of_functionAdded hf)
  | .array ha =>
    rw [expr]
    exact bind_ok.mpr ⟨_, _, ok_of_argsCode ha, rfl⟩

theorem ok_of_argsCode {ctx : Context} {args : List Expr} {b b' : Builder} {c : Code}
    (h : ArgsCode ctx args b c b') : exprsReversed (ctx.withSource source) args b = .ok (c, b') := by
  match h with
  | .nil =>
    rw [exprsReversed]
    rfl
  | .cons hr he =>
    rw [exprsReversed]
    exact bind_ok.mpr ⟨_, _, ok_of_argsCode hr, bind_ok.mpr ⟨_, _, ok_of_exprCode he, rfl⟩⟩

theorem ok_of_functionAdded {ctx : Context} {name : String} {decl : FunctionDecl}
    {b b' : Builder} {index : Nat} (h : FunctionAdded ctx name decl b index b') :
    function (ctx.withSource source) name decl b = .ok (index, b') := by
  match h with
  | .mk hn hb hc => exact ok_of_declaration hn (ok_of_bodyCode hb) (ok_of_closes hc)

theorem ok_of_methodsAdded {ctx : Context} {className : String} {decls : List FunctionDecl}
    {b b' : Builder} {list : List (String × Nat)}
    (h : MethodsAdded ctx className decls b list b') :
    methods (ctx.withSource source) className decls b = .ok (list, b') := by
  match h with
  | .nil =>
    rw [methods]
    rfl
  | .cons hname hf hr =>
    rw [methods, hname]
    exact bind_ok.mpr ⟨_, _, ok_of_functionAdded hf, bind_ok.mpr ⟨_, _, ok_of_methodsAdded hr, rfl⟩⟩

theorem ok_of_stmtCode {ctx : Context} {stmt : Stmt} {b b' : Builder} {c : Code}
    (h : StmtCode ctx stmt b c b') : statement (ctx.withSource source) stmt b = .ok (c, b') := by
  match h with
  | .block h =>
    rw [statement]
    exact bind_ok.mpr ⟨_, _, ok_of_bodyCode h, rfl⟩
  | .form hform h =>
    rw [statement.eq_2 _ _ _ hform]
    exact bind_ok.mpr ⟨_, _, ok_of_formCode h, rfl⟩

theorem ok_of_bodyCode {ctx : Context} {body : List Stmt} {b b' : Builder} {c : Code}
    (h : BodyCode ctx body b c b') : statements (ctx.withSource source) body b = .ok (c, b') := by
  match h with
  | .nil =>
    rw [statements]
    rfl
  | .cons hs hr =>
    rw [statements]
    exact bind_ok.mpr ⟨_, _, ok_of_stmtCode hs, bind_ok.mpr ⟨_, _, ok_of_bodyCode hr, rfl⟩⟩

theorem ok_of_formCode {ctx : Context} {range : TokenRange} {form : StmtForm} {b b' : Builder}
    {c : Code} (h : FormCode ctx range form b c b') :
    statementForm (ctx.withSource source) range form b = .ok (c, b') := by
  match h with
  | .expression h =>
    rw [statementForm]
    exact bind_ok.mpr ⟨_, _, ok_of_exprCode h, rfl⟩
  | .varDecl hsome hnone =>
    rw [statementForm]
    exact bind_ok.mpr ⟨_, _, ok_of_value (fun e he => ok_of_exprCode (hsome e he)) hnone, rfl⟩
  | .ifOnly ht hs =>
    rw [statementForm]
    exact bind_ok.mpr ⟨_, _, rfl, bind_ok.mpr ⟨_, _, ok_of_exprCode ht,
      bind_ok.mpr ⟨_, _, ok_of_stmtCode hs, rfl⟩⟩⟩
  | .ifElse ht hs he =>
    rw [statementForm]
    exact bind_ok.mpr ⟨_, _, rfl, bind_ok.mpr ⟨_, _, ok_of_exprCode ht,
      bind_ok.mpr ⟨_, _, ok_of_stmtCode hs, bind_ok.mpr ⟨_, _, rfl,
        bind_ok.mpr ⟨_, _, ok_of_stmtCode he, rfl⟩⟩⟩⟩⟩
  | .whileLoop ht hs =>
    rw [statementForm]
    exact bind_ok.mpr ⟨_, _, rfl, bind_ok.mpr ⟨_, _, rfl, bind_ok.mpr ⟨_, _, ok_of_exprCode ht,
      bind_ok.mpr ⟨_, _, ok_of_stmtCode hs, rfl⟩⟩⟩⟩
  | .forLoop hisome hinone htsome htnone hs husome hunone =>
    rw [statementForm]
    refine bind_ok.mpr ⟨_, _, rfl, bind_ok.mpr ⟨_, _, rfl, bind_ok.mpr ⟨_, _, rfl, ?_⟩⟩⟩
    refine bind_ok.mpr ⟨_, _, ok_of_initializer (fun s hs => ok_of_stmtCode (hisome s hs)) hinone, ?_⟩
    refine bind_ok.mpr ⟨_, _, ok_of_optional (fun e he => ok_of_exprCode (htsome e he)) htnone, ?_⟩
    refine bind_ok.mpr ⟨_, _, ok_of_stmtCode hs, ?_⟩
    exact bind_ok.mpr ⟨_, _, ok_of_optional (fun e he => ok_of_exprCode (husome e he)) hunone, rfl⟩
  | .jump ht hclean =>
    show statementForm (ctx.withSource source) _ _ _ = .ok ([] ++ one (.loopExit (some _)) _, _)
    exact ok_of_jump ht (ok_of_leaveLoop hclean)
  | .jumpCrossing ht hneed hc => exact ok_of_jump ht (ok_of_crossLoop hneed (ok_of_crossCode hc))
  | .returnValue hfun hsome hnone hclean =>
    refine ok_of_return hfun (ok_of_value (fun e he => ok_of_exprCode (hsome e he)) hnone) ?_
    exact congrFun (if_neg (by simp [Context.withSource, hclean])) _
  | .returnCrossing hfun hsome hnone hneed hc =>
    refine ok_of_return hfun (ok_of_value (fun e he => ok_of_exprCode (hsome e he)) hnone) ?_
    exact ok_of_returnCrossing hneed (ok_of_crossCode hc)
  | .throwValue h =>
    rw [statementForm]
    exact bind_ok.mpr ⟨_, _, ok_of_exprCode h, rfl⟩
  | .tryCatch hb hhsome hhnone hrsome hrnone hfsome hfnone =>
    rw [statementForm]
    refine bind_ok.mpr ⟨_, _, rfl, bind_ok.mpr ⟨_, _, rfl, bind_ok.mpr ⟨_, _, rfl, ?_⟩⟩⟩
    refine bind_ok.mpr ⟨_, _, ok_of_bodyCode hb, ?_⟩
    refine bind_ok.mpr ⟨_, _,
      ok_of_handler (fun binding body r heq => ok_of_bodyCode (hhsome binding body r heq)) hhnone, ?_⟩
    refine bind_ok.mpr ⟨_, _,
      ok_of_finalizer (fun body heq => ok_of_bodyCode (hrsome body heq)) hrnone, ?_⟩
    exact bind_ok.mpr ⟨_, _,
      ok_of_finalizer (fun body heq => ok_of_bodyCode (hfsome body heq)) hfnone, rfl⟩
  | .function hname hf =>
    rw [statementForm, hname]
    exact bind_ok.mpr ⟨_, _, ok_of_functionAdded hf, rfl⟩
  | .classDecl hm hc => exact ok_of_class (ok_of_methodsAdded hm) hc
  | .classPlain hm hc hb => exact ok_of_plainClass (ok_of_methodsAdded hm) hc (ok_of_closes hb)
  | .debugger | .empty =>
    rw [statementForm]
    rfl

theorem ok_of_crossCode {ctx : Context} {range : TokenRange} {crossed outer : List ExitScope}
    {b b' : Builder} {c : Code} (h : CrossCode ctx range crossed outer b c b') :
    crossExits (ctx.withSource source) range (crossed ++ outer) crossed.length b = .ok (c, b') := by
  match h with
  | .nil => exact crossExits_none
  | .loop h | .pendingThrow h | .guarded h =>
    rw [List.cons_append, List.length_cons, crossExits]
    exact bind_ok.mpr ⟨_, _, ok_of_crossCode h, rfl⟩
  | .finalizer hb h =>
    rw [List.cons_append, List.length_cons, crossExits]
    exact bind_ok.mpr ⟨_, _, ok_of_bodyCode hb, bind_ok.mpr ⟨_, _, ok_of_crossCode h, rfl⟩⟩

end

end

/-- a compilation that succeeds does not depend on the source -/
theorem statements_withSource {ctx : Context} {body : List Stmt} {b b' : Builder} {c : Code}
    (h : statements ctx body b = .ok (c, b')) (source : Source) :
    statements (ctx.withSource source) body b = .ok (c, b') :=
  ok_of_bodyCode source (bodyCode_of_ok _ _ _ _ _ h)

end Compile

end ScriptMachine
