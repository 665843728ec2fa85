import ScriptMachine.Proofs.Meaning.Loops
import ScriptMachine.Proofs.Meaning.Regions

/-!
# The code of statements does what they mean

* `follows_if`, `follows_while`, `follows_for`, `follows_jump`, `follows_return`   the forms of
                      statements, one by one;
* `followed_stmt`     the main statement: the code of a statement follows its evaluation.
-/

namespace ScriptMachine

section
variable {linked : Linked} {functions : List FunctionDecl} {call : Nat → List Value → Eval Value}
  {fuel : Nat} {ctx : Context} {range : TokenRange} {b b' : Builder} {c : Code} {loc : Location}
  {t : Twin} {env : EnvId} {st : List Slot} {mentions own X : List String}

/-! ## values -/

/-- the value of an expression, `undefined` if there is none -/
theorem follows_valueOf (hm : linked.Means functions) (hcall : Calls linked functions call fuel)
    {e : Option Expr} (hsome : ∀ e', e = some e' → ExprCode ctx e' b c b')
    (hnone : e = none → c = b.constantCode .undefined range ∧ b' = b.addConstant .undefined)
    (hlang : Expr.OptionInLanguage e) (hctx : ctx.Plain) (hb : b'.Within linked.program)
    (hat : At linked.program loc c) (ht : t.Ok linked.global functions.length)
    (hs : Sees linked.global t (· ∈ Expr.mentionsOption e) env env) (st : List Slot) :
    Follows linked functions.length fuel env t (t.at loc env st)
      (evalOr functions linked.global call env e t.world)
      (GivesValue linked functions.length (loc.skip c.length) env st) := by
  cases e with
  | some e => exact follows_expr hm hcall e hlang (hsome e rfl) hctx hb hat ht hs st
  | none =>
    obtain ⟨rfl, rfl⟩ := hnone rfl
    exact follows_constant hm ht hb nofun trivial hat

/-- a declaration -/
theorem follows_varDecl (hm : linked.Means functions) (hcall : Calls linked functions call fuel)
    {name : String} {init : Option Expr} (hsome : ∀ e', init = some e' → ExprCode ctx e' b c b')
    (hnone : init = none → c = b.constantCode .undefined range ∧ b' = b.addConstant .undefined)
    (hlang : Proper name ∧ Expr.OptionInLanguage init) (hctx : ctx.Plain)
    (hb : b'.Within linked.program)
    (hat : At linked.program loc
      (one (.declare name) range ++ c ++ one (.store name false) range ++ one .pop range))
    (hk : Knows linked.global functions.length t env (name :: Expr.mentionsOption init) [name]) :
    Follows linked functions.length fuel env t (t.at loc env st)
      (execForm functions linked.global call fuel env (.varDecl name init) t.world)
      (Reaches linked functions.length ctx (loc.skip (one (.declare name) range ++ c
        ++ one (.store name false) range ++ one .pop range).length) env st X) := by
  simp only [List.append_assoc] at hat ⊢
  simp only [Location.skip_append, length_one]
  refine follows_declare hk hlang.1.1 List.mem_cons_self List.mem_cons_self hat.left hat.right.right
    fun t' hmoves => ?_
  exact follows_valueOf hm hcall hsome hnone hlang.2 hctx hb hat.right.left hmoves.ok
    ((hk.sees.moves hmoves).mono fun x hx => List.mem_cons_of_mem _ hx) st

/-! ## results -/

theorem Heap.owner?_define (h : Heap) (henv : env.index < h.cells.size) (name : String) (v : Value) :
    (h.define env name v).owner? env name = some env := by
  have hhas : (h.define env name v).hasOwn env name = true := by
    unfold Heap.hasOwn
    rw [h.getOwn?_define_self henv]
    rfl
  unfold Heap.owner?
  rw [Heap.chain_eq, List.find?_cons, hhas]

theorem follows_return (hm : linked.Means functions) (hcall : Calls linked functions call fuel)
    {value : Option Expr} (hc : FormCode ctx range (.returnValue value) b c b')
    (hlang : Expr.OptionInLanguage value) (hctx : ctx.Plain) (hb : b'.Within linked.program)
    (hat : At linked.program loc c)
    (hk : Knows linked.global functions.length t env (Expr.mentionsOption value) own) (stop : Location) :
    Follows linked functions.length fuel env t (t.at loc env st)
      (execForm functions linked.global call fuel env (.returnValue value) t.world)
      (Reaches linked functions.length ctx stop env st X) := by
  cases hc with
  | jump htarget => cases htarget
  | jumpCrossing htarget => cases htarget
  | returnValue hfun hsome hnone hclean =>
    refine (follows_valueOf hm hcall hsome hnone hlang hctx hb hat.left hk.ok hk.sees st).ofEval
      (.refl st) fun v t' hmoves hv => ?_
    exact .here hmoves.ok (.jumps (.returns hfun hv) (.direct hclean hat.right))
  | returnCrossing hfun hsome hnone hneed hcross =>
    unfold returnCode at hat
    simp only [List.append_assoc] at hat
    refine (follows_valueOf hm hcall hsome hnone hlang hctx (hcross.grows.within hb) hat.left hk.ok
      hk.sees st).ofEval (.refl st) fun v t' hmoves hv => ?_
    have henv := (hk.moves hmoves).lt_size
    have hpark := hmoves.ok.park env .undefined
    have hpark' := hpark.trans (hpark.ok.park env v)
    have hcode := hat.right
    rw [← List.append_assoc, ← List.append_assoc] at hcode
    have hparked : (Leave.fromCall v).Parked ((t'.park env .undefined).park env v).heap env :=
      Heap.getOwn?_define_self _ (Nat.lt_of_lt_of_le henv hpark.heap.size) returnSlot v
    exact ⟨(t'.park env .undefined).park env v, 3, _, rfl, hpark',
      step_park hcode.left (t'.heap.owner?_define henv returnSlot .undefined),
      .jumps (.returns hfun hv) (.crossing hcross hb hcode.right hparked .here)⟩

/-! ## branches -/

theorem follows_if (hm : linked.Means functions) (hcall : Calls linked functions call fuel)
    {test : Expr} {thenBranch : Stmt} {elseBranch : Option Stmt}
    (hthen : StmtFollowed linked functions call fuel thenBranch)
    (helse : ∀ stmt, elseBranch = some stmt → StmtFollowed linked functions call fuel stmt)
    (hc : FormCode ctx range (.ifElse test thenBranch elseBranch) b c b') (hlang : test.InLanguage)
    (hctx : ctx.Plain) (hb : b'.Within linked.program) (hat : At linked.program loc c)
    (hk : Knows linked.global functions.length t env
      (StmtForm.ifElse test thenBranch elseBranch).mentions
      (StmtForm.ifElse test thenBranch elseBranch).direct) :
    Follows linked functions.length fuel env t (t.at loc env st)
      (execForm functions linked.global call fuel env (.ifElse test thenBranch elseBranch) t.world)
      (Reaches linked functions.length ctx (loc.skip c.length) env st
        (StmtForm.ifElse test thenBranch elseBranch).inner) := by
  have htestMem : ∀ name ∈ test.mentions, name ∈ (StmtForm.ifElse test thenBranch elseBranch).mentions :=
    fun name hname => List.mem_append_left _ (List.mem_append_left _ hname)
  have hkthen (t' : Twin) (hmoves : t.Moves linked.global functions.length env t') :
      Knows linked.global functions.length t' env thenBranch.mentions thenBranch.direct :=
    (hk.moves hmoves).mono
      (fun name hname => List.mem_append_left _ (List.mem_append_right _ hname))
      fun name hname => List.mem_append_left _ hname
  have hinner : ∀ name ∈ thenBranch.inner, name ∈ (StmtForm.ifElse test thenBranch elseBranch).inner :=
    fun name hname => List.mem_append_left _ hname
  cases hc with
  | jump htarget => cases htarget
  | jumpCrossing htarget => cases htarget
  | ifOnly ht hs =>
    unfold ifCode at hat ⊢
    simp only [List.append_assoc] at hat ⊢
    simp only [Location.skip_append, length_one, length_place]
    have hdone := hat.right.right.right
    have htest := (follows_expr hm hcall test hlang ht hctx (hs.grows.within hb) hat.left hk.ok
      (hk.sees.mono htestMem) st).branches hat.right.left (hm.labels _ _ hdone)
    refine htest.test (.refl st) fun v t' hmoves => ?_
    by_cases htrue : v.isTruthy = true
    · rw [if_pos htrue, if_pos htrue]
      have hbranch := hthen ctx _ _ _ hs hctx hb _ hat.right.right.left t' env st (hkthen t' hmoves)
      exact hbranch.onward hinner fun t₁ => step_label hdone
    · rw [if_neg htrue, if_neg htrue]
      exact .now (hmoves.ok.moves_refl env) (step_label hdone) .normal
  | @ifElse _ _ _ _ _ _ _ elseBranch _ _ _ _ ht hs he =>
    unfold ifElseCode at hat ⊢
    simp only [List.append_assoc] at hat ⊢
    simp only [Location.skip_append, length_one, length_place]
    have hotherwise := hat.right.right.right.right
    have hdone := hotherwise.right.right
    have htest := (follows_expr hm hcall test hlang ht hctx
      (hs.grows.within ((Grows.label _).within (he.grows.within hb))) hat.left hk.ok
      (hk.sees.mono htestMem) st).branches hat.right.left (hm.labels _ _ hotherwise.left)
    refine htest.test (.refl st) fun v t' hmoves => ?_
    by_cases htrue : v.isTruthy = true
    · rw [if_pos htrue, if_pos htrue]
      have hbranch := hthen ctx _ _ _ hs hctx ((Grows.label _).within (he.grows.within hb)) _
        hat.right.right.left t' env st (hkthen t' hmoves)
      exact hbranch.onward hinner fun t₁ =>
        (step_jump hat.right.right.right.left (hm.labels _ _ hdone)).trans (step_label hdone)
    · rw [if_neg htrue, if_neg htrue]
      have hkelse : Knows linked.global functions.length t' env elseBranch.mentions elseBranch.direct :=
        (hk.moves hmoves).mono (fun name hname => List.mem_append_right _ hname)
          fun name hname => List.mem_append_right _ hname
      have hbranch := helse elseBranch rfl ctx _ _ _ he hctx hb _ hotherwise.right.left t' env st hkelse
      refine .steps hmoves.ok (step_label hotherwise.left) ?_
      exact hbranch.onward (fun name hname => List.mem_append_right _ hname) fun t₁ => step_label hdone

/-! ## loops -/

theorem follows_while (hm : linked.Means functions) (hcall : Calls linked functions call fuel)
    {test : Expr} {body : Stmt} (hbody : StmtFollowed linked functions call fuel body)
    (hc : FormCode ctx range (.whileLoop test body) b c b') (hlang : test.InLanguage)
    (hctx : ctx.Plain) (hb : b'.Within linked.program) (hat : At linked.program loc c)
    (hk : Knows linked.global functions.length t env (test.mentions ++ body.mentions) body.direct) :
    Follows linked functions.length fuel env t (t.at loc env st)
      (execForm functions linked.global call fuel env (.whileLoop test body) t.world)
      (Reaches linked functions.length ctx (loc.skip c.length) env st body.inner) := by
  cases hc with
  | jump htarget => cases htarget
  | jumpCrossing htarget => cases htarget
  | whileLoop ht hs =>
    unfold whileCode at hat ⊢
    rw [List.append_assoc] at hat ⊢
    obtain ⟨finish, hfinish, hstop⟩ := hat.tail
    rw [hstop]
    simp only [List.append_assoc] at hat
    have hstart := hat.right
    have htestAt := hstart.right
    have hbodyAt := htestAt.right.right
    refine .steps hk.ok (step_loopStart hat.left) ?_
    refine follows_loop hstart.left hfinish (hm.labels _ _ hstart.left)
      (hm.labels _ _ hfinish.left)
      (fun t' hmoves => (follows_expr hm hcall test hlang ht hctx (hs.grows.within hb) htestAt.left
        hmoves.ok ((hk.sees.moves hmoves).mono fun name hname => List.mem_append_left _ hname) _).branches
        htestAt.right.left (hm.labels _ _ hfinish.left))
      (fun t' hmoves => hbody _ _ _ _ hs hctx hb _ hbodyAt.left t' env _ ((hk.moves hmoves).mono
        (fun name hname => List.mem_append_right _ hname) fun name hname => hname))
      (fun t' loc' hmoves hloc => ?_) fuel (Nat.le_refl _) t (hk.ok.moves_refl env)
    rcases hloc with rfl | rfl
    · exact .now (hmoves.ok.moves_refl env) (step_jump hbodyAt.right.left (hm.labels _ _ hstart.left))
        ⟨trivial, rfl⟩
    · exact .here hmoves.ok ⟨trivial, rfl⟩

/-- the test of a `for`, which may be missing -/
theorem follows_test (hm : linked.Means functions) (hcall : Calls linked functions call fuel)
    {test : Option Expr} {l : Label} {no : Location}
    (hsome : ∀ e, test = some e → ExprCode ctx e b c b') (hlang : Expr.OptionInLanguage test)
    (hctx : ctx.Plain) (hb : b'.Within linked.program)
    (hat : At linked.program loc (optionalCode (.jumpFalse l) test c))
    (hl : linked.labels.resolve? l = some no) (ht : t.Ok linked.global functions.length)
    (hs : Sees linked.global t (· ∈ Expr.mentionsOption test) env env) (st : List Slot) :
    Follows linked functions.length fuel env t (t.at loc env st)
      (evalTest functions linked.global call env test t.world)
      (Branches linked functions.length (loc.skip (optionalCode (.jumpFalse l) test c).length) no env
        st) := by
  cases test with
  | none => exact .here ht rfl
  | some e =>
    have hstop : loc.skip (optionalCode (.jumpFalse l) (some e) c).length = (loc.skip c.length).skip 1 :=
      loc.skip_append c (one (.jumpFalse l) e.range)
    rw [hstop]
    exact (follows_expr hm hcall e hlang (hsome e rfl) hctx hb hat.left ht hs st).branches hat.right hl

/-- the update of a `for`, which may be missing -/
theorem follows_update (hm : linked.Means functions) (hcall : Calls linked functions call fuel)
    {update : Option Expr} (hsome : ∀ e, update = some e → ExprCode ctx e b c b')
    (hlang : Expr.OptionInLanguage update) (hctx : ctx.Plain) (hb : b'.Within linked.program)
    (hat : At linked.program loc (optionalCode .pop update c))
    (ht : t.Ok linked.global functions.length)
    (hs : Sees linked.global t (· ∈ Expr.mentionsOption update) env env) (st : List Slot) :
    Follows linked functions.length fuel env t (t.at loc env st)
      (evalUpdate functions linked.global call env update t.world)
      (Gives linked functions.length (loc.skip (optionalCode .pop update c).length) env st
        (fun _ => True) fun _ => []) := by
  cases update with
  | none => exact .here ht ⟨trivial, rfl⟩
  | some e =>
    have hstop : loc.skip (optionalCode .pop (some e) c).length = (loc.skip c.length).skip 1 :=
      loc.skip_append c (one .pop e.range)
    rw [hstop]
    refine (follows_expr hm hcall e hlang (hsome e rfl) hctx hb hat.left ht hs st).eval (.refl st)
      fun v t' hmoves _ => ?_
    exact .now (hmoves.ok.moves_refl env) (step_pop hat.right) ⟨trivial, rfl⟩

/-- the first part of a `for`, which may be missing -/
theorem follows_initializer {init : Option Stmt}
    (hinit : ∀ stmt, init = some stmt → StmtFollowed linked functions call fuel stmt)
    (hsome : ∀ stmt, init = some stmt → StmtCode ctx stmt b c b') (hnone : init = none → c = [] ∧ b' = b)
    (hctx : ctx.Plain) (hb : b'.Within linked.program) (hat : At linked.program loc c)
    (hk : Knows linked.global functions.length t env (Stmt.mentionsOption init)
      (Stmt.directOption init)) (st : List Slot) :
    Follows linked functions.length fuel env t (t.at loc env st)
      (execOption functions linked.global call fuel env init t.world)
      (Reaches linked functions.length ctx (loc.skip c.length) env st (Stmt.innerOption init)) := by
  cases init with
  | none =>
    obtain ⟨rfl, rfl⟩ := hnone rfl
    exact .here hk.ok .normal
  | some stmt => exact hinit stmt rfl ctx b b' c (hsome stmt rfl) hctx hb loc hat t env st hk

theorem follows_for (hm : linked.Means functions) (hcall : Calls linked functions call fuel)
    {init : Option Stmt} {test update : Option Expr} {body : Stmt}
    (hinit : ∀ stmt, init = some stmt → StmtFollowed linked functions call fuel stmt)
    (hbody : StmtFollowed linked functions call fuel body)
    (hc : FormCode ctx range (.forLoop init test update body) b c b')
    (hlangTest : Expr.OptionInLanguage test) (hlangUpdate : Expr.OptionInLanguage update)
    (hctx : ctx.Plain) (hb : b'.Within linked.program) (hat : At linked.program loc c)
    (ht : t.Ok linked.global functions.length)
    (hs : Sees linked.global t (· ∈ (StmtForm.forLoop init test update body).mentions) env env) :
    Follows linked functions.length fuel env t (t.at loc env st)
      (execForm functions linked.global call fuel env (.forLoop init test update body) t.world)
      (Reaches linked functions.length ctx (loc.skip c.length) env st
        (StmtForm.forLoop init test update body).inner) := by
  cases hc with
  | jump htarget => cases htarget
  | jumpCrossing htarget => cases htarget
  | @forLoop _ _ c₁ b₁ _ c₂ b₂ _ c₃ b₃ _ c₄ _ _ _ hisome hinone htsome htnone hbcode husome hunone =>
    have hb₃ : b₃.Within linked.program :=
      (Grows.ofOptional .pop (fun e he => (husome e he).grows) hunone).within hb
    have hb₂ := hbcode.grows.within hb₃
    have hb₁ : b₁.Within linked.program :=
      (Grows.ofOptional .pop (fun e he => (htsome e he).grows) htnone).within hb₂
    unfold forCode at hat ⊢
    rw [List.append_assoc, List.append_assoc] at hat ⊢
    obtain ⟨finish, hfinish, hstop⟩ := hat.tail
    have hdone := hm.labels _ _ hfinish.left
    rw [hstop]
    simp only [List.append_assoc] at hat
    have hstart := hat.right.right.right
    have htestAt := hstart.right
    have hbodyAt := htestAt.right
    have hnextAt := hbodyAt.right
    have hk : Knows linked.global functions.length (t.enter env env (forNames init body)) t.next
        (StmtForm.forLoop init test update body).mentions (forNames init body) :=
      .enter ht hs (hs.lt_size ht) _
    have hfirst := follows_initializer hinit hisome hinone hctx hb₁ hat.right.left
      (hk.mono (fun name hname => List.mem_append_left _ (List.mem_append_left _
        (List.mem_append_left _ hname))) fun name hname => List.mem_append_left _ hname) st
    have hloopEnd := hfinish
    rw [← List.append_assoc] at hloopEnd
    have hinner : (StmtForm.forLoop init test update body).inner
        = forNames init body ++ (Stmt.innerOption init ++ body.inner) := List.append_assoc _ _ _
    rw [hinner]
    show Follows linked functions.length fuel env t (t.at loc env st) (Effect.inScope env (fun scope =>
      Effect.seq (execOption functions linked.global call fuel scope init)
        (Effect.loop (evalTest functions linked.global call scope test)
          (exec functions linked.global call fuel scope body)
          (evalUpdate functions linked.global call scope update) fuel)) t.world)
      (Reaches linked functions.length ctx ((finish.skip 2).skip 1) env st _)
    refine Follows.inScope ht (hs.lt_size ht) hat.left hloopEnd.right ?_ env
    refine hfirst.seq (fun name hname => List.mem_append_left _ hname) fun t₁ hm₁ => ?_
    have hk₁ := hk.moves hm₁
    refine .steps hm₁.ok (step_loopStart hat.right.right.left) ?_
    refine Follows.onward (follows_loop hstart.left hloopEnd.left (hm.labels _ _ hnextAt.left) hdone
      (fun t' hm' => follows_test hm hcall htsome hlangTest hctx hb₂ htestAt.left hdone hm'.ok
        ((hk₁.sees.moves hm').mono fun name hname => List.mem_append_left _ (List.mem_append_left _
          (List.mem_append_right _ hname))) (.loopMarker t.next :: st))
      (fun t' hm' => hbody _ _ _ _ hbcode hctx hb₃ _ hbodyAt.left t' t.next _ ((hk₁.moves hm').mono
        (fun name hname => List.mem_append_right _ hname) fun name hname => List.mem_append_right _ hname))
      (fun t' loc' hm' hloc => ?_) fuel (Nat.le_refl _) t₁ (hm₁.ok.moves_refl t.next))
      (fun name hname => List.mem_append_right _ hname) fun _ => .refl
    -- the body ends where `continue` goes on
    rw [or_self_iff] at hloc
    subst hloc
    refine .steps hm'.ok (step_label hnextAt.left) ?_
    refine (follows_update hm hcall husome hlangUpdate hctx hb hnextAt.right.left hm'.ok
      ((hk₁.sees.moves hm').mono fun name hname => List.mem_append_left _
        (List.mem_append_right _ hname)) (.loopMarker t.next :: st)).go fun r t₂ s₂ _ hr => ?_
    cases r with
    | error v => exact ⟨0, s₂, .refl, hr⟩
    | ok _ =>
      obtain ⟨-, rfl⟩ := hr
      exact ⟨1, _, step_jump hnextAt.right.right.left (hm.labels _ _ hstart.left), trivial, rfl⟩

/-! ## all statements -/

/-- The first instruction of a statement is marked, and an empty one gets an instruction. -/
theorem follows_started {r : Option (Completion × World)}
    (hat : At linked.program loc (startStatement ctx.exits range c))
    (ht : t.Ok linked.global functions.length)
    (h : ∀ loc' : Location, At linked.program loc' c →
      Follows linked functions.length fuel env t (t.at loc' env st) r
        (Reaches linked functions.length ctx (loc'.skip c.length) env st X)) :
    Follows linked functions.length fuel env t (t.at loc env st) r
      (Reaches linked functions.length ctx (loc.skip (startStatement ctx.exits range c).length) env st
        X) := by
  by_cases hc : c = []
  · subst hc
    exact .steps ht (step_nop hat) (h (loc.skip 1) nofun)
  · rw [length_startStatement hc]
    exact h loc (hat.ofStart hc)

mutual

/-- **The code of a statement follows its evaluation.** -/
theorem followed_stmt (hm : linked.Means functions) (hcall : Calls linked functions call fuel)
    (stmt : Stmt) (hlang : stmt.InLanguage) (hapart : stmt.Apart) :
    StmtFollowed linked functions call fuel stmt := by
  intro ctx b b' c hc hctx hb loc hat t env st hk
  match stmt, hlang, hapart, hc, hk with
  | .node (.block body) range, hlang, hapart, .block hbody, hk =>
    rw [length_blockCode]
    exact (followed_body hm hcall body hlang hapart).block hbody hctx hb hat hk.ok hk.sees hk.lt_size st
      env
  | .node form range, hlang, hapart, .form _ hform, hk =>
    exact follows_started hat hk.ok fun loc' hat' =>
      followed_form hm hcall form hlang hapart hform hctx hb hat' st hk

theorem followed_form (hm : linked.Means functions) (hcall : Calls linked functions call fuel)
    (form : StmtForm) (hlang : form.InLanguage) (hapart : form.Apart) {ctx : Context}
    {range : TokenRange} {b b' : Builder} {c : Code} (hc : FormCode ctx range form b c b')
    (hctx : ctx.Plain) (hb : b'.Within linked.program) {loc : Location} (hat : At linked.program loc c)
    {t : Twin} {env : EnvId} (st : List Slot)
    (hk : Knows linked.global functions.length t env form.mentions form.direct) :
    Follows linked functions.length fuel env t (t.at loc env st)
      (execForm functions linked.global call fuel env form t.world)
      (Reaches linked functions.length ctx (loc.skip c.length) env st form.inner) := by
  match form, hlang, hapart, hc, hk with
  | .expression e, hlang, _, .expression he, hk =>
    rw [Location.skip_append]
    refine (follows_expr hm hcall e hlang he hctx hb hat.left hk.ok hk.sees st).ofEval (.refl st)
      fun v t' hmoves _ => ?_
    exact .now (hmoves.ok.moves_refl env) (step_pop hat.right) .normal
  | .varDecl name init, hlang, _, .varDecl hsome hnone, hk =>
    exact follows_varDecl hm hcall hsome hnone hlang hctx hb hat hk
  | .ifElse test thenBranch elseBranch, hlang, hapart, hc, hk =>
    exact follows_if hm hcall (followed_stmt hm hcall thenBranch hlang.2.1 hapart.1)
      (followed_option hm hcall elseBranch hlang.2.2 hapart.2) hc hlang.1 hctx hb hat hk
  | .whileLoop test body, hlang, hapart, hc, hk =>
    exact follows_while hm hcall (followed_stmt hm hcall body hlang.2 hapart) hc hlang.1 hctx hb hat hk
  | .forLoop init test update body, hlang, hapart, hc, hk =>
    exact follows_for hm hcall (followed_option hm hcall init hlang.1 hapart.1)
      (followed_stmt hm hcall body hlang.2.2.2 hapart.2) hc hlang.2.1 hlang.2.2.1 hctx hb hat hk.ok hk.sees
  | .breakLoop, _, _, .jump htarget hclean, hk =>
    exact .here hk.ok (.jumps (.breaks htarget) (.direct hclean hat))
  | .breakLoop, _, _, .jumpCrossing htarget _ hcross, hk =>
    exact .here hk.ok (.jumps (.breaks htarget) (.crossing hcross hb hat trivial .here))
  | .continueLoop, _, _, .jump htarget hclean, hk =>
    exact .here hk.ok (.jumps (.continues htarget) (.direct hclean hat))
  | .continueLoop, _, _, .jumpCrossing htarget _ hcross, hk =>
    exact .here hk.ok (.jumps (.continues htarget) (.crossing hcross hb hat trivial .here))
  | .returnValue value, hlang, _, hc, hk =>
    exact follows_return hm hcall hc hlang hctx hb hat hk _
  | .throwValue e, hlang, _, .throwValue he, hk =>
    refine (follows_expr hm hcall e hlang he hctx hb hat.left hk.ok hk.sees st).ofEval (.refl st)
      fun v t' hmoves hv => ?_
    exact .here hmoves.ok (.throws hv (raises_throw hat.right))
  | .tryCatch body handler finalizer, hlang, hapart, hc, hk =>
    exact follows_try hm (followed_body hm hcall body hlang.1 hapart.1)
      (followed_handler hm hcall handler hlang.2.1 hapart.2.1)
      (followed_finalizer hm hcall finalizer hlang.2.2 hapart.2.2.1) hc hctx hb hat hlang.2.1
      hapart.2.2.2 hk.ok hk.sees st
  | .empty, _, _, .empty, hk => exact .here hk.ok .normal

theorem followed_body (hm : linked.Means functions) (hcall : Calls linked functions call fuel)
    (body : List Stmt) (hlang : Stmt.AllInLanguage body) (hapart : Stmt.AllApart body) :
    BodyFollowed linked functions call fuel body := by
  match body with
  | [] => exact .nil
  | stmt :: rest =>
    exact .cons (followed_stmt hm hcall stmt hlang.1 hapart.1) (followed_body hm hcall rest hlang.2 hapart.2)

theorem followed_option (hm : linked.Means functions) (hcall : Calls linked functions call fuel)
    (o : Option Stmt) (hlang : Stmt.OptionInLanguage o) (hapart : Stmt.OptionApart o) :
    ∀ stmt, o = some stmt → StmtFollowed linked functions call fuel stmt := by
  match o with
  | none => exact nofun
  | some stmt =>
    intro stmt' heq
    cases heq
    exact followed_stmt hm hcall stmt hlang hapart

theorem followed_handler (hm : linked.Means functions) (hcall : Calls linked functions call fuel)
    (handler : Option CatchClause) (hlang : CatchClause.OptionInLanguage handler)
    (hapart : CatchClause.OptionApart handler) :
    ∀ binding body r, handler = some (.mk binding body r) →
      BodyFollowed linked functions call fuel body := by
  match handler with
  | none => exact nofun
  | some (.mk binding body r) =>
    intro binding' body' r' heq
    cases heq
    exact followed_body hm hcall body hlang.2 hapart

theorem followed_finalizer (hm : linked.Means functions) (hcall : Calls linked functions call fuel)
    (finalizer : Option (List Stmt)) (hlang : Stmt.BodyInLanguage finalizer)
    (hapart : Stmt.BodyApart finalizer) :
    ∀ body, finalizer = some body → BodyFollowed linked functions call fuel body := by
  match finalizer with
  | none => exact nofun
  | some body =>
    intro body' heq
    cases heq
    exact followed_body hm hcall body hlang hapart

end

end

end ScriptMachine
