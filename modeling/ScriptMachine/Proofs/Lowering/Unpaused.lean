import ScriptMachine.Proofs.Shape.Sections

/-!
# Code without `debugger` statements

A program pauses by itself only at a `debugger` statement.

* `Stmt.pauses`         does a `debugger` statement stand in it?
* `unpaused`            code that does not pause;
* `Keeps b c b'`        `c` does not pause, and no function does that was made together with it;
* `BodyCode.keeps`      what has no `debugger` statement is compiled to code that does not pause;
* `instruction_unpaused`   no instruction of such a program pauses.
-/

namespace ScriptMachine

/-! ## statements that pause -/

mutual

/-- does a `debugger` statement stand in it, also inside a function? -/
def Expr.pauses : Expr → Bool
  | .node form _ => form.pauses

def ExprForm.pauses : ExprForm → Bool
  | .assign target value => target.pauses || value.pauses
  | .binary _ left right => left.pauses || right.pauses
  | .logical _ left right => left.pauses || right.pauses
  | .unary _ operand => operand.pauses
  | .call callee args => callee.pauses || Expr.anyPauses args
  | .member object _ => object.pauses
  | .index object key => object.pauses || key.pauses
  | .new _ args => Expr.anyPauses args
  | .function decl => decl.pauses
  | .array elements => Expr.anyPauses elements
  | _ => false

def Expr.anyPauses : List Expr → Bool
  | [] => false
  | e :: rest => e.pauses || Expr.anyPauses rest

def Expr.optionPauses : Option Expr → Bool
  | none => false
  | some e => e.pauses

def Stmt.pauses : Stmt → Bool
  | .node form _ => form.pauses

def StmtForm.pauses : StmtForm → Bool
  | .expression e => e.pauses
  | .varDecl _ init => Expr.optionPauses init
  | .block body => Stmt.anyPauses body
  | .ifElse test thenBranch elseBranch =>
    test.pauses || thenBranch.pauses || Stmt.optionPauses elseBranch
  | .whileLoop test body => test.pauses || body.pauses
  | .forLoop init test update body =>
    Stmt.optionPauses init || Expr.optionPauses test || Expr.optionPauses update || body.pauses
  | .returnValue value => Expr.optionPauses value
  | .throwValue value => value.pauses
  | .tryCatch body handler finalizer =>
    Stmt.anyPauses body || CatchClause.optionPauses handler || Stmt.bodyPauses finalizer
  | .function decl => decl.pauses
  | .classDecl _ methods => FunctionDecl.anyPauses methods
  | .debugger => true
  | _ => false

def Stmt.anyPauses : List Stmt → Bool
  | [] => false
  | stmt :: rest => stmt.pauses || Stmt.anyPauses rest

def Stmt.optionPauses : Option Stmt → Bool
  | none => false
  | some stmt => stmt.pauses

def Stmt.bodyPauses : Option (List Stmt) → Bool
  | none => false
  | some body => Stmt.anyPauses body

def CatchClause.optionPauses : Option CatchClause → Bool
  | none => false
  | some (.mk _ body _) => Stmt.anyPauses body

def FunctionDecl.pauses : FunctionDecl → Bool
  | .mk _ _ body _ => Stmt.anyPauses body

def FunctionDecl.anyPauses : List FunctionDecl → Bool
  | [] => false
  | decl :: rest => decl.pauses || FunctionDecl.anyPauses rest

end

/-- does a `debugger` statement stand in the finalizer that has still to run? -/
def ExitScope.pauses : ExitScope → Bool
  | .guarded finalizer => Stmt.bodyPauses finalizer
  | _ => false

/-! ## code that does not pause -/

@[simp] theorem UnaryOp.toOp_ne_debugger (op : UnaryOp) : op.toOp ≠ .debugger := by
  cases op <;> nofun

@[simp] theorem LogicalOp.toOp_ne_debugger (op : LogicalOp) (l : Label) : op.toOp l ≠ .debugger := by
  cases op <;> nofun

/-- none of the instructions is that of a `debugger` statement -/
def unpaused (c : Code) : Bool := c.all fun e => e.op ≠ .debugger

@[simp] theorem unpaused_nil : unpaused [] = true := rfl

@[simp] theorem unpaused_append (c c' : Code) : unpaused (c ++ c') = (unpaused c && unpaused c') :=
  List.all_append

@[simp] theorem unpaused_one (op : Op) (range : TokenRange) :
    unpaused (one op range) = decide (op ≠ .debugger) := Bool.and_true _

@[simp] theorem unpaused_place (l : Label) : unpaused (place l) = true := rfl

@[simp] theorem unpaused_constantCode (b : Builder) (v : Value) (range : TokenRange) :
    unpaused (b.constantCode v range) = true := rfl

@[simp] theorem unpaused_startStatement (exits : List ExitScope) (range : TokenRange) (c : Code) :
    unpaused (startStatement exits range c) = unpaused c := by
  cases c <;> rfl

@[simp] theorem unpaused_blockCode (range : TokenRange) (c : Code) :
    unpaused (blockCode range c) = unpaused c := by
  simp [blockCode]

@[simp] theorem unpaused_methodCall (method : String) (argc : Nat) (range : TokenRange) :
    unpaused (methodCall method argc range) = true := rfl

/-- no function of the builder pauses -/
def Builder.Unpaused (b : Builder) : Prop :=
  ∀ (i : Nat) (f : FunctionCode), b.functions[i]? = some f → unpaused f.code = true

/-- what is made between two states of the builder does not pause -/
structure Keeps (b : Builder) (c : Code) (b' : Builder) : Prop where
  keeps : b.Unpaused → b'.Unpaused
  code : unpaused c = true

namespace Keeps

variable {b b₁ b₂ b' : Builder} {c c₁ c₂ c' : Code}

theorem refl : Keeps b [] b := ⟨id, rfl⟩

theorem trans (h : Keeps b c₁ b₁) (h' : Keeps b₁ c₂ b₂) : Keeps b (c₁ ++ c₂) b₂ :=
  ⟨h'.keeps ∘ h.keeps, by rw [unpaused_append, h.code, h'.code]; rfl⟩

/-- other code around the same pieces -/
theorem cast (h : Keeps b c b') (hc : unpaused c = true → unpaused c' = true) : Keeps b c' b' :=
  ⟨h.keeps, hc h.code⟩

/-- the functions of the builder are what counts -/
theorem ofFunctions (h : b'.functions = b.functions) (hc : unpaused c = true) : Keeps b c b' :=
  ⟨fun hb i f hf => hb i f (h ▸ hf), hc⟩

theorem labels (b : Builder) (n : Nat) : Keeps b [] (b.addLabels n) := ofFunctions rfl rfl

theorem constant (b : Builder) (v : Value) (range : TokenRange) :
    Keeps b (b.constantCode v range) (b.addConstant v) := ofFunctions rfl rfl

theorem named (b : Builder) (decl : FunctionDecl) : Keeps b [] (b.named decl) := by
  refine ofFunctions ?_ rfl
  unfold Builder.named
  split <;> rfl

theorem addClass (h : Keeps b c b') (entry : ClassEntry) : Keeps b c (b'.addClass entry) :=
  ⟨h.keeps, h.code⟩

theorem close {closing : TokenRange} (h : Keeps b c b₁) (hc : Closes closing c b₁ c' b') :
    Keeps b c' b' := by
  cases hc with
  | already => exact h
  | added => exact (h.trans (constant _ _ closing)).cast fun hc => by simpa using hc

/-- a function takes its place without code, and gets its code later -/
theorem fill {name : String} {params : List String} (h : Keeps (b.reserve name params) c b') :
    Keeps b [] (b'.fill b.functions.size c) := by
  refine ⟨fun hb i f hf => ?_, rfl⟩
  have hreserved : (b.reserve name params).Unpaused := by
    intro j g hg
    have hg : (b.functions.push ⟨name, params, []⟩)[j]? = some g := hg
    rw [Array.getElem?_push] at hg
    split at hg
    · cases hg
      rfl
    · exact hb j g hg
  have hf : (b'.functions.modify b.functions.size fun f => { f with code := c })[i]? = some f := hf
  rw [Array.getElem?_modify] at hf
  split at hf
  · obtain ⟨g, -, rfl⟩ := Option.map_eq_some_iff.mp hf
    exact h.code
  · exact h.keeps hreserved i f hf

/-! ### parts that may be missing -/

theorem ofOption {α : Type} {o : Option α} (hsome : ∀ a, o = some a → Keeps b c b')
    (hnone : o = none → Keeps b c b') : Keeps b c b' := by
  cases o with
  | none => exact hnone rfl
  | some a => exact hsome a rfl

theorem valueOf {α : Type} {o : Option α} {range : TokenRange}
    (h : o = none → c = b.constantCode .undefined range ∧ b' = b.addConstant .undefined)
    (ho : o = none) : Keeps b c b' := by
  obtain ⟨rfl, rfl⟩ := h ho
  exact constant b .undefined range

theorem nothing {α : Type} {o : Option α} (h : o = none → c = [] ∧ b' = b) (ho : o = none) :
    Keeps b c b' := by
  obtain ⟨rfl, rfl⟩ := h ho
  exact refl

theorem ofOptional (op : Op) {e : Option Expr} (hop : op ≠ .debugger)
    (hsome : ∀ e', e = some e' → Keeps b c b') (hnone : e = none → b' = b) :
    Keeps b (optionalCode op e c) b' := by
  cases e with
  | none =>
    rw [hnone rfl]
    exact refl
  | some e => exact (hsome e rfl).cast fun hc => by simpa [optionalCode, hop] using hc

theorem ofHandler {handler : Option CatchClause} (caught done uncaught : Label)
    (hsome : ∀ binding body r, handler = some (.mk binding body r) → Keeps b c b')
    (hnone : handler = none → b' = b) : Keeps b (handlerCode caught done uncaught handler c) b' := by
  cases handler with
  | none =>
    rw [hnone rfl]
    exact refl
  | some clause =>
    obtain ⟨binding, body, r⟩ := clause
    refine (hsome binding body r rfl).cast fun hc => ?_
    cases binding <;> simp [handlerCode, catchCode, bindingCode, hc]

theorem ofFinalizer (range : TokenRange) {finalizer : Option (List Stmt)}
    (hsome : ∀ body, finalizer = some body → Keeps b c b') (hnone : finalizer = none → b' = b) :
    Keeps b (finalCode range finalizer c) b' := by
  cases finalizer with
  | none =>
    rw [hnone rfl]
    exact refl
  | some body => exact (hsome body rfl).cast fun hc => by simpa [finalCode] using hc

end Keeps

/-! ## the rules -/

mutual

theorem ExprCode.keeps {ctx : Context} {e : Expr} {b b' : Builder} {c : Code}
    (h : ExprCode ctx e b c b') (hp : e.pauses = false) : Keeps b c b' := by
  match h with
  | .literal h => exact .constant _ _ _
  | .variable | .this => exact .ofFunctions rfl rfl
  | .assignVariable hv =>
    simp only [Expr.pauses, ExprForm.pauses, Bool.or_eq_false_iff] at hp
    exact (hv.keeps hp.2).cast fun hc => by simpa using hc
  | .assignMember ho hv =>
    simp only [Expr.pauses, ExprForm.pauses, Bool.or_eq_false_iff] at hp
    exact ((ho.keeps hp.1).trans (hv.keeps hp.2)).cast fun hc => by simpa using hc
  | .assignIndex ho hv hk =>
    simp only [Expr.pauses, ExprForm.pauses, Bool.or_eq_false_iff] at hp
    exact (((ho.keeps hp.1.1).trans (hv.keeps hp.2)).trans (hk.keeps hp.1.2)).cast
      fun hc => by simpa using hc
  | .binary hl hr =>
    simp only [Expr.pauses, ExprForm.pauses, Bool.or_eq_false_iff] at hp
    exact ((hl.keeps hp.1).trans (hr.keeps hp.2)).cast fun hc => by simpa using hc
  | .logical hl hr =>
    simp only [Expr.pauses, ExprForm.pauses, Bool.or_eq_false_iff] at hp
    refine ((((Keeps.labels _ 2).trans (hl.keeps hp.1)).trans (hr.keeps hp.2)).trans
      (.constant _ _ e.range)).cast fun hc => ?_
    simpa [logicalCode] using hc
  | .unary h => exact (h.keeps hp).cast fun hc => by simpa using hc
  | .callMember _ ho ha =>
    simp only [Expr.pauses, ExprForm.pauses, Bool.or_eq_false_iff] at hp
    exact ((ho.keeps hp.1).trans (ha.keeps hp.2)).cast fun hc => by simpa using hc
  | .callVariable _ ha =>
    simp only [Expr.pauses, ExprForm.pauses, Bool.or_eq_false_iff] at hp
    exact (ha.keeps hp.2).cast fun hc => by simpa using hc
  | .callValue _ _ ha hc =>
    simp only [Expr.pauses, ExprForm.pauses, Bool.or_eq_false_iff] at hp
    exact ((ha.keeps hp.2).trans (hc.keeps hp.1)).cast fun hc => by simpa using hc
  | .member ho => exact (ho.keeps hp).cast fun hc => by simpa using hc
  | .index ho hk =>
    simp only [Expr.pauses, ExprForm.pauses, Bool.or_eq_false_iff] at hp
    exact ((ho.keeps hp.1).trans (hk.keeps hp.2)).cast fun hc => by simpa using hc
  | .new _ ha => exact (ha.keeps hp).cast fun hc => by simpa [newCode] using hc
  | .function hf =>
    exact ((Keeps.named _ _).trans (hf.keeps hp)).cast fun _ => by simp
  | .array ha => exact (ha.keeps hp).cast fun hc => by simpa using hc

theorem ArgsCode.keeps {ctx : Context} {es : List Expr} {b b' : Builder} {c : Code}
    (h : ArgsCode ctx es b c b') (hp : Expr.anyPauses es = false) : Keeps b c b' := by
  match h with
  | .nil => exact .refl
  | .cons hr he =>
    simp only [Expr.anyPauses, Bool.or_eq_false_iff] at hp
    exact (hr.keeps hp.2).trans (he.keeps hp.1)

theorem FunctionAdded.keeps {ctx : Context} {name : String} {decl : FunctionDecl} {b b' : Builder}
    {i : Nat} (h : FunctionAdded ctx name decl b i b') (hp : decl.pauses = false) : Keeps b [] b' := by
  match h with
  | .mk _ hb hc => exact ((hb.keeps nofun hp).close hc).fill

theorem MethodsAdded.keeps {ctx : Context} {className : String} {decls : List FunctionDecl}
    {b b' : Builder} {methods : List (String × Nat)}
    (h : MethodsAdded ctx className decls b methods b') (hp : FunctionDecl.anyPauses decls = false) :
    Keeps b [] b' := by
  match h with
  | .nil => exact .refl
  | .cons _ hf hr =>
    simp only [FunctionDecl.anyPauses, Bool.or_eq_false_iff] at hp
    exact (hf.keeps hp.1).trans (hr.keeps hp.2)

theorem StmtCode.keeps {ctx : Context} {stmt : Stmt} {b b' : Builder} {c : Code}
    (h : StmtCode ctx stmt b c b') (hctx : ∀ scope ∈ ctx.exits, scope.pauses = false)
    (hp : stmt.pauses = false) : Keeps b c b' := by
  match h with
  | .block h => exact (h.keeps hctx hp).cast fun hc => by simpa using hc
  | .form _ h => exact (h.keeps hctx hp).cast fun hc => by simpa using hc

theorem BodyCode.keeps {ctx : Context} {body : List Stmt} {b b' : Builder} {c : Code}
    (h : BodyCode ctx body b c b') (hctx : ∀ scope ∈ ctx.exits, scope.pauses = false)
    (hp : Stmt.anyPauses body = false) : Keeps b c b' := by
  match h with
  | .nil => exact .refl
  | .cons hs hr =>
    simp only [Stmt.anyPauses, Bool.or_eq_false_iff] at hp
    exact (hs.keeps hctx hp.1).trans (hr.keeps hctx hp.2)

theorem FormCode.keeps {ctx : Context} {range : TokenRange} {form : StmtForm} {b b' : Builder}
    {c : Code} (h : FormCode ctx range form b c b') (hctx : ∀ scope ∈ ctx.exits, scope.pauses = false)
    (hp : form.pauses = false) : Keeps b c b' := by
  have hinside {scope : ExitScope} (hscope : scope.pauses = false) :
      ∀ s ∈ (ctx.inside scope).exits, s.pauses = false := List.forall_mem_cons.mpr ⟨hscope, hctx⟩
  match h with
  | .expression h => exact (h.keeps hp).cast fun hc => by simpa using hc
  | .varDecl hsome hnone =>
    have hvalue := Keeps.ofOption (fun e he => (hsome e he).keeps (by cases he; exact hp)) (Keeps.valueOf hnone)
    exact hvalue.cast fun hc => by simpa using hc
  | .ifOnly ht hs =>
    simp only [StmtForm.pauses, Bool.or_eq_false_iff] at hp
    refine (((Keeps.labels _ 1).trans (ht.keeps hp.1.1)).trans (hs.keeps hctx hp.1.2)).cast fun hc => ?_
    simpa [ifCode] using hc
  | .ifElse ht hs he =>
    simp only [StmtForm.pauses, Bool.or_eq_false_iff] at hp
    refine (((((Keeps.labels _ 1).trans (ht.keeps hp.1.1)).trans (hs.keeps hctx hp.1.2)).trans
      (Keeps.labels _ 1)).trans (he.keeps hctx hp.2)).cast fun hc => ?_
    simpa [ifElseCode] using hc
  | .whileLoop ht hs =>
    simp only [StmtForm.pauses, Bool.or_eq_false_iff] at hp
    refine (((Keeps.labels _ 2).trans (ht.keeps hp.1)).trans (hs.keeps (hinside rfl) hp.2)).cast
      fun hc => ?_
    simpa [whileCode] using hc
  | .forLoop hisome hinone htsome htnone hs husome hunone =>
    simp only [StmtForm.pauses, Bool.or_eq_false_iff] at hp
    obtain ⟨⟨⟨hpi, hpt⟩, hpu⟩, hpb⟩ := hp
    have hinit := Keeps.ofOption (fun s h => (hisome s h).keeps hctx (by cases h; exact hpi)) (Keeps.nothing hinone)
    have htest := Keeps.ofOptional (.jumpFalse (b.nextLabel + 2)) nofun
      (fun e h => (htsome e h).keeps (by cases h; exact hpt)) htnone
    have hupdate := Keeps.ofOptional .pop nofun (fun e h => (husome e h).keeps (by cases h; exact hpu)) hunone
    refine (((((Keeps.labels _ 3).trans hinit).trans htest).trans (hs.keeps (hinside rfl) hpb)).trans
      hupdate).cast fun hc => ?_
    simpa [forCode] using hc
  | .jump _ _ => exact .ofFunctions rfl rfl
  | .jumpCrossing _ _ hc =>
    refine (hc.keeps ?_).cast fun hc => by simpa using hc
    rw [insideLoop_append_fromLoop]
    exact hctx
  | .returnValue _ hsome hnone _ =>
    have hvalue := Keeps.ofOption (fun e he => (hsome e he).keeps (by cases he; exact hp)) (Keeps.valueOf hnone)
    exact hvalue.cast fun hc => by simpa using hc
  | .returnCrossing _ hsome hnone _ hc =>
    have hvalue := Keeps.ofOption (fun e he => (hsome e he).keeps (by cases he; exact hp)) (Keeps.valueOf hnone)
    have hcross := hc.keeps (by rw [List.append_nil]; exact hctx)
    exact (hvalue.trans hcross).cast fun hc => by simpa [returnCode] using hc
  | .throwValue h => exact (h.keeps hp).cast fun hc => by simpa using hc
  | .tryCatch hb hhsome hhnone hrsome hrnone hfsome hfnone =>
    simp only [StmtForm.pauses, Bool.or_eq_false_iff] at hp
    obtain ⟨⟨hpb, hph⟩, hpf⟩ := hp
    have hbody := hb.keeps (hinside hpf) hpb
    have hhandler := Keeps.ofHandler b.nextLabel (b.nextLabel + 1) (b.nextLabel + 2)
      (fun n s r h => (hhsome n s r h).keeps (hinside hpf) (by cases h; exact hph)) hhnone
    have hrethrow := Keeps.ofFinalizer range
      (fun s h => (hrsome s h).keeps (hinside rfl) (by cases h; exact hpf)) hrnone
    have hfinal := Keeps.ofFinalizer range (fun s h => (hfsome s h).keeps hctx (by cases h; exact hpf)) hfnone
    refine (((((Keeps.labels _ 3).trans hbody).trans hhandler).trans hrethrow).trans hfinal).cast
      fun hc => ?_
    unfold tryCode
    split <;> simpa using hc
  | .function _ hf => exact hf.keeps hp
  | .classDecl hm _ => exact (hm.keeps hp).addClass _
  | .classPlain hm _ hb => exact ((hm.keeps hp).trans (Keeps.refl.close hb).fill).addClass _
  | .debugger => cases hp
  | .empty => exact .refl

theorem CrossCode.keeps {ctx : Context} {range : TokenRange} {crossed outer : List ExitScope}
    {b b' : Builder} {c : Code} (h : CrossCode ctx range crossed outer b c b')
    (hctx : ∀ scope ∈ crossed ++ outer, scope.pauses = false) : Keeps b c b' := by
  match h with
  | .nil => exact .refl
  | .loop h | .pendingThrow h | .guarded h =>
    exact (h.keeps (List.forall_mem_cons.mp hctx).2).cast fun hc => by simpa using hc
  | .finalizer hb h =>
    obtain ⟨hp, hctx⟩ := List.forall_mem_cons.mp hctx
    exact ((hb.keeps hctx hp).trans (h.keeps hctx)).cast fun hc => by simpa using hc

end

/-- a program without `debugger` statements has no instruction that pauses -/
theorem instruction_unpaused {body : List Stmt} {source : Source} {program : Program}
    (hprogram : compileProgram body source = .ok program) (hbody : Stmt.anyPauses body = false)
    {i pc : Nat} {ins : Instruction} (hins : program.instruction? i pc = some ins) :
    ins.op ≠ .debugger := by
  obtain ⟨code, b, hcode, rfl⟩ := compileProgram_ok hprogram
  have hkeeps := hcode.keeps nofun hbody
  rw [Builder.instruction?_toProgram] at hins
  obtain ⟨e, he, rfl⟩ := Option.map_eq_some_iff.mp hins
  obtain ⟨c, hc, hpc⟩ := Option.bind_eq_some_iff.mp he
  have hunpaused : unpaused c = true := by
    cases i with
    | zero =>
      cases hc
      rw [mainCode, unpaused_append, hkeeps.code]
      rfl
    | succ i =>
      obtain ⟨f, hf, rfl⟩ := Option.map_eq_some_iff.mp hc
      exact hkeeps.keeps nofun i f hf
  exact of_decide_eq_true (List.all_eq_true.mp hunpaused e (List.mem_of_getElem? hpc))

end ScriptMachine
