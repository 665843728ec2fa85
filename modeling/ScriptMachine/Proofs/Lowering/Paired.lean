import ScriptMachine.Proofs.Checked
import ScriptMachine.Proofs.Shape.Sections

/-!
# Calls in compiled code

A call is split over two instructions, the one that fetches the callee and the one that calls it.  In
compiled code they stand side by side.

* `awaits p c`          the call that is still to be made behind `c`, if `p` is before it;
* `Pairs b c b'`        every call of `c` is made in `c`, and so it is with the functions that were
                        made together with it;
* `BodyCode.pairs`      compiled code is of this kind;
* `call_follows_fetch`  behind an instruction that fetches a callee stands its call.
-/

namespace ScriptMachine

/-! ## code that makes its calls -/

/-- The call that is prepared and not yet made behind some code, if `p` is the one before it.  Nothing
if another instruction stands where a call should be. -/
def awaits : Option Nat → Code → Option (Option Nat)
  | p, [] => some p
  | none, e :: rest => awaits e.op.calleeArgc? rest
  | some argc, e :: rest =>
    match e.op with
    | .call n _ => if n = argc then awaits none rest else none
    | _ => none

@[simp] theorem awaits_nil (p : Option Nat) : awaits p [] = some p := by cases p <;> rfl

@[simp] theorem awaits_append (p : Option Nat) (c c' : Code) :
    awaits p (c ++ c') = (awaits p c).bind fun q => awaits q c' := by
  induction c generalizing p with
  | nil => simp
  | cons e c ih =>
    cases p with
    | none => exact ih _
    | some argc =>
      obtain ⟨op, range, statement⟩ := e
      cases op with
      | call n bound =>
        show (if n = argc then awaits none (c ++ c') else none)
          = (if n = argc then awaits none c else none).bind _
        split
        · exact ih none
        · rfl
      | _ => rfl

@[simp] theorem awaits_one (op : Op) (range : TokenRange) :
    awaits none (one op range) = some op.calleeArgc? := awaits_nil _

@[simp] theorem awaits_call (argc : Nat) (bound : Bool) (range : TokenRange) :
    awaits (some argc) (one (.call argc bound) range) = some none := if_pos rfl

@[simp] theorem awaits_place (l : Label) : awaits none (place l) = some none := rfl

@[simp] theorem awaits_constantCode (b : Builder) (v : Value) (range : TokenRange) :
    awaits none (b.constantCode v range) = some none := rfl

@[simp] theorem awaits_startStatement (exits : List ExitScope) (range : TokenRange) (c : Code) :
    awaits none (startStatement exits range c) = awaits none c := by
  cases c <;> rfl

@[simp] theorem UnaryOp.calleeArgc?_toOp (op : UnaryOp) : op.toOp.calleeArgc? = none := by
  cases op <;> rfl

@[simp] theorem LogicalOp.calleeArgc?_toOp (op : LogicalOp) (l : Label) :
    (op.toOp l).calleeArgc? = none := by
  cases op <;> rfl

@[simp] theorem awaits_blockCode (range : TokenRange) {c : Code} (h : awaits none c = some none) :
    awaits none (blockCode range c) = some none := by
  simp [blockCode, h, Op.calleeArgc?]

@[simp] theorem awaits_methodCall (method : String) (argc : Nat) (range : TokenRange) :
    awaits none (methodCall method argc range) = some none := by
  simp [methodCall, Op.calleeArgc?]

/-- every function of the builder makes its calls -/
def Builder.Paired (b : Builder) : Prop :=
  ∀ (i : Nat) (f : FunctionCode), b.functions[i]? = some f → awaits none f.code = some none

/-- what is made between two states of the builder makes its calls -/
structure Pairs (b : Builder) (c : Code) (b' : Builder) : Prop where
  keeps : b.Paired → b'.Paired
  code : awaits none c = some none

namespace Pairs

variable {b b₁ b₂ b' : Builder} {c c₁ c₂ c' : Code}

theorem refl : Pairs b [] b := ⟨id, rfl⟩

theorem trans (h : Pairs b c₁ b₁) (h' : Pairs b₁ c₂ b₂) : Pairs b (c₁ ++ c₂) b₂ :=
  ⟨h'.keeps ∘ h.keeps, by rw [awaits_append, h.code]; exact h'.code⟩

/-- more code that makes its calls, without a change of the builder -/
theorem more (h : Pairs b c b') (hc' : awaits none c' = some none) : Pairs b (c ++ c') b' :=
  h.trans ⟨id, hc'⟩

theorem close {closing : TokenRange} (h : Pairs b c b₁) (hc : Closes closing c b₁ c' b') :
    Pairs b c' b' := by
  cases hc with
  | already => exact h
  | added => exact ⟨h.keeps, by simp [h.code, Op.calleeArgc?]⟩

/-- a function takes its place without code, and gets its code later -/
theorem fill {name : String} {params : List String} (h : Pairs (b.reserve name params) c b') :
    Pairs b [] (b'.fill b.functions.size c) := by
  refine ⟨fun hb i f hf => ?_, rfl⟩
  have hreserved : (b.reserve name params).Paired := by
    intro j g hg
    have hg : (b.functions.push ⟨name, params, []⟩)[j]? = some g := hg
    rw [Array.getElem?_push] at hg
    split at hg
    · cases hg
      rfl
    · exact hb j g hg
  have hf : (b'.functions.modify b.functions.size fun f => { f with code := c })[i]? = some f := hf
  rw [Array.getElem?_modify] at hf
  split at hf
  · obtain ⟨g, -, rfl⟩ := Option.map_eq_some_iff.mp hf
    exact h.code
  · exact h.keeps hreserved i f hf

theorem named (h : Pairs (b.named decl) c b') : Pairs b c b' := by
  refine ⟨fun hb => h.keeps ?_, h.code⟩
  unfold Builder.named
  split <;> exact hb

/-! ### parts that may be missing -/

theorem valueOf {e : Option Expr} {range : TokenRange} (hsome : ∀ e', e = some e' → Pairs b c b')
    (hnone : e = none → c = b.constantCode .undefined range ∧ b' = b.addConstant .undefined) :
    Pairs b c b' := by
  cases e with
  | some e => exact hsome e rfl
  | none =>
    obtain ⟨rfl, rfl⟩ := hnone rfl
    exact ⟨id, rfl⟩

theorem ofOption {s : Option Stmt} (hsome : ∀ s', s = some s' → Pairs b c b')
    (hnone : s = none → c = [] ∧ b' = b) : Pairs b c b' := by
  cases s with
  | some s => exact hsome s rfl
  | none =>
    obtain ⟨rfl, rfl⟩ := hnone rfl
    exact refl

theorem ofOptional (op : Op) (hop : op.calleeArgc? = none) {e : Option Expr}
    (hsome : ∀ e', e = some e' → Pairs b c b') (hnone : e = none → b' = b) :
    Pairs b (optionalCode op e c) b' := by
  cases e with
  | some e => exact ⟨(hsome e rfl).keeps, by simp [optionalCode, (hsome e rfl).code, hop]⟩
  | none =>
    rw [hnone rfl]
    exact refl

theorem ofHandler {handler : Option CatchClause} (caught done uncaught : Label)
    (hsome : ∀ binding body r, handler = some (.mk binding body r) → Pairs b c b')
    (hnone : handler = none → b' = b) : Pairs b (handlerCode caught done uncaught handler c) b' := by
  cases handler with
  | none =>
    rw [hnone rfl]
    exact refl
  | some clause =>
    obtain ⟨binding, body, r⟩ := clause
    obtain ⟨hkeeps, hcode⟩ := hsome binding body r rfl
    refine ⟨hkeeps, ?_⟩
    cases binding <;> simp [handlerCode, catchCode, bindingCode, hcode, Op.calleeArgc?]

theorem ofFinalizer (range : TokenRange) {finalizer : Option (List Stmt)}
    (hsome : ∀ body, finalizer = some body → Pairs b c b') (hnone : finalizer = none → b' = b) :
    Pairs b (finalCode range finalizer c) b' := by
  cases finalizer with
  | none =>
    rw [hnone rfl]
    exact refl
  | some body => exact ⟨(hsome body rfl).keeps, awaits_blockCode range (hsome body rfl).code⟩

end Pairs

/-! ## the rules -/

mutual

theorem ExprCode.pairs {ctx : Context} {e : Expr} {b b' : Builder} {c : Code}
    (h : ExprCode ctx e b c b') : Pairs b c b' := by
  match h with
  | .literal _ => exact ⟨id, rfl⟩
  | .variable | .this => exact ⟨id, rfl⟩
  | .assignVariable hv => exact hv.pairs.more rfl
  | .assignMember ho hv => exact (ho.pairs.trans hv.pairs).more rfl
  | .assignIndex ho hv hk =>
    exact ((ho.pairs.trans hv.pairs).trans hk.pairs).more (awaits_methodCall _ _ _)
  | .binary hl hr => exact (hl.pairs.trans hr.pairs).more rfl
  | .logical hl hr =>
    have hl := hl.pairs
    have hr := hr.pairs
    refine ⟨hr.keeps ∘ hl.keeps, ?_⟩
    simp [logicalCode, hl.code, hr.code, show (Op.jump _).calleeArgc? = none from rfl]
  | .unary h =>
    exact h.pairs.more (by rw [awaits_one, UnaryOp.calleeArgc?_toOp])
  | .callMember _ ho ha => exact (ho.pairs.trans ha.pairs).more (awaits_methodCall _ _ _)
  | .callVariable _ ha =>
    have ha := ha.pairs
    exact ⟨ha.keeps, by simp [ha.code, Op.calleeArgc?]⟩
  | .callValue _ _ ha hc => exact (ha.pairs.trans hc.pairs).more rfl
  | .member ho => exact ho.pairs.more rfl
  | .index ho hk => exact (ho.pairs.trans hk.pairs).more (awaits_methodCall _ _ _)
  | .new _ ha =>
    have ha := ha.pairs
    exact ⟨ha.keeps, by simp [newCode, ha.code, Op.calleeArgc?]⟩
  | .function hf => exact ⟨hf.pairs.named.keeps, rfl⟩
  | .array ha => exact ha.pairs.more rfl

theorem ArgsCode.pairs {ctx : Context} {es : List Expr} {b b' : Builder} {c : Code}
    (h : ArgsCode ctx es b c b') : Pairs b c b' := by
  match h with
  | .nil => exact .refl
  | .cons hr he => exact hr.pairs.trans he.pairs

theorem FunctionAdded.pairs {ctx : Context} {name : String} {decl : FunctionDecl} {b b' : Builder}
    {i : Nat} (h : FunctionAdded ctx name decl b i b') : Pairs b [] b' := by
  match h with
  | .mk _ hb hc => exact (hb.pairs.close hc).fill

theorem MethodsAdded.pairs {ctx : Context} {className : String} {decls : List FunctionDecl}
    {b b' : Builder} {methods : List (String × Nat)}
    (h : MethodsAdded ctx className decls b methods b') : Pairs b [] b' := by
  match h with
  | .nil => exact .refl
  | .cons _ hf hr => exact hf.pairs.trans hr.pairs

theorem StmtCode.pairs {ctx : Context} {stmt : Stmt} {b b' : Builder} {c : Code}
    (h : StmtCode ctx stmt b c b') : Pairs b c b' := by
  match h with
  | .block h =>
    have h := h.pairs
    exact ⟨h.keeps, awaits_blockCode _ h.code⟩
  | .form _ h =>
    have h := h.pairs
    exact ⟨h.keeps, by rw [awaits_startStatement, h.code]⟩

theorem BodyCode.pairs {ctx : Context} {body : List Stmt} {b b' : Builder} {c : Code}
    (h : BodyCode ctx body b c b') : Pairs b c b' := by
  match h with
  | .nil => exact .refl
  | .cons hs hr => exact hs.pairs.trans hr.pairs

theorem FormCode.pairs {ctx : Context} {range : TokenRange} {form : StmtForm} {b b' : Builder}
    {c : Code} (h : FormCode ctx range form b c b') : Pairs b c b' := by
  match h with
  | .expression h => exact h.pairs.more rfl
  | .varDecl hsome hnone =>
    have hvalue := Pairs.valueOf (fun e he => (hsome e he).pairs) hnone
    exact ⟨hvalue.keeps, by simp [hvalue.code, Op.calleeArgc?]⟩
  | .ifOnly ht hs =>
    have ht := ht.pairs
    have hs := hs.pairs
    exact ⟨hs.keeps ∘ ht.keeps, by simp [ifCode, ht.code, hs.code, Op.calleeArgc?]⟩
  | .ifElse ht hs he =>
    have ht := ht.pairs
    have hs := hs.pairs
    have he := he.pairs
    refine ⟨he.keeps ∘ hs.keeps ∘ ht.keeps, ?_⟩
    simp [ifElseCode, ht.code, hs.code, he.code, Op.calleeArgc?]
  | .whileLoop ht hs =>
    have ht := ht.pairs
    have hs := hs.pairs
    exact ⟨hs.keeps ∘ ht.keeps, by simp [whileCode, ht.code, hs.code, Op.calleeArgc?]⟩
  | .forLoop hisome hinone htsome htnone hs husome hunone =>
    have hinit := Pairs.ofOption (fun s h => (hisome s h).pairs) hinone
    have htest := Pairs.ofOptional (.jumpFalse (b.nextLabel + 2)) rfl
      (fun e h => (htsome e h).pairs) htnone
    have hs := hs.pairs
    have hupdate := Pairs.ofOptional .pop rfl (fun e h => (husome e h).pairs) hunone
    refine ⟨hupdate.keeps ∘ hs.keeps ∘ htest.keeps ∘ hinit.keeps, ?_⟩
    simp [forCode, hinit.code, htest.code, hs.code, hupdate.code, Op.calleeArgc?]
  | .jump _ _ => exact ⟨id, rfl⟩
  | .jumpCrossing _ _ hc => exact hc.pairs.more rfl
  | .returnValue _ hsome hnone _ =>
    exact (Pairs.valueOf (fun e he => (hsome e he).pairs) hnone).more rfl
  | .returnCrossing _ hsome hnone _ hc =>
    have hvalue := Pairs.valueOf (fun e he => (hsome e he).pairs) hnone
    have hc := hc.pairs
    refine ⟨hc.keeps ∘ hvalue.keeps, ?_⟩
    simp [returnCode, hvalue.code, hc.code, Op.calleeArgc?]
  | .throwValue h => exact h.pairs.more rfl
  | .tryCatch hb hhsome hhnone hrsome hrnone hfsome hfnone =>
    have hbody := hb.pairs
    have hhandler := Pairs.ofHandler b.nextLabel (b.nextLabel + 1) (b.nextLabel + 2)
      (fun n s r h => (hhsome n s r h).pairs) hhnone
    have hrethrow := Pairs.ofFinalizer range (fun s h => (hrsome s h).pairs) hrnone
    have hfinal := Pairs.ofFinalizer range (fun s h => (hfsome s h).pairs) hfnone
    refine ⟨hfinal.keeps ∘ hrethrow.keeps ∘ hhandler.keeps ∘ hbody.keeps, ?_⟩
    unfold tryCode
    split <;> simp [awaits_blockCode range hbody.code, hhandler.code, hrethrow.code, hfinal.code,
      Op.calleeArgc?]
  | .function _ hf => exact hf.pairs
  | .classDecl hm _ => exact ⟨hm.pairs.keeps, rfl⟩
  | .classPlain hm _ hb => exact ⟨(hm.pairs.trans (Pairs.refl.close hb).fill).keeps, rfl⟩
  | .debugger => exact ⟨id, rfl⟩
  | .empty => exact .refl

theorem CrossCode.pairs {ctx : Context} {range : TokenRange} {crossed outer : List ExitScope}
    {b b' : Builder} {c : Code} (h : CrossCode ctx range crossed outer b c b') : Pairs b c b' := by
  match h with
  | .nil => exact .refl
  | .loop h | .pendingThrow h | .guarded h => exact ⟨h.pairs.keeps, h.pairs.code⟩
  | .finalizer hb h =>
    have hb := hb.pairs
    have h := h.pairs
    refine ⟨h.keeps ∘ hb.keeps, ?_⟩
    simp [awaits_blockCode range hb.code, h.code, Op.calleeArgc?]

end

/-! ## programs -/

/-- a call that is awaited is the first instruction -/
theorem call_of_awaits {argc : Nat} {code : Code} (h : awaits (some argc) code = some none) :
    ∃ (e : Emitted) (bound : Bool), code[0]? = some e ∧ e.op = .call argc bound := by
  cases code with
  | nil => cases h
  | cons e rest =>
    refine ⟨e, ?_⟩
    obtain ⟨op, range, statement⟩ := e
    cases op with
    | call n bound =>
      have h : (if n = argc then awaits none rest else none) = some none := h
      split at h
      · next heq => exact ⟨bound, rfl, by rw [heq]⟩
      · cases h
    | _ => cases h

theorem call_behind {code : Code} (h : awaits none code = some none) {pc : Nat} {e : Emitted}
    (he : code[pc]? = some e) {argc : Nat} (hfetch : e.op.calleeArgc? = some argc) :
    ∃ e' bound, code[pc + 1]? = some e' ∧ e'.op = .call argc bound := by
  -- the code behind the instruction awaits its call, whatever is before it
  obtain ⟨hlt, hget⟩ := List.getElem?_eq_some_iff.mp he
  have hsplit : code = code.take pc ++ e :: code.drop (pc + 1) := by
    rw [← hget, List.getElem_cons_drop, List.take_append_drop]
  rw [hsplit, awaits_append] at h
  obtain ⟨p, -, hp⟩ := Option.bind_eq_some_iff.mp h
  have hrest : awaits (some argc) (code.drop (pc + 1)) = some none := by
    cases p with
    | none => rw [← hfetch]; exact hp
    | some n =>
      -- what is called is not fetched
      obtain ⟨e', bound, he', hcall⟩ := call_of_awaits hp
      cases he'
      rw [hcall] at hfetch
      cases hfetch
  obtain ⟨e', bound, he', hcall⟩ := call_of_awaits hrest
  rw [List.getElem?_drop] at he'
  exact ⟨e', bound, he', hcall⟩

/-- Behind an instruction that fetches a callee stands its call. -/
theorem call_follows_fetch {body : List Stmt} {source : Source} {program : Program}
    (hprogram : compileProgram body source = .ok program) {i pc : Nat} {ins : Instruction}
    (hins : program.instruction? i pc = some ins) {argc : Nat}
    (hfetch : ins.op.calleeArgc? = some argc) :
    ∃ ins' bound, program.instruction? i (pc + 1) = some ins' ∧ ins'.op = .call argc bound := by
  obtain ⟨code, b, hcode, rfl⟩ := compileProgram_ok hprogram
  have hpairs := hcode.pairs
  rw [Builder.instruction?_toProgram] at hins
  obtain ⟨e, he, rfl⟩ := Option.map_eq_some_iff.mp hins
  obtain ⟨c, hc, hpc⟩ := Option.bind_eq_some_iff.mp he
  have hawaits : awaits none c = some none := by
    cases i with
    | zero =>
      cases hc
      exact (hpairs.more rfl).code
    | succ i =>
      obtain ⟨f, hf, rfl⟩ := Option.map_eq_some_iff.mp hc
      exact hpairs.keeps nofun i f hf
  obtain ⟨e', bound, he', hcall⟩ := call_behind hawaits hpc hfetch
  refine ⟨e'.instruction, bound, ?_, hcall⟩
  rw [Builder.instruction?_toProgram, Builder.emitted?, hc, Option.bind_some, he']
  rfl

end ScriptMachine
