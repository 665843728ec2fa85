import ScriptMachine.Proofs.Lowering.Tables
import ScriptMachine.Proofs.Shape

/-!
# Compiled code is typed

The code of an expression leaves one value more.  The code of a statement leaves the shape as it
was, wherever the entries of the stack are those of the exit scopes around it.

* `Within Γ exits es`   the entries `es` are those of the scopes `exits`, whose loops have their
                        labels in `Γ`;
* `Fits.logicalCode`, `Fits.whileCode`, `Fits.tryCode`, ...   the pieces of code;
* `ExprCode.fits`, `StmtCode.fits`, `BodyCode.fits`   the main statements;
* `CrossCode.fits`      the cleanup of a jump drops the entries of the scopes that it leaves.
-/

namespace ScriptMachine

/-! ## exit scopes and entries -/

/-- only the marker of a loop on top -/
abbrev atLoop (es : List Entry) (d : Nat) : Shape := ⟨.loop d :: es, d⟩

/-- The entries of the stack are those of the exit scopes.  Inside a loop its labels stand where
only the marker of the loop is on top. -/
inductive Within (Γ : LabelShapes) : List ExitScope → List Entry → Prop
  | nil : Within Γ [] []
  | loop (hnext : (next, atLoop es d) ∈ Γ) (hdone : (done, atLoop es d) ∈ Γ)
      (h : Within Γ exits es) : Within Γ (.loop next done :: exits) (.loop d :: es)
  | guarded (h : Within Γ exits es) : Within Γ (.guarded finalizer :: exits) (.guard d :: es)
  | pendingThrow (h : Within Γ exits es) : Within Γ (.pendingThrow :: exits) (.value :: es)

namespace Within

variable {Γ Γ' : LabelShapes} {exits : List ExitScope} {es : List Entry}

theorem mono (h : Within Γ exits es) (hsub : Γ ⊆ Γ') : Within Γ' exits es := by
  induction h with
  | nil => exact .nil
  | loop hnext hdone _ ih => exact .loop (hsub hnext) (hsub hdone) ih
  | guarded _ ih => exact .guarded ih
  | pendingThrow _ ih => exact .pendingThrow ih

theorem leaves (h : Within Γ exits es) : List.Forall₂ Leaves exits es := by
  induction h with
  | nil => exact .nil
  | loop _ _ _ ih => exact .cons .loop ih
  | guarded _ ih => exact .cons .guarded ih
  | pendingThrow _ ih => exact .cons .pendingThrow ih

theorem length_eq (h : Within Γ exits es) : es.length = exits.length := h.leaves.length_eq.symm

theorem of_cons {scope : ExitScope} {e : Entry} (h : Within Γ (scope :: exits) (e :: es)) :
    Leaves scope e ∧ Within Γ exits es := by
  cases h with
  | loop _ _ h => exact ⟨.loop, h⟩
  | guarded h => exact ⟨.guarded, h⟩
  | pendingThrow h => exact ⟨.pendingThrow, h⟩

/-- a jump out of the innermost loop finds the marker of that loop below entries of other kinds -/
theorem target (h : Within Γ exits es) {form : StmtForm} {l : Label}
    (ht : loopTarget? exits form = some l) :
    ∃ (inner : List Entry) (d : Nat) (rest : List Entry),
      es = inner ++ .loop d :: rest ∧ (∀ e ∈ inner, e.isLoop = false)
      ∧ inner.length = (insideLoop exits).length ∧ (l, atLoop rest d) ∈ Γ := by
  induction h with
  | nil => cases form <;> cases ht
  | loop hnext hdone _ _ =>
    refine ⟨[], _, _, rfl, nofun, rfl, ?_⟩
    cases form with
    | breakLoop =>
      cases ht
      exact hdone
    | continueLoop =>
      cases ht
      exact hnext
    | _ => cases ht
  | @guarded exits _ _ depth _ ih =>
    have ht' : loopTarget? exits form = some l := by
      cases form <;> exact ht
    obtain ⟨inner, d, rest, rfl, hinner, hlen, hl⟩ := ih ht'
    refine ⟨.guard depth :: inner, d, rest, rfl, ?_, congrArg (· + 1) hlen, hl⟩
    exact List.forall_mem_cons.mpr ⟨rfl, hinner⟩
  | @pendingThrow exits _ _ ih =>
    have ht' : loopTarget? exits form = some l := by
      cases form <;> exact ht
    obtain ⟨inner, d, rest, rfl, hinner, hlen, hl⟩ := ih ht'
    refine ⟨.value :: inner, d, rest, rfl, ?_, congrArg (· + 1) hlen, hl⟩
    exact List.forall_mem_cons.mpr ⟨rfl, hinner⟩

end Within

/-! ## pieces of code -/

theorem OpTyped.unary {env : TypeEnv} {has : Label → Shape → Prop} {es : List Entry} {d : Nat}
    (op : UnaryOp) : OpTyped env has op.toOp ⟨.value :: es, d⟩ ⟨.value :: es, d⟩ := by
  cases op with
  | neg => exact .neg
  | not => exact .not

theorem UnaryOp.endsRegion_toOp (op : UnaryOp) : op.toOp.endsRegion = false := by
  cases op <;> rfl

theorem LogicalOp.endsRegion_toOp (op : LogicalOp) (l : Label) : (op.toOp l).endsRegion = false := by
  cases op <;> rfl

/-- a jump that finds its loop on top -/
theorem OpTyped.loopExitHere {env : TypeEnv} {has : Label → Shape → Prop} {es : List Entry}
    {d d' : Nat} {l : Label} {ρ : Shape} (h : has l (atLoop es d')) :
    OpTyped env has (.loopExit (some l)) ⟨.loop d' :: es, d⟩ ρ := by
  have hexit : OpTyped env has (.loopExit (some l)) ⟨[] ++ .loop d' :: es, d⟩ ρ := .loopExit nofun h
  exact hexit

namespace Fits

variable {env : TypeEnv} {Γ : LabelShapes} {es : List Entry} {d : Nat} {range : TokenRange}
  {c c₁ c₂ c₃ c₄ : Code}

theorem methodCall (method : String) (argc : Nat) :
    Fits env Γ ⟨values argc ++ .value :: es, d⟩ (ScriptMachine.methodCall method argc range)
      ⟨.value :: es, d⟩ [] :=
  ((one .pick rfl).append (one .fetchMethod rfl)).append (one (.call (.prepared _)) rfl)

theorem logicalCode (op : LogicalOp) (decided done : Label)
    (hl : ∀ Γ, Fits env Γ ⟨es, d⟩ c₁ ⟨.value :: es, d⟩ [])
    (hr : ∀ Γ, Fits env Γ ⟨es, d⟩ c₂ ⟨.value :: es, d⟩ [])
    (hv : ∀ Γ, Fits env Γ ⟨es, d⟩ c₃ ⟨.value :: es, d⟩ []) :
    Fits env Γ ⟨es, d⟩ (ScriptMachine.logicalCode op decided done range c₁ c₂ c₃)
      ⟨.value :: es, d⟩ [] := by
  refine close [(decided, ⟨es, d⟩), (done, ⟨.value :: es, d⟩)] ?_
  have hjump : OpTyped env (LabelShapes.Has ([(decided, ⟨es, d⟩), (done, ⟨.value :: es, d⟩)] ++ Γ))
      (op.toOp decided)
      ⟨.value :: es, d⟩ ⟨es, d⟩ := by
    cases op with
    | and => exact .jumpFalse (by simp)
    | or => exact .jumpTrue (by simp)
  exact ((((((hl _).append (one hjump (op.endsRegion_toOp decided))).append (hr _)).append
    (one (.jump (by simp)) rfl)).append place).append (hv _)).append place

theorem newCode (className : String) (argc : Nat)
    (ha : Fits env Γ ⟨.value :: .value :: es, d⟩ c ⟨values argc ++ .value :: .value :: es, d⟩ []) :
    Fits env Γ ⟨es, d⟩ (ScriptMachine.newCode className argc range c) ⟨.value :: es, d⟩ [] :=
  (((((one .createObject rfl).append (one .dup rfl)).append ha).append (one .fetchVariable rfl)).append
    (one (.call (.value _)) rfl)).append (one .pop rfl)

theorem ifCode (otherwise : Label) (hc : ∀ Γ, Fits env Γ ⟨es, d⟩ c₁ ⟨.value :: es, d⟩ [])
    (ht : Fits env ((otherwise, ⟨es, d⟩) :: Γ) ⟨es, d⟩ c₂ ⟨es, d⟩ []) :
    Fits env Γ ⟨es, d⟩ (ScriptMachine.ifCode otherwise range c₁ c₂) ⟨es, d⟩ [] := by
  refine close [(otherwise, ⟨es, d⟩)] ?_
  exact (((hc _).append (one (.jumpFalse (by simp)) rfl)).append ht).append place

theorem ifElseCode (otherwise done : Label) (r : TokenRange)
    (hc : ∀ Γ, Fits env Γ ⟨es, d⟩ c₁ ⟨.value :: es, d⟩ [])
    (ht : Fits env ([(otherwise, ⟨es, d⟩), (done, ⟨es, d⟩)] ++ Γ) ⟨es, d⟩ c₂ ⟨es, d⟩ [])
    (he : Fits env ([(otherwise, ⟨es, d⟩), (done, ⟨es, d⟩)] ++ Γ) ⟨es, d⟩ c₃ ⟨es, d⟩ []) :
    Fits env Γ ⟨es, d⟩ (ScriptMachine.ifElseCode otherwise done r range c₁ c₂ c₃) ⟨es, d⟩ [] := by
  refine close [(otherwise, ⟨es, d⟩), (done, ⟨es, d⟩)] ?_
  exact ((((((hc _).append (one (.jumpFalse (by simp)) rfl)).append ht).append
    (one (.jump (by simp)) rfl)).append place).append he).append place

theorem whileCode (start done : Label) (r : TokenRange)
    (hc : ∀ Γ, Fits env Γ (atLoop es d) c₁ ⟨.value :: .loop d :: es, d⟩ [])
    (hb : Fits env ([(start, atLoop es d), (done, atLoop es d)] ++ Γ)
      (atLoop es d) c₂ (atLoop es d) []) :
    Fits env Γ ⟨es, d⟩ (ScriptMachine.whileCode start done r range c₁ c₂) ⟨es, d⟩ [] := by
  refine close [(start, atLoop es d), (done, atLoop es d)] ?_
  exact (((((((one .loopStart rfl).append place).append (hc _)).append
    (one (.jumpFalse (by simp)) rfl)).append hb).append
    (one (τ := atLoop es d) (.jump (by simp)) rfl)).append place).append (one .loopEnd rfl)

theorem forCode (start next done : Label) (hi : ∀ Γ', Γ ⊆ Γ' →
      Fits env Γ' ⟨es, d + 1⟩ c₁ ⟨es, d + 1⟩ [])
    (hc : ∀ Γ, (done, atLoop es (d + 1)) ∈ Γ →
      Fits env Γ (atLoop es (d + 1)) c₂ (atLoop es (d + 1)) [])
    (hb : ∀ Γ', Γ ⊆ Γ' → (next, atLoop es (d + 1)) ∈ Γ' →
      (done, atLoop es (d + 1)) ∈ Γ' →
      Fits env Γ' (atLoop es (d + 1)) c₃ (atLoop es (d + 1)) [])
    (hu : ∀ Γ, Fits env Γ (atLoop es (d + 1)) c₄ (atLoop es (d + 1)) []) (hd : Shallow es d) :
    Fits env Γ ⟨es, d⟩ (ScriptMachine.forCode start next done range c₁ c₂ c₃ c₄) ⟨es, d⟩ [] := by
  have hsub : Γ ⊆ [start, next, done].map (·, atLoop es (d + 1)) ++ Γ :=
    List.subset_append_right _ _
  refine close ([start, next, done].map (·, atLoop es (d + 1))) ?_
  exact (((((((((((one .enterScope rfl).append (hi _ hsub)).append (one .loopStart rfl)).append place).append
    (hc _ (by simp))).append (hb _ hsub (by simp) (by simp))).append place).append (hu _)).append
    (one (τ := atLoop es (d + 1)) (.jump (by simp)) rfl)).append place).append (one .loopEnd rfl)).append
    (one (.leaveScope hd) rfl)

/-- `ρ` is whatever stands behind a return -/
theorem returnCode {ρ : Shape} (hv : Fits env Γ ⟨es, d⟩ c₁ ⟨.value :: es, d⟩ [])
    (hc : Fits env Γ ⟨es, d⟩
      (c₂ ++ (ScriptMachine.one (.fetch returnSlot .variable) range ++ ScriptMachine.one .ret range)) ρ []) :
    Fits env Γ ⟨es, d⟩ (ScriptMachine.returnCode range c₁ c₂) ρ [] := by
  rw [ScriptMachine.returnCode, List.append_assoc, List.append_assoc]
  exact (((hv.append (one .declare rfl)).append (one .storeVariable rfl)).append (one .pop rfl)).append hc

theorem bindingCode (binding : Option String) :
    Fits env Γ ⟨.value :: es, d⟩ (ScriptMachine.bindingCode binding range) ⟨es, d⟩ [] := by
  cases binding with
  | none => exact one .pop rfl
  | some name => exact ((one .declare rfl).append (one .storeVariable rfl)).append (one .pop rfl)

/-- a handler starts with the thrown value and goes on at `done`; its own faults go on at `uncaught`
one scope deeper -/
theorem catchCode (caught done uncaught : Label) (binding : Option String) {ρ : Shape}
    (hdone : (done, ⟨es, d⟩) ∈ Γ) (huncaught : (uncaught, ⟨.value :: es, d + 1⟩) ∈ Γ)
    (hb : Fits env Γ ⟨.guard (d + 1) :: es, d + 1⟩ c ⟨.guard (d + 1) :: es, d + 1⟩ [])
    (hd : Shallow es d) :
    Fits env Γ ⟨.value :: es, d⟩ (ScriptMachine.catchCode caught done uncaught binding range c) ρ
      [(caught, ⟨.value :: es, d⟩)] :=
  (((((((place.append (one .enterScope rfl)).append (bindingCode binding)).append
    (one (.enterTry huncaught) rfl)).append hb).append leaveTry).append
    (one (.leaveScope hd) rfl)).append (one (.jump hdone) rfl))

/-- faults of the handler come one scope deeper than those of the body -/
theorem tryCode_handled (caught done uncaught : Label) {range' : TokenRange}
    (binding : Option String)
    (hb : ∀ Γ', Γ ⊆ Γ' → Fits env Γ' ⟨.guard d :: es, d + 1⟩ c₁ ⟨.guard d :: es, d + 1⟩ [])
    (hh : ∀ Γ', Γ ⊆ Γ' →
      Fits env Γ' ⟨.guard (d + 1) :: es, d + 1⟩ c₂ ⟨.guard (d + 1) :: es, d + 1⟩ [])
    (hr : ∀ Γ', Γ ⊆ Γ' → Fits env Γ' ⟨.value :: es, d⟩ c₃ ⟨.value :: es, d⟩ [])
    (hf : ∀ Γ', Γ ⊆ Γ' → Fits env Γ' ⟨es, d⟩ c₄ ⟨es, d⟩ []) (hd : Shallow es d) :
    Fits env Γ ⟨es, d⟩ (ScriptMachine.tryCode caught done uncaught true range c₁
      (ScriptMachine.catchCode caught done uncaught binding range' c₂) c₃ c₄) ⟨es, d⟩ [] := by
  have hsub : Γ ⊆ [(caught, ⟨.value :: es, d⟩), (done, ⟨es, d⟩),
      (uncaught, ⟨.value :: es, d + 1⟩)] ++ Γ := List.subset_append_right _ _
  refine close [(caught, ⟨.value :: es, d⟩), (done, ⟨es, d⟩), (uncaught, ⟨.value :: es, d + 1⟩)]
    (weaken
    ((((((((((one (.enterTry ?_) rfl).append (blockCode (hb _ hsub) (.cons (Nat.le_refl d) hd))).append
      leaveTry).append (one (.jump ?_) rfl)).append
      (catchCode caught done uncaught binding ?_ ?_ (hh _ hsub) hd)).append
      place).append (one (.leaveScope (.cons (Nat.zero_le d) hd)) rfl)).append (hr _ hsub)).append
      (one .throw rfl)).append place |>.append (hf _ hsub)) ?_)
  all_goals simp

theorem tryCode_unhandled (done uncaught : Label)
    (hb : ∀ Γ', Γ ⊆ Γ' → Fits env Γ' ⟨.guard d :: es, d + 1⟩ c₁ ⟨.guard d :: es, d + 1⟩ [])
    (hr : ∀ Γ', Γ ⊆ Γ' → Fits env Γ' ⟨.value :: es, d⟩ c₃ ⟨.value :: es, d⟩ [])
    (hf : ∀ Γ', Γ ⊆ Γ' → Fits env Γ' ⟨es, d⟩ c₄ ⟨es, d⟩ []) (hd : Shallow es d) :
    Fits env Γ ⟨es, d⟩ (ScriptMachine.tryCode uncaught done uncaught false range c₁ [] c₃ c₄)
      ⟨es, d⟩ [] := by
  have hsub : Γ ⊆ [(done, ⟨es, d⟩), (uncaught, ⟨.value :: es, d⟩)] ++ Γ :=
    List.subset_append_right _ _
  refine close [(done, ⟨es, d⟩), (uncaught, ⟨.value :: es, d⟩)] (weaken
    ((((((((((one (.enterTry ?_) rfl).append (blockCode (hb _ hsub) (.cons (Nat.le_refl d) hd))).append
      leaveTry).append (one (.jump ?_) rfl)).append nil).append place).append nil).append
      (hr _ hsub)).append (one .throw rfl)).append place |>.append (hf _ hsub)) ?_)
  all_goals simp

theorem tryCode (caught done uncaught : Label) {handler : Option CatchClause}
    (hb : ∀ Γ', Γ ⊆ Γ' → Fits env Γ' ⟨.guard d :: es, d + 1⟩ c₁ ⟨.guard d :: es, d + 1⟩ [])
    (hh : ∀ binding body r, handler = some (.mk binding body r) → ∀ Γ', Γ ⊆ Γ' →
      Fits env Γ' ⟨.guard (d + 1) :: es, d + 1⟩ c₂ ⟨.guard (d + 1) :: es, d + 1⟩ [])
    (hr : ∀ Γ', Γ ⊆ Γ' → Fits env Γ' ⟨.value :: es, d⟩ c₃ ⟨.value :: es, d⟩ [])
    (hf : ∀ Γ', Γ ⊆ Γ' → Fits env Γ' ⟨es, d⟩ c₄ ⟨es, d⟩ []) (hd : Shallow es d) :
    Fits env Γ ⟨es, d⟩ (ScriptMachine.tryCode (if handler.isSome then caught else uncaught) done
      uncaught handler.isSome range c₁ (handlerCode caught done uncaught handler c₂) c₃ c₄)
      ⟨es, d⟩ [] := by
  cases handler with
  | none => exact tryCode_unhandled done uncaught hb hr hf hd
  | some clause =>
    obtain ⟨binding, body, r⟩ := clause
    exact tryCode_handled caught done uncaught binding hb (hh binding body r rfl) hr hf hd

theorem constantCode (b : Builder) (v : Value) (h : (b.addConstant v).constants.size ≤ env.constants) :
    Fits env Γ ⟨es, d⟩ (b.constantCode v range) ⟨.value :: es, d⟩ [] := by
  refine one (.const ?_) rfl
  have hlt : (internConstant b.constants v).1 < (b.addConstant v).constants.size := by
    show _ < (internConstant b.constants v).2.size
    unfold internConstant
    split
    · rename_i i h
      exact (Array.findIdx?_eq_some_iff_getElem.mp h).1
    · rw [Array.size_push]
      exact Nat.lt_succ_self _
  omega

end Fits

/-! ## the rules -/

theorem Grows.constants_le {b b' : Builder} {c : Code} (h : Grows b c b') :
    b.constants.size ≤ b'.constants.size := h.constants.length_le

mutual

/-- the code of an expression leaves one value more -/
theorem ExprCode.fits {ctx : Context} {e : Expr} {b b' : Builder} {c : Code}
    (h : ExprCode ctx e b c b') (env : TypeEnv) (hn : b'.constants.size ≤ env.constants)
    (Γ : LabelShapes) (es : List Entry) (d : Nat) :
    Fits env Γ ⟨es, d⟩ c ⟨.value :: es, d⟩ [] := by
  match h with
  | .literal h => exact .constantCode _ _ hn
  | .variable => exact .one .fetchVariable rfl
  | .this => exact .one .fetchVariable rfl
  | .assignVariable hv => exact (hv.fits env hn Γ es d).append (.one .storeVariable rfl)
  | .assignMember ho hv =>
    have hno := Nat.le_trans hv.grows.constants_le hn
    exact ((ho.fits env hno Γ es d).append (hv.fits env hn Γ _ d)).append (.one .storeProperty rfl)
  | .assignIndex ho hv hk =>
    have hnv := Nat.le_trans hk.grows.constants_le hn
    have hno := Nat.le_trans hv.grows.constants_le hnv
    exact (((ho.fits env hno Γ es d).append (hv.fits env hnv Γ _ d)).append
      (hk.fits env hn Γ _ d)).append (.methodCall indexerSet 2)
  | .binary hl hr =>
    have hnl := Nat.le_trans hr.grows.constants_le hn
    exact ((hl.fits env hnl Γ es d).append (hr.fits env hn Γ _ d)).append (.one .binary rfl)
  | .logical hl hr =>
    have hnr := Nat.le_trans (Grows.constant _ _ e.range rfl).constants_le hn
    have hnl := Nat.le_trans hr.grows.constants_le hnr
    exact .logicalCode _ _ _ (fun Γ => hl.fits env hnl Γ es d) (fun Γ => hr.fits env hnr Γ es d)
      (fun Γ => .constantCode _ _ hn)
  | .unary h => exact (h.fits env hn Γ es d).append (.one (.unary _) (UnaryOp.endsRegion_toOp _))
  | .callMember _ ho ha =>
    have hno := Nat.le_trans ha.grows.constants_le hn
    exact ((ho.fits env hno Γ es d).append (ha.fits env hn Γ _ d)).append (.methodCall _ _)
  | .callVariable _ ha =>
    exact ((ha.fits env hn Γ es d).append (.one .fetchCallee rfl)).append
      (.one (.call (.prepared _)) rfl)
  | .callValue _ _ ha hc =>
    have hna := Nat.le_trans hc.grows.constants_le hn
    exact ((ha.fits env hna Γ es d).append (hc.fits env hn Γ _ d)).append
      (.one (.call (.value _)) rfl)
  | .member ho => exact (ho.fits env hn Γ es d).append (.one .fetchProperty rfl)
  | .index ho hk =>
    have hno := Nat.le_trans hk.grows.constants_le hn
    exact ((ho.fits env hno Γ es d).append (hk.fits env hn Γ _ d)).append (.methodCall indexerGet 1)
  | .new _ ha => exact .newCode _ _ (ha.fits env hn Γ _ d)
  | .function hf => exact .one .fetchVariable rfl
  | .array ha => exact (ha.fits env hn Γ es d).append (.one .makeArray rfl)

theorem ArgsCode.fits {ctx : Context} {args : List Expr} {b b' : Builder} {c : Code}
    (h : ArgsCode ctx args b c b') (env : TypeEnv) (hn : b'.constants.size ≤ env.constants)
    (Γ : LabelShapes) (es : List Entry) (d : Nat) :
    Fits env Γ ⟨es, d⟩ c ⟨values args.length ++ es, d⟩ [] := by
  match h with
  | .nil => exact .nil
  | .cons hr he =>
    have hnr := Nat.le_trans he.grows.constants_le hn
    exact (hr.fits env hnr Γ es d).append (he.fits env hn Γ _ d)

end

section
variable {env : TypeEnv} {ctx : Context} {range : TokenRange} {b b' : Builder} {c : Code}

/-- the value of an expression, or `undefined` -/
theorem Fits.valueOf {e : Option Expr} (hsome : ∀ e', e = some e' → ExprCode ctx e' b c b')
    (hnone : e = none → c = b.constantCode .undefined range ∧ b' = b.addConstant .undefined)
    (hn : b'.constants.size ≤ env.constants) (Γ : LabelShapes) (es : List Entry) (d : Nat) :
    Fits env Γ ⟨es, d⟩ c ⟨.value :: es, d⟩ [] := by
  cases e with
  | none =>
    obtain ⟨rfl, rfl⟩ := hnone rfl
    exact .constantCode _ _ hn
  | some e => exact (hsome e rfl).fits env hn Γ es d

/-- an expression whose value is taken, or nothing -/
theorem Fits.optionalCode {e : Option Expr} {op : Op} {Γ : LabelShapes} {es : List Entry} {d : Nat}
    (hsome : ∀ e', e = some e' → ExprCode ctx e' b c b') (hn : b'.constants.size ≤ env.constants)
    (hop : OpTyped env Γ.Has op ⟨.value :: es, d⟩ ⟨es, d⟩) (hends : op.endsRegion = false) :
    Fits env Γ ⟨es, d⟩ (ScriptMachine.optionalCode op e c) ⟨es, d⟩ [] := by
  cases e with
  | none => exact .nil
  | some e => exact ((hsome e rfl).fits env hn Γ es d).append (.one hop hends)

theorem Fits.initializer {init : Option Stmt} {Γ : LabelShapes} {σ : Shape} {b₁ : Builder}
    (hsome : ∀ s, init = some s → Fits env Γ σ c σ []) (hnone : init = none → c = [] ∧ b₁ = b) :
    Fits env Γ σ c σ [] := by
  cases init with
  | none =>
    rw [(hnone rfl).1]
    exact .nil
  | some s => exact hsome s rfl

theorem Fits.finalCode (range : TokenRange) {finalizer : Option (List Stmt)} {Γ : LabelShapes}
    {es : List Entry} {d : Nat}
    (h : ∀ body, finalizer = some body → Fits env Γ ⟨es, d + 1⟩ c ⟨es, d + 1⟩ [])
    (hd : Shallow es d) :
    Fits env Γ ⟨es, d⟩ (ScriptMachine.finalCode range finalizer c) ⟨es, d⟩ [] := by
  cases finalizer with
  | none => exact .nil
  | some body => exact .blockCode (h body rfl) hd

/-- the cleanup of a jump goes on as what stands behind it does -/
theorem CrossCode.crosses {crossed outer : List ExitScope} (h : CrossCode ctx range crossed outer b c b')
    {tail : Code} (htail : tail.Crosses) : (c ++ tail).Crosses := by
  cases h with
  | nil => exact htail
  | loop _ | pendingThrow _ | guarded _ | finalizer _ _ => exact ⟨_, _, rfl, rfl⟩

end

mutual

/-- The code of a statement leaves the shape as it was.  No loop and no region around it goes back to a
scope inside of it. -/
theorem StmtCode.fits {ctx : Context} {stmt : Stmt} {b b' : Builder} {c : Code}
    (h : StmtCode ctx stmt b c b') (env : TypeEnv) (hn : b'.constants.size ≤ env.constants)
    (hfun : env.inFunction = ctx.inFunction) (Γ : LabelShapes) (es : List Entry) (d : Nat)
    (hw : Within Γ ctx.exits es) (hd : Shallow es d) : Fits env Γ ⟨es, d⟩ c ⟨es, d⟩ [] := by
  match h with
  | .block h => exact .blockCode (h.fits env hn hfun Γ es (d + 1) hw (hd.mono (Nat.le_succ d))) hd
  | .form _ h => exact (h.fits env hn hfun Γ es d hw hd).startStatement hw.leaves

theorem BodyCode.fits {ctx : Context} {body : List Stmt} {b b' : Builder} {c : Code}
    (h : BodyCode ctx body b c b') (env : TypeEnv) (hn : b'.constants.size ≤ env.constants)
    (hfun : env.inFunction = ctx.inFunction) (Γ : LabelShapes) (es : List Entry) (d : Nat)
    (hw : Within Γ ctx.exits es) (hd : Shallow es d) : Fits env Γ ⟨es, d⟩ c ⟨es, d⟩ [] := by
  match h with
  | .nil => exact .nil
  | .cons hs hr =>
    have hns := Nat.le_trans hr.grows.constants_le hn
    exact (hs.fits env hns hfun Γ es d hw hd).append (hr.fits env hn hfun Γ es d hw hd)

theorem FormCode.fits {ctx : Context} {range : TokenRange} {form : StmtForm} {b b' : Builder}
    {c : Code} (h : FormCode ctx range form b c b') (env : TypeEnv)
    (hn : b'.constants.size ≤ env.constants) (hfun : env.inFunction = ctx.inFunction)
    (Γ : LabelShapes) (es : List Entry) (d : Nat) (hw : Within Γ ctx.exits es) (hd : Shallow es d) :
    Fits env Γ ⟨es, d⟩ c ⟨es, d⟩ [] := by
  have hinner : Shallow es (d + 1) := hd.mono (Nat.le_succ d)
  match h with
  | .expression h => exact (h.fits env hn Γ es d).append (.one .pop rfl)
  | .varDecl hsome hnone =>
    exact (((Fits.one .declare rfl).append (.valueOf hsome hnone hn Γ es d)).append
      (.one .storeVariable rfl)).append (.one .pop rfl)
  | .ifOnly ht hs =>
    have hnt := Nat.le_trans hs.grows.constants_le hn
    exact .ifCode _ (fun Γ => ht.fits env hnt Γ es d)
      (hs.fits env hn hfun _ es d (hw.mono (List.subset_cons_self _ _)) hd)
  | .ifElse ht hs he =>
    have hns := Nat.le_trans he.grows.constants_le hn
    have hnt := Nat.le_trans hs.grows.constants_le hns
    exact .ifElseCode _ _ _ (fun Γ => ht.fits env hnt Γ es d)
      (hs.fits env hns hfun _ es d (hw.mono (List.subset_append_right _ _)) hd)
      (he.fits env hn hfun _ es d (hw.mono (List.subset_append_right _ _)) hd)
  | .whileLoop ht hs =>
    have hnt := Nat.le_trans hs.grows.constants_le hn
    exact .whileCode _ _ _ (fun Γ => ht.fits env hnt Γ _ d)
      (hs.fits env hn hfun _ _ d (.loop (by simp) (by simp) (hw.mono (List.subset_append_right _ _)))
        (.cons (Nat.le_refl d) hd))
  | .forLoop hisome hinone htsome htnone hs husome hunone =>
    have hnu := Nat.le_trans
      (Grows.ofOptional .pop (fun e h => (husome e h).grows) hunone).constants_le hn
    have hnb := Nat.le_trans hs.grows.constants_le hnu
    have hni := Nat.le_trans
      (Grows.ofOptional .pop (fun e h => (htsome e h).grows) htnone).constants_le hnb
    have hinit := fun s h Γ' hsub =>
      (hisome s h).fits env hni hfun Γ' es (d + 1) (hw.mono hsub) hinner
    refine .forCode _ _ _ (fun Γ' hsub => ?_) (fun Γ hdone => ?_) (fun Γ' hsub hnext hdone => ?_)
      (fun Γ => ?_) hd
    · exact Fits.initializer (fun s h => hinit s h Γ' hsub) hinone
    · exact .optionalCode htsome hnb (.jumpFalse hdone) rfl
    · exact hs.fits env hnu hfun Γ' _ (d + 1) (.loop hnext hdone (hw.mono hsub))
        (.cons (Nat.le_refl _) hinner)
    · exact .optionalCode husome hn .pop rfl
  | .jump ht hclean =>
    obtain ⟨inner, d', rest, rfl, hinner, -, hl⟩ := hw.target ht
    exact .one (.loopExit hinner hl) rfl
  | .jumpCrossing ht _ hc =>
    obtain ⟨inner, d', rest, rfl, -, hlen, hl⟩ := hw.target ht
    rw [← insideLoop_append_fromLoop ctx.exits] at hw
    exact hc.fits env hn hfun Γ inner (.loop d' :: rest) d hlen hw hd (.one (.loopExitHere hl) rfl)
      ⟨_, _, rfl, rfl⟩
  | .returnValue hinside hsome hnone _ =>
    exact (Fits.valueOf hsome hnone hn Γ es d).append (.one (.ret (hfun.trans hinside)) rfl)
  | .returnCrossing hinside hsome hnone _ hc =>
    have hnv := Nat.le_trans hc.grows.constants_le hn
    have htail : Fits env Γ ⟨[], d⟩ (one (.fetch returnSlot .variable) range ++ one .ret range)
        ⟨es, d⟩ [] :=
      (Fits.one .fetchVariable rfl).append (.one (.ret (hfun.trans hinside)) rfl)
    have hcross := fun hw' hd' =>
      hc.fits env hn hfun Γ es [] d hw.length_eq hw' hd' htail ⟨_, _, rfl, rfl⟩
    rw [List.append_nil, List.append_nil] at hcross
    exact .returnCode (.valueOf hsome hnone hnv Γ es d) (hcross hw hd)
  | .throwValue h => exact (h.fits env hn Γ es d).append (.one .throw rfl)
  | .tryCatch hb hhsome hhnone hrsome hrnone hfsome hfnone =>
    have hnr := Nat.le_trans
      (Grows.ofFinalizer range (fun s h => (hfsome s h).grows) hfnone).constants_le hn
    have hnh := Nat.le_trans
      (Grows.ofFinalizer range (fun s h => (hrsome s h).grows) hrnone).constants_le hnr
    obtain ⟨_, hhandler, -⟩ := Grows.ofHandler 0 0 0 (fun n s r h => (hhsome n s r h).grows) hhnone
    have hnb := Nat.le_trans hhandler.constants_le hnh
    have hbody := fun Γ' hsub => hb.fits env hnb hfun Γ' _ (d + 1) (.guarded (hw.mono hsub))
      (.cons (Nat.le_succ d) hinner)
    have hcaught := fun n s r h Γ' hsub => (hhsome n s r h).fits env hnh hfun Γ' _ (d + 1)
      (.guarded (hw.mono hsub)) (.cons (Nat.le_refl _) hinner)
    have hrethrow := fun Γ' hsub => Fits.finalCode range (fun s h => (hrsome s h).fits env hnr hfun Γ' _
      (d + 1) (.pendingThrow (hw.mono hsub)) (.cons (Nat.zero_le _) hinner)) (.cons (Nat.zero_le d) hd)
    have hfinal := fun Γ' hsub => Fits.finalCode range
      (fun s h => (hfsome s h).fits env hn hfun Γ' _ (d + 1) (hw.mono hsub) hinner) hd
    exact .tryCode _ _ _ hbody hcaught hrethrow hfinal hd
  | .function _ hf => exact .nil
  | .classDecl hm hc => exact .nil
  | .classPlain hm _ hb => exact .nil
  | .debugger => exact .one .debugger rfl
  | .empty => exact .nil

/-- The cleanup of a jump drops the entries of the scopes that it leaves.  Its regions are crossed, so
what stands behind it matters. -/
theorem CrossCode.fits {ctx : Context} {range : TokenRange} {crossed outer : List ExitScope}
    {b b' : Builder} {c : Code} (h : CrossCode ctx range crossed outer b c b') (env : TypeEnv)
    (hn : b'.constants.size ≤ env.constants) (hfun : env.inFunction = ctx.inFunction)
    (Γ : LabelShapes) (inner rest : List Entry) (d : Nat) (hlen : inner.length = crossed.length)
    (hw : Within Γ (crossed ++ outer) (inner ++ rest)) (hd : Shallow (inner ++ rest) d) {tail : Code}
    {τ : Shape} (htail : Fits env Γ ⟨rest, d⟩ tail τ []) (hcross : tail.Crosses) :
    Fits env Γ ⟨inner ++ rest, d⟩ (c ++ tail) τ [] := by
  match h with
  | .nil =>
    cases List.length_eq_zero_iff.mp hlen
    exact htail
  | .loop h =>
    obtain ⟨e, inner, rfl⟩ := List.exists_cons_of_length_eq_add_one hlen
    obtain ⟨hleaves, hrest⟩ := Within.of_cons hw
    cases hleaves
    rw [List.append_assoc]
    exact (Fits.one .loopEnd rfl).append
      (h.fits env hn hfun Γ inner rest d (Nat.succ.inj hlen) hrest hd.tail htail hcross)
  | .pendingThrow h =>
    obtain ⟨e, inner, rfl⟩ := List.exists_cons_of_length_eq_add_one hlen
    obtain ⟨hleaves, hrest⟩ := Within.of_cons hw
    cases hleaves
    rw [List.append_assoc]
    exact (Fits.one .pop rfl).append
      (h.fits env hn hfun Γ inner rest d (Nat.succ.inj hlen) hrest hd.tail htail hcross)
  | .guarded h =>
    obtain ⟨e, inner, rfl⟩ := List.exists_cons_of_length_eq_add_one hlen
    obtain ⟨hleaves, hrest⟩ := Within.of_cons hw
    cases hleaves
    rw [List.append_assoc]
    exact .crossTry (h.fits env hn hfun Γ inner rest d (Nat.succ.inj hlen) hrest hd.tail htail hcross)
      (h.crosses hcross)
  | .finalizer hb h =>
    obtain ⟨e, inner, rfl⟩ := List.exists_cons_of_length_eq_add_one hlen
    obtain ⟨hleaves, hrest⟩ := Within.of_cons hw
    cases hleaves
    have hnb := Nat.le_trans h.grows.constants_le hn
    have hfinal := hb.fits env hnb hfun Γ _ (d + 1) hrest (hd.tail.mono (Nat.le_succ d))
    rw [List.append_assoc, List.append_assoc]
    refine .crossTry ((Fits.blockCode hfinal hd.tail).append ?_) ⟨_, _, rfl, rfl⟩
    exact h.fits env hn hfun Γ inner rest d (Nat.succ.inj hlen) hrest hd.tail htail hcross

end

end ScriptMachine
