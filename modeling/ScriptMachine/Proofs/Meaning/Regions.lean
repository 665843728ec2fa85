import ScriptMachine.Proofs.Meaning.Scopes

/-!
# The code of guarded regions

A region is followed in two parts.  The first part is the region with its handler.  The second part is
the finalizer, of which there is one copy for the normal end, one for a thrown value and one for each
jump.

* `Guarded`             how the first part ends;
* `follows_region`      a region;
* `follows_handler`     the handler of a thrown value, which stands in a region of its own;
* `follows_finalizer`   the second part.
-/

namespace ScriptMachine

/-! ## effects -/

/-- what is done with a thrown value -/
def Effect.caughtBy (handler : Value → Effect) : Completion → Effect
  | .throws v => handler v
  | c => ended c

theorem Effect.handled_eq (body : Effect) (handler : Value → Effect) :
    handled body handler = body.andThen (caughtBy handler) := by
  funext w
  unfold handled andThen
  rcases body w with - | ⟨- | - | - | - | -, w'⟩ <;> rfl

/-- the finalizer, after which what the body came to counts again -/
theorem Effect.finalized_eq (body finalizer : Effect) :
    finalized body finalizer = body.andThen fun c => seq finalizer (ended c) := by
  funext w
  unfold finalized andThen seq
  rcases body w with - | ⟨c, w'⟩
  · rfl
  · rcases finalizer w' with - | ⟨- | - | - | - | -, w''⟩ <;> rfl

/-! ## the region and its handler -/

/-- How a region or a handler ends.  A thrown value goes on at `rethrow`, and a jump has still to
leave the region. -/
inductive Guarded (linked : Linked) (n : Nat) (ctx : Context) (finalizer : Option (List Stmt))
    (done rethrow : Location) (env : EnvId) (st : List Slot) (X : List String) :
    Completion → Twin → State → Prop
  | normal {t : Twin} :
    Guarded linked n ctx finalizer done rethrow env st X .normal t (t.at done env st)
  | throws {t : Twin} {v : Value} (hv : v.Simple n) :
    Guarded linked n ctx finalizer done rethrow env st X (.throws v) t
      (t.at rethrow env (.value v :: st))
  | jumps {t : Twin} {s : State} {c : Completion} {leave : Leave} {region : TryRegion}
      (hj : Jumps n ctx leave c)
      (h : Leaving linked (ctx.inside (.guarded finalizer)) leave env (.tryRegion region :: st) X t s) :
    Guarded linked n ctx finalizer done rethrow env st X c t s

section
variable {linked : Linked} {n : Nat} {ctx : Context} {finalizer : Option (List Stmt)}
  {stop done rethrow : Location} {env e : EnvId} {st : List Slot} {X X' : List String}
  {c : Completion} {t : Twin} {s : State} {region : TryRegion}

/-- the end of the statements in a region -/
theorem Reaches.guarded
    (h : Reaches linked n (ctx.inside (.guarded finalizer)) stop e (.tryRegion region :: st) X c t s)
    (hin : Inside linked.global t X' e env) (hX : ∀ name ∈ X, name ∈ X')
    (hnormal : ∃ k, Steps linked (t.at stop e (.tryRegion region :: st)) k (t.at done env st))
    (hthrow : ∀ v, ∃ k, Steps linked (t.at region.handler region.env (.value v :: st)) k
      (t.at rethrow env (.value v :: st))) :
    ∃ k s', Steps linked s k s' ∧ Guarded linked n ctx finalizer done rethrow env st X' c t s' := by
  cases h with
  | normal =>
    obtain ⟨k, hs⟩ := hnormal
    exact ⟨k, _, hs, .normal⟩
  | @throws _ _ v hv h =>
    obtain ⟨k, hs⟩ := h.caught (Stack.unwindThrow_region region st)
    obtain ⟨m, hs'⟩ := hthrow v
    exact ⟨k + m, _, hs.trans hs', .throws hv⟩
  | jumps hj h => exact ⟨0, s, .refl, .jumps (hj.out rfl) (h.outside hin hX)⟩

/-- where nothing is thrown, it does not matter where thrown values go -/
theorem Guarded.elsewhere (h : Guarded linked n ctx finalizer done rethrow env st X c t s)
    (hc : ∀ v, c ≠ .throws v) (rethrow' : Location) (hX : ∀ name ∈ X, name ∈ X') :
    Guarded linked n ctx finalizer done rethrow' env st X' c t s := by
  cases h with
  | normal => exact .normal
  | throws => exact absurd rfl (hc _)
  | jumps hj h => exact .jumps hj (h.mono hX)

theorem Effect.caughtBy_of_ne {handler : Value → Effect} (hc : ∀ v, c ≠ .throws v) :
    caughtBy handler c = ended c := by
  cases c with
  | throws v => exact absurd rfl (hc v)
  | _ => rfl

/-- a region and then the handler of what it throws -/
theorem Follows.handled {fuel : Nat} {r r' : Location} {body : Effect} {handler : Value → Effect}
    (h : Follows linked n fuel env t s (body t.world)
      (Guarded linked n ctx finalizer done r env st X))
    (hX : ∀ name ∈ X, name ∈ X')
    (hhandler : ∀ v t', t.Moves linked.global n env t' → v.Simple n →
      Follows linked n fuel env t' (t'.at r env (.value v :: st)) (handler v t'.world)
        (Guarded linked n ctx finalizer done r' env st X')) :
    Follows linked n fuel env t s (Effect.handled body handler t.world)
      (Guarded linked n ctx finalizer done r' env st X') := by
  rw [Effect.handled_eq]
  refine h.andThen fun c t' s' hm hg => ?_
  by_cases hc : ∃ v, c = .throws v
  · obtain ⟨v, rfl⟩ := hc
    cases hg with
    | throws hv => exact hhandler v t' hm hv
    | jumps hj _ => cases hj
  · have hne : ∀ v, c ≠ .throws v := fun v heq => hc ⟨v, heq⟩
    rw [Effect.caughtBy_of_ne hne]
    exact .here hm.ok (hg.elsewhere hne r' hX)

end

section
variable {linked : Linked} {functions : List FunctionDecl} {call : Nat → List Value → Eval Value}
  {fuel : Nat} {body : List Stmt} {ctx : Context} {finalizer : Option (List Stmt)} {b b' : Builder}
  {c : Code} {range : TokenRange} {loc done rethrow : Location} {env : EnvId} {t : Twin}
  {start doneLabel caught uncaught : Label} {X : List String}

/-- A region whose thrown values go on at `rethrow`. -/
theorem follows_region (hbody : BodyFollowed linked functions call fuel body)
    (hc : BodyCode (ctx.inside (.guarded finalizer)) body b c b') (hctx : ctx.Plain)
    (hb : b'.Within linked.program)
    (hat : At linked.program loc (one (.enterTry start) range ++ (blockCode range c
      ++ (one .leaveTry range ++ one (.jump doneLabel) range))))
    (hstart : linked.labels.resolve? start = some rethrow)
    (hdone : linked.labels.resolve? doneLabel = some done)
    (ht : t.Ok linked.global functions.length)
    (hs : Sees linked.global t (· ∈ Stmt.mentionsAll body) env env) (st : List Slot) :
    Follows linked functions.length fuel env t (t.at loc env st)
      (Effect.inScope env (fun scope => execAll functions linked.global call fuel scope body) t.world)
      (Guarded linked functions.length ctx finalizer done rethrow env st
        (Stmt.directAll body ++ Stmt.innerAll body)) := by
  have hblock := hbody.block hc hctx hb hat.right.left ht hs (hs.lt_size ht)
    (.tryRegion ⟨rethrow, env⟩ :: st) env
  refine .steps ht (step_enterTry hat.left hstart) (hblock.go fun r t' s' _ hr => ?_)
  refine hr.guarded .here (fun name hname => hname) ?_ fun v => ⟨0, .refl⟩
  have hleave := hat.right.right
  rw [length_blockCode] at hleave
  exact ⟨1 + 1, (step_leaveTry hleave.left).trans (step_jump hleave.right hdone)⟩

/-- the thrown value is bound or dropped -/
theorem follows_binding {binding : Option String} {mentions own : List String} {v : Value}
    (hk : Knows linked.global functions.length t env mentions own)
    (hnames : ∀ name ∈ binding, Proper name ∧ name ∈ mentions ∧ name ∈ own)
    (hv : v.Simple functions.length) (hat : At linked.program loc (bindingCode binding range))
    (st : List Slot) :
    Follows linked functions.length fuel env t (t.at loc env (.value v :: st))
      (bindCaught linked.global env binding v t.world)
      fun c t' s' => c = .normal ∧ s' = t'.at (loc.skip (bindingCode binding range).length) env st := by
  cases binding with
  | none => exact .now (hk.ok.moves_refl env) (step_pop hat) ⟨rfl, rfl⟩
  | some name =>
    obtain ⟨hproper, hmem, hown⟩ := hnames name rfl
    have hdefine : t.Moves linked.global functions.length env (t.define env name .undefined) :=
      hk.ok.define (v := .undefined) hproper.1 trivial (hk.own name hown) env
    have hs := hk.sees.moves hdefine
    have hassign := hdefine.ok.assign hs hproper.1 hmem hv env
    exact .now (hdefine.trans hassign) (((step_declare hat.left.left).trans
      (step_assign hs hdefine.ok hproper.1 hmem hat.left.right)).trans (step_pop hat.right)) ⟨rfl, rfl⟩

/-- A handler, which stands in a region whose thrown values go on at `uncaught`, in the scope of the
handler. -/
theorem follows_handler (hm : linked.Means functions)
    (hbody : BodyFollowed linked functions call fuel body)
    (hc : BodyCode (ctx.inside (.guarded finalizer)) body b c b') (hctx : ctx.Plain)
    (hb : b'.Within linked.program) {binding : Option String} {r range' : TokenRange}
    (hat : At linked.program loc (catchCode caught doneLabel uncaught binding range c))
    (hdone : linked.labels.resolve? doneLabel = some done)
    (hrethrow : At linked.program rethrow (place uncaught ++ one .leaveScope range'))
    (hnames : ∀ name ∈ binding, Proper name) (ht : t.Ok linked.global functions.length)
    (hs : Sees linked.global t
      (· ∈ CatchClause.mentionsOption (some (.mk binding body r))) env env)
    {v : Value} (hv : v.Simple functions.length) (st : List Slot)
    (hX : ∀ name ∈ CatchClause.innerOption (some (.mk binding body r)), name ∈ X) :
    Follows linked functions.length fuel env t (t.at loc env (.value v :: st))
      (execHandler functions linked.global call fuel env (some (.mk binding body r)) v t.world)
      (Guarded linked functions.length ctx finalizer done (rethrow.skip 2) env st X) := by
  have huncaught := hm.labels _ _ hrethrow.left
  unfold catchCode at hat
  simp only [List.append_assoc] at hat
  have hbind := hat.right.right
  have htry := hbind.right
  have hleave := htry.right.right
  have hjump := hleave.right.right
  have hk : Knows linked.global functions.length (t.enter env env (catchNames binding body)) t.next
      (binding.toList ++ Stmt.mentionsAll body) (catchNames binding body) :=
    .enter ht hs (hs.lt_size ht) _
  -- in the scope of the handler
  have hinner : Follows linked functions.length fuel t.next (t.enter env env (catchNames binding body))
      ((t.enter env env (catchNames binding body)).at ((loc.skip 1).skip 1) t.next (.value v :: st))
      (Effect.seq (bindCaught linked.global t.next binding v)
        (execAll functions linked.global call fuel t.next body)
        (t.enter env env (catchNames binding body)).world)
      (Reaches linked functions.length (ctx.inside (.guarded finalizer))
        (((((loc.skip 1).skip 1).skip (bindingCode binding range).length).skip 1).skip c.length) t.next
        (.tryRegion ⟨rethrow, t.next⟩ :: st) (Stmt.innerAll body)) := by
    have hnames' : ∀ name ∈ binding, Proper name ∧ name ∈ binding.toList ++ Stmt.mentionsAll body
        ∧ name ∈ catchNames binding body := fun name hname =>
      have hmem := Option.mem_toList.mpr hname
      ⟨hnames name hname, List.mem_append_left _ hmem, List.mem_append_left _ hmem⟩
    rw [Effect.seq_eq]
    refine (follows_binding hk hnames' hv hbind.left st).andThen fun r t₁ s₁ hm₁ hr => ?_
    obtain ⟨rfl, rfl⟩ := hr
    refine .steps hm₁.ok (step_enterTry htry.left huncaught) ?_
    exact hbody _ b b' c hc hctx hb _ htry.right.left t₁ t.next _ ((hk.moves hm₁).mono
      (fun name hname => List.mem_append_right _ hname) fun name hname => List.mem_append_right _ hname)
  show Follows linked functions.length fuel env t _ (Effect.inScope env (fun scope =>
    Effect.seq (bindCaught linked.global scope binding v)
      (execAll functions linked.global call fuel scope body)) t.world) _
  refine .steps ht (step_label hat.left) (Follows.entered ht (hs.lt_size ht) hat.right.left hinner ?_ env)
  intro r t' s' hparent hin hr
  refine hr.guarded (hin.mono fun name hname => hX name (List.mem_append_left _ hname))
    (fun name hname => hX name (List.mem_append_right _ hname)) ⟨1 + 1 + 1, ?_⟩ fun v' => ⟨1 + 1, ?_⟩
  · exact ((step_leaveTry hleave.left).trans (step_leaveScope hleave.right.left hparent)).trans
      (step_jump hjump hdone)
  · exact (step_label hrethrow.left).trans (step_leaveScope hrethrow.right hparent)

end

/-! ## the finalizer -/

section
variable {linked : Linked} {functions : List FunctionDecl} {call : Nat → List Value → Eval Value}
  {fuel : Nat} {ctx : Context} {body : List Stmt} {done rethrow : Location} {env : EnvId}
  {st : List Slot} {X : List String} {r : Completion} {t : Twin} {s : State} {range : TokenRange}
  {doneLabel : Label}

/-- without a finalizer -/
theorem Guarded.reaches {n : Nat} (h : Guarded linked n ctx none done rethrow env st X r t s)
    (hrethrow : At linked.program rethrow (one .throw range))
    (hdone : At linked.program done (place doneLabel)) :
    ∃ k s', Steps linked s k s' ∧ Reaches linked n ctx (done.skip 1) env st X r t s' := by
  cases h with
  | normal => exact ⟨1, _, step_label hdone, .normal⟩
  | throws hv => exact ⟨0, _, .refl, .throws hv (raises_throw hrethrow)⟩
  | jumps hj h =>
    obtain ⟨k, s', hs, h⟩ := h.guarded
    exact ⟨k, s', hs, .jumps hj h⟩

/-- The finalizer runs in the scope of its region, but for a jump: there the machine is still inside of
the scopes that are left.  They do not bind what the finalizer mentions. -/
theorem follows_finalizer (hbody : BodyFollowed linked functions call fuel body)
    (h : Guarded linked functions.length ctx (some body) done rethrow env st X r t s)
    {b₁ b₂ b₃ : Builder} {c₁ c₂ : Code}
    (hthrow : BodyCode (ctx.inside .pendingThrow) body b₁ c₁ b₂) (hfinal : BodyCode ctx body b₂ c₂ b₃)
    (hctx : ctx.Plain) (hb : b₃.Within linked.program)
    (hrethrow : At linked.program rethrow (blockCode range c₁ ++ one .throw range))
    (hdone : At linked.program done (place doneLabel ++ blockCode range c₂))
    (ht : t.Ok linked.global functions.length)
    (hs : Sees linked.global t (· ∈ Stmt.mentionsAll body) env env)
    (hapart : ∀ name ∈ Stmt.mentionsAll body, name ∉ X) :
    Follows linked functions.length fuel env t s
      (Effect.seq (execFinalizer functions linked.global call fuel env (some body))
        (Effect.ended r) t.world)
      (Reaches linked functions.length ctx ((done.skip 1).skip (c₂.length + 2)) env st
        (X ++ (Stmt.directAll body ++ Stmt.innerAll body))) := by
  have henv := hs.lt_size ht
  cases h with
  | normal =>
    refine .steps ht (step_label hdone.left) ?_
    refine (hbody.block hfinal hctx hb hdone.right ht hs henv st env).seq
      (fun name hname => List.mem_append_right _ hname) fun t' hm => .here hm.ok .normal
  | @throws _ v hv =>
    have hblock := hbody.block hthrow hctx (hfinal.grows.within hb) hrethrow.left ht hs henv
      (.value v :: st) env
    refine hblock.next (fun t' s' hm hr => ?_) fun c t' s' hc _ hr => ?_
    · cases hr.eq_at
      have hraise := hrethrow.right
      rw [length_blockCode] at hraise
      exact .here hm.ok (.throws hv (raises_throw hraise))
    · obtain ⟨k, s'', hs', hr⟩ := hr.pendingThrow hc ((done.skip 1).skip (c₂.length + 2))
      exact ⟨k, s'', hs', hr.mono fun name hname => List.mem_append_right _ hname⟩
  | jumps hj h =>
    obtain ⟨loc, e, range', b, c, b', hstep, hcode, hb', hat, hin, hafter⟩ := h.finalizer
      (n := functions.length)
    have hsees := hin.sees hs hapart
    have hblock := hbody.block hcode hctx hb' hat ht hsees henv st t.next
    -- in a scope inside of `e`, which is not where a result is parked
    refine .after (ht.moves_refl env) hstep (.inr (Nat.le_refl _)) (hblock.next ?_ ?_)
    · intro t' s' hm hr
      cases hr.eq_at
      have hleave := hafter t' t.next hm (Nat.le_refl _) (hin.lt_size henv)
      rw [length_blockCode] at hleave
      exact .here hm.ok (.jumps hj (hleave.mono fun name hname => List.mem_append_left _ hname))
    · intro c t' s' hc hm hr
      exact ⟨0, s', .refl, hr.outside hc
        ((hin.moves hm).mono fun name hname => List.mem_append_left _ hname)
        (fun name hname => List.mem_append_right _ hname) _⟩

/-! ## the whole statement -/

/-- the region and its handler -/
theorem follows_guard (hm : linked.Means functions) (hbody : BodyFollowed linked functions call fuel body)
    {handler : Option CatchClause} {finalizer : Option (List Stmt)}
    (hhandler : ∀ binding hbody r, handler = some (.mk binding hbody r) →
      BodyFollowed linked functions call fuel hbody)
    {b b₁ b₂ : Builder} {c₁ c₂ : Code} {rest : Code} {caught uncaught : Label} {loc : Location}
    (hcode : BodyCode (ctx.inside (.guarded finalizer)) body b c₁ b₁)
    (hhcode : ∀ binding hbody r, handler = some (.mk binding hbody r) →
      BodyCode (ctx.inside (.guarded finalizer)) hbody b₁ c₂ b₂)
    (hhnone : handler = none → b₂ = b₁) (hctx : ctx.Plain) (hb : b₂.Within linked.program)
    (hat : At linked.program loc
      (one (.enterTry (if handler.isSome then caught else uncaught)) range ++ (blockCode range c₁
      ++ (one .leaveTry range ++ (one (.jump doneLabel) range
      ++ (handlerCode caught doneLabel uncaught handler c₂
      ++ (place uncaught ++ ((if handler.isSome then one .leaveScope range else []) ++ rest))))))))
    (hdone : linked.labels.resolve? doneLabel = some done)
    (hlang : CatchClause.OptionInLanguage handler) (ht : t.Ok linked.global functions.length)
    (hs : Sees linked.global t
      (· ∈ Stmt.mentionsAll body ++ CatchClause.mentionsOption handler) env env) (st : List Slot) :
    ∃ rethrow, At linked.program rethrow rest
      ∧ Follows linked functions.length fuel env t (t.at loc env st)
      (Effect.handled
        (Effect.inScope env fun scope => execAll functions linked.global call fuel scope body)
        (execHandler functions linked.global call fuel env handler) t.world)
      (Guarded linked functions.length ctx finalizer done rethrow env st
        (Stmt.directAll body ++ Stmt.innerAll body ++ CatchClause.innerOption handler)) := by
  have hhandlerAt := hat.right.right.right.right
  have huncaughtAt := hhandlerAt.right
  have hregionAt : At linked.program loc
      (one (.enterTry (if handler.isSome then caught else uncaught)) range ++ (blockCode range c₁
        ++ (one .leaveTry range ++ one (.jump doneLabel) range))) := by
    have hgrouped := hat
    simp only [← List.append_assoc] at hgrouped ⊢
    exact hgrouped.left.left.left.left
  have hsbody := hs.mono fun name hname => List.mem_append_left _ hname
  cases handler with
  | none =>
    cases hhnone rfl
    refine ⟨_, huncaughtAt.right.right, ?_⟩
    have hregion := follows_region hbody hcode hctx hb hregionAt (hm.labels _ _ huncaughtAt.left) hdone
      ht hsbody st
    exact hregion.handled (fun name hname => List.mem_append_left _ hname) fun v t' hmoves hv =>
      .now (hmoves.ok.moves_refl env) (step_label huncaughtAt.left) (.throws hv)
  | some handler =>
    obtain ⟨binding, hbody', r⟩ := handler
    have hcode' := hhcode binding hbody' r rfl
    refine ⟨_, huncaughtAt.right.right, ?_⟩
    have hcaught : linked.labels.resolve? caught = some _ :=
      hm.labels _ _ (At.left (At.left (At.left (At.left (At.left (At.left (At.left hhandlerAt.left)))))))
    have hregion := follows_region hbody hcode hctx (hcode'.grows.within hb) hregionAt hcaught hdone
      ht hsbody st
    refine hregion.handled (fun name hname => List.mem_append_left _ hname) fun v t' hmoves hv => ?_
    have hrethrow := huncaughtAt
    rw [← List.append_assoc] at hrethrow
    exact follows_handler hm (hhandler binding hbody' r rfl) hcode' hctx hb hhandlerAt.left hdone
      hrethrow.left hlang.1 hmoves.ok
      ((hs.moves hmoves).mono fun name hname => List.mem_append_right _ hname) hv st
      fun name hname => List.mem_append_right _ hname

theorem execForm_try (handler : Option CatchClause) (finalizer : Option (List Stmt)) :
    execForm functions linked.global call fuel env (.tryCatch body handler finalizer)
      = (Effect.handled
        (Effect.inScope env fun scope => execAll functions linked.global call fuel scope body)
        (execHandler functions linked.global call fuel env handler)).andThen fun c =>
          Effect.seq (execFinalizer functions linked.global call fuel env finalizer) (.ended c) :=
  Effect.finalized_eq _ _

/-- **A guarded region.** -/
theorem follows_try (hm : linked.Means functions) {handler : Option CatchClause}
    {finalizer : Option (List Stmt)} (hbody : BodyFollowed linked functions call fuel body)
    (hhandler : ∀ binding hbody r, handler = some (.mk binding hbody r) →
      BodyFollowed linked functions call fuel hbody)
    (hfinalizer : ∀ fbody, finalizer = some fbody → BodyFollowed linked functions call fuel fbody)
    {b b' : Builder} {c : Code} {loc : Location}
    (hc : FormCode ctx range (.tryCatch body handler finalizer) b c b') (hctx : ctx.Plain)
    (hb : b'.Within linked.program) (hat : At linked.program loc c)
    (hlang : CatchClause.OptionInLanguage handler)
    (hapart : ∀ name ∈ Stmt.mentionsBody finalizer,
      name ∉ Stmt.directAll body ++ Stmt.innerAll body ++ CatchClause.innerOption handler)
    (ht : t.Ok linked.global functions.length)
    (hs : Sees linked.global t (· ∈ (StmtForm.tryCatch body handler finalizer).mentions) env env)
    (st : List Slot) :
    Follows linked functions.length fuel env t (t.at loc env st)
      (execForm functions linked.global call fuel env (.tryCatch body handler finalizer) t.world)
      (Reaches linked functions.length ctx (loc.skip c.length) env st
        (StmtForm.tryCatch body handler finalizer).inner) := by
  cases hc with
  | jump htarget => cases htarget
  | jumpCrossing htarget => cases htarget
  | @tryCatch _ c₁ b₁ _ c₂ b₂ _ c₃ b₃ _ c₄ _ _ _ hcode hhcode hhnone hrcode hrnone hfcode hfnone =>
    unfold tryCode at hat ⊢
    rw [List.append_assoc] at hat ⊢
    obtain ⟨done, hdoneAt, hstop⟩ := hat.tail
    simp only [List.append_assoc] at hat
    have hb₂ : b₂.Within linked.program :=
      (Grows.ofFinalizer range (fun fbody hf => (hrcode fbody hf).grows) hrnone).within
        ((Grows.ofFinalizer range (fun fbody hf => (hfcode fbody hf).grows) hfnone).within hb)
    obtain ⟨rethrow, hrethrowAt, hguard⟩ := follows_guard hm hbody hhandler hcode hhcode hhnone hctx hb₂
      hat (hm.labels _ _ hdoneAt.left) hlang ht
      (hs.mono fun name hname => List.mem_append_left _ hname) st
    rw [hstop, Location.skip_append, length_place, execForm_try]
    refine hguard.andThen fun r t' s' hmoves hg => ?_
    cases finalizer with
    | none =>
      obtain ⟨k, s'', hsteps, hr⟩ := hg.reaches hrethrowAt.right.left hdoneAt.left
      exact .now (hmoves.ok.moves_refl env) hsteps (hr.mono fun name hname => List.mem_append_left _ hname)
    | some fbody =>
      have hthrowAt := hrethrowAt
      rw [← List.append_assoc] at hthrowAt
      rw [finalCode, length_blockCode]
      exact follows_finalizer (hfinalizer fbody rfl) hg (hrcode fbody rfl) (hfcode fbody rfl) hctx hb
        hthrowAt.left hdoneAt hmoves.ok
        ((hs.moves hmoves).mono fun name hname => List.mem_append_right _ hname) hapart

end

end ScriptMachine
