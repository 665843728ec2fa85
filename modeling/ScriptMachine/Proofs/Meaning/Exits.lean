import ScriptMachine.Proofs.Meaning.Expressions

/-!
# On the way out of statements

A jump runs the finalizers that it crosses in place, before it goes where the statements around it
would send it.  Where the evaluator has ended a statement with a jump, the machine is still at the
code that cleans up for the scopes around that statement.

* `Leave`               where a jump goes;
* `Leaving`             the machine on its way out: what is left of the cleanup, and where the
                        machine's environment is;
* `Leaving.cross`       the cleanup for one scope without a finalizer;
* `Leaving.finalizer`   the cleanup for a finalizer: it runs inside of the scopes that are left;
* `Leaving.arrive`      the jump to the innermost loop;
* `Jumps`               which jumps end a statement;
* `Reaches`             how the code of a statement ends.
-/

namespace ScriptMachine

/-! ## jumps -/

/-- a jump out of statements -/
inductive Leave where
  /-- to a label of the innermost loop -/
  | toLoop (label : Label)
  /-- out of the function, with a result -/
  | fromCall (value : Value)

namespace Leave

/-- the scopes that a jump has to leave -/
def crossed : Leave → List ExitScope → List ExitScope
  | toLoop _, exits => insideLoop exits
  | fromCall _, exits => exits

/-- the scopes around those -/
def outer : Leave → List ExitScope → List ExitScope
  | toLoop _, exits => fromLoop exits
  | fromCall _, _ => []

/-- the jump itself -/
def bare (range : TokenRange) : Leave → Code
  | toLoop label => one (.loopExit (some label)) range
  | fromCall _ => one .ret range

/-- the jump after some cleanup, for which a result was parked -/
def closing (range : TokenRange) : Leave → Code
  | toLoop label => one (.loopExit (some label)) range
  | fromCall _ => one (.fetch returnSlot .variable) range ++ one .ret range

/-- what the jump itself takes from the stack -/
def top : Leave → List Slot
  | toLoop _ => []
  | fromCall value => [.value value]

/-- the entries that the jump itself passes -/
def passes : Leave → Slot → Prop
  | toLoop _, slot => Exec.loopMarker? slot = none
  | fromCall _, slot => Exec.callSite? slot = none

/-- a result is parked -/
def Parked (heap : Heap) (e : EnvId) : Leave → Prop
  | toLoop _ => True
  | fromCall value => heap.getOwn? e returnSlot = some value

end Leave

/-- The machine on its way out of the statement in `env`, in an environment inside of it.  If no scope
around the statement needs cleanup, it is at the jump.  Otherwise it is at the cleanup for the scopes
around the statement, with the jump behind it. -/
inductive Leaving (linked : Linked) (ctx : Context) (leave : Leave) (env : EnvId) (st : List Slot)
    (X : List String) (t : Twin) : State → Prop
  | bare {loc : Location} {e : EnvId} {upper : List Slot} {range : TokenRange}
      (hclean : (leave.crossed ctx.exits).any ExitScope.needsCleanup = false)
      (hat : At linked.program loc (leave.bare range)) (hpass : ∀ x ∈ upper, leave.passes x)
      (hin : Inside linked.global t X e env) :
    Leaving linked ctx leave env st X t (t.at loc e (leave.top ++ (upper ++ st)))
  | crossing {loc : Location} {e : EnvId} {range r : TokenRange} {b b' : Builder} {c : Code}
      (hc : CrossCode ctx r (leave.crossed ctx.exits) (leave.outer ctx.exits) b c b')
      (hb : b'.Within linked.program) (hat : At linked.program loc (c ++ leave.closing range))
      (hparked : leave.Parked t.heap e) (hin : Inside linked.global t X e env) :
    Leaving linked ctx leave env st X t (t.at loc e st)

/-- the cleanup does not depend on the scopes around the jump but for those that it is for -/
theorem CrossCode.congr {ctx : Context} {r : TokenRange} {crossed outer : List ExitScope}
    {b b' : Builder} {c : Code} :
    CrossCode ctx r crossed outer b c b' → ∀ exits : List ExitScope,
      CrossCode { ctx with exits := exits } r crossed outer b c b'
  | .nil, _ => .nil
  | .loop h, exits => .loop (h.congr exits)
  | .pendingThrow h, exits => .pendingThrow (h.congr exits)
  | .guarded h, exits => .guarded (h.congr exits)
  | .finalizer hb h, exits => .finalizer hb (h.congr exits)

theorem CrossCode.finalizer_inv {ctx : Context} {r : TokenRange} {body : List Stmt}
    {crossed outer : List ExitScope} {b b' : Builder} {c : Code}
    (h : CrossCode ctx r (.guarded (some body) :: crossed) outer b c b') :
    ∃ c₁ b₁ c₂, c = one .leaveTry r ++ blockCode r c₁ ++ c₂
      ∧ BodyCode { ctx with exits := crossed ++ outer } body b c₁ b₁
      ∧ CrossCode ctx r crossed outer b₁ c₂ b' := by
  cases h with
  | finalizer hb h => exact ⟨_, _, _, rfl, hb, h⟩

theorem CrossCode.inside {ctx : Context} {scope : ExitScope} {r : TokenRange}
    {crossed outer : List ExitScope} {b b' : Builder} {c : Code}
    (h : CrossCode (ctx.inside scope) r crossed outer b c b') :
    CrossCode ctx r crossed outer b c b' := h.congr ctx.exits

/-- one scope inside of another one, and that one inside of a third one -/
theorem Inside.trans {global : EnvId} {t : Twin} {X : List String} {e p q : EnvId}
    (h : Inside global t X e p) (h' : Inside global t X p q) : Inside global t X e q := by
  induction h with
  | here => exact h'
  | up hp hne hnames _ ih => exact .up hp hne hnames (ih h')

namespace Leaving

variable {linked : Linked} {ctx : Context} {leave : Leave} {env e : EnvId} {st : List Slot}
  {X X' : List String} {t t' : Twin} {s : State} {n : Nat}

/-- the same seen from an environment around -/
theorem outside (h : Leaving linked ctx leave e st X t s) (hin : Inside linked.global t X' e env)
    (hX : ∀ name ∈ X, name ∈ X') : Leaving linked ctx leave env st X' t s := by
  cases h with
  | bare hclean hat hpass hin' => exact .bare hclean hat hpass ((hin'.mono hX).trans hin)
  | crossing hc hb hat hparked hin' =>
    exact .crossing hc hb hat hparked ((hin'.mono hX).trans hin)

theorem mono (h : Leaving linked ctx leave env st X t s) (hX : ∀ name ∈ X, name ∈ X') :
    Leaving linked ctx leave env st X' t s := h.outside .here hX

/-- at the jump itself, with nothing to clean up -/
theorem direct {loc : Location} {range : TokenRange}
    (hclean : (leave.crossed ctx.exits).any ExitScope.needsCleanup = false)
    (hat : At linked.program loc (leave.bare range)) :
    Leaving linked ctx leave env st X t (t.at loc env (leave.top ++ st)) := by
  have hnone : ∀ x ∈ ([] : List Slot), leave.passes x := nofun
  exact .bare hclean hat hnone .here

/-- One scope is left.  Its entry is passed by the jump itself or dropped by one instruction. -/
theorem cross {scope : ExitScope} {x : Slot} (h : Leaving linked (ctx.inside scope) leave env (x :: st) X t s)
    (hcrossed : leave.crossed (scope :: ctx.exits) = scope :: leave.crossed ctx.exits)
    (houter : leave.outer (scope :: ctx.exits) = leave.outer ctx.exits)
    (hpass : scope.needsCleanup = false → leave.passes x)
    (hdrop : ∀ r b c b', CrossCode ctx r (scope :: leave.crossed ctx.exits) (leave.outer ctx.exits) b c b' →
      ∃ op c', c = one op r ++ c'
        ∧ CrossCode ctx r (leave.crossed ctx.exits) (leave.outer ctx.exits) b c' b'
        ∧ ∀ loc e, At linked.program loc (one op r) →
          Steps linked (t.at loc e (x :: st)) 1 (t.at (loc.skip 1) e st)) :
    ∃ k s', Steps linked s k s' ∧ Leaving linked ctx leave env st X t s' := by
  cases h with
  | @bare loc e upper range hclean hat hpass' hin =>
    have hclean' : (leave.crossed (scope :: ctx.exits)).any ExitScope.needsCleanup = false := hclean
    rw [hcrossed, List.any_cons, Bool.or_eq_false_iff] at hclean'
    obtain ⟨hscope, hrest⟩ := hclean'
    have hupper : ∀ y ∈ upper ++ [x], leave.passes y := by
      intro y hy
      rcases List.mem_append.mp hy with hy | hy
      · exact hpass' y hy
      · rw [List.mem_singleton.mp hy]
        exact hpass hscope
    have hleaving : Leaving linked ctx leave env st X t
        (t.at loc e (leave.top ++ (upper ++ [x] ++ st))) := .bare hrest hat hupper hin
    rw [List.append_assoc] at hleaving
    exact ⟨0, _, .refl, hleaving⟩
  | @crossing loc e range r b b' c hc hb hat hparked hin =>
    have hc' : CrossCode ctx r (leave.crossed (scope :: ctx.exits))
        (leave.outer (scope :: ctx.exits)) b c b' := hc.inside
    rw [hcrossed, houter] at hc'
    obtain ⟨op, c', rfl, hrest, hstep⟩ := hdrop r b c b' hc'
    rw [List.append_assoc] at hat
    exact ⟨1, _, hstep loc e hat.left, .crossing hrest hb hat.right hparked hin⟩

/-- out of a region without a finalizer -/
theorem guarded {region : TryRegion}
    (h : Leaving linked (ctx.inside (.guarded none)) leave env (.tryRegion region :: st) X t s) :
    ∃ k s', Steps linked s k s' ∧ Leaving linked ctx leave env st X t s' := by
  refine h.cross ?_ ?_ (fun _ => ?_) fun r b c b' hc => ?_
  · cases leave <;> rfl
  · cases leave <;> rfl
  · cases leave <;> rfl
  · cases hc with
    | guarded hc => exact ⟨.leaveTry, _, rfl, hc, fun loc e hat => step_leaveTry hat⟩

/-- out of a finalizer with a thrown value -/
theorem pendingThrow {v : Value}
    (h : Leaving linked (ctx.inside .pendingThrow) leave env (.value v :: st) X t s) :
    ∃ k s', Steps linked s k s' ∧ Leaving linked ctx leave env st X t s' := by
  refine h.cross ?_ ?_ (fun hclean => ?_) fun r b c b' hc => ?_
  · cases leave <;> rfl
  · cases leave <;> rfl
  · cases hclean
  · cases hc with
    | pendingThrow hc => exact ⟨.pop, _, rfl, hc, fun loc e hat => step_pop hat⟩

/-- out of a loop, on the way to the caller -/
theorem loop {next done : Label} {v : Value} {marked : EnvId}
    (h : Leaving linked (ctx.inside (.loop next done)) (.fromCall v) env (.loopMarker marked :: st) X t s) :
    ∃ k s', Steps linked s k s' ∧ Leaving linked ctx (.fromCall v) env st X t s' := by
  refine h.cross rfl rfl (fun _ => rfl) fun r b c b' hc => ?_
  cases hc with
  | loop hc => exact ⟨.loopEnd, _, rfl, hc, fun loc e hat => step_loopEnd hat⟩

/-- the jump to the innermost loop, whose environment comes back -/
theorem arrive {next done l : Label} {loc : Location} {marked : EnvId}
    (h : Leaving linked (ctx.inside (.loop next done)) (.toLoop l) env (.loopMarker marked :: st) X t s)
    (hl : linked.labels.resolve? l = some loc) :
    Steps linked s 1 (t.at loc marked (.loopMarker marked :: st)) := by
  cases h with
  | bare _ hat hpass _ => exact step_loopExit hat hl hpass
  | @crossing loc' e range r b b' c hc _ hat _ _ =>
    have hc' : CrossCode (ctx.inside (.loop next done)) r [] (fromLoop (.loop next done :: ctx.exits))
        b c b' := hc
    cases hc' with
    | nil =>
      have hnone : ∀ x ∈ ([] : List Slot), Exec.loopMarker? x = none := nofun
      exact step_loopExit hat hl hnone

/-- Before a finalizer.  It is compiled for the scopes around its region, and runs inside of the scopes
that are left.  Behind it the cleanup goes on. -/
theorem finalizer {body : List Stmt} {region : TryRegion}
    (h : Leaving linked (ctx.inside (.guarded (some body))) leave env (.tryRegion region :: st) X t s) :
    ∃ loc e range b c b', Steps linked s 1 (t.at loc e st) ∧ BodyCode ctx body b c b'
      ∧ b'.Within linked.program ∧ At linked.program loc (blockCode range c)
      ∧ Inside linked.global t X e env
      ∧ ∀ t' d, t.Moves linked.global n d t' → t.heap.cells.size ≤ d.index → e.index < t.heap.cells.size →
        Leaving linked ctx leave env st X t' (t'.at (loc.skip (blockCode range c).length) e st) := by
  cases h with
  | bare hclean _ _ _ =>
    exfalso
    have hneeds : (leave.crossed (.guarded (some body) :: ctx.exits)).any ExitScope.needsCleanup
        = true := by
      cases leave <;> rfl
    cases hneeds.symm.trans hclean
  | @crossing loc e range r b b' c hc hb hat hparked hin =>
    have hc' : CrossCode ctx r (.guarded (some body) :: leave.crossed ctx.exits)
        (leave.outer ctx.exits) b c b' := by
      cases leave <;> exact hc.inside
    have hexits : leave.crossed ctx.exits ++ leave.outer ctx.exits = ctx.exits := by
      cases leave with
      | toLoop _ => exact insideLoop_append_fromLoop ctx.exits
      | fromCall _ => exact List.append_nil _
    obtain ⟨c₁, b₁, c₂, rfl, hbody, hrest⟩ := hc'.finalizer_inv
    rw [hexits] at hbody
    rw [List.append_assoc, List.append_assoc] at hat
    refine ⟨loc.skip 1, e, r, b, c₁, b₁, step_leaveTry hat.left, hbody, hrest.grows.within hb,
      hat.right.left, hin, fun t' d hm hd he => ?_⟩
    refine .crossing hrest hb hat.right.right ?_ (hin.moves hm)
    cases leave with
    | toLoop _ => trivial
    | fromCall v =>
      have hne : e ≠ d := by
        rintro rfl
        exact absurd he (Nat.not_lt.mpr hd)
      exact (hm.parked e he hne).trans hparked

end Leaving

/-! ## ends of statements -/

/-- the jumps that end a statement, and where they go -/
inductive Jumps (n : Nat) (ctx : Context) : Leave → Completion → Prop
  | breaks {l : Label} (hl : loopTarget? ctx.exits .breakLoop = some l) :
    Jumps n ctx (.toLoop l) .breaks
  | continues {l : Label} (hl : loopTarget? ctx.exits .continueLoop = some l) :
    Jumps n ctx (.toLoop l) .continues
  | returns {v : Value} (hfun : ctx.inFunction = true) (hv : v.Simple n) :
    Jumps n ctx (.fromCall v) (.returns v)

/-- only loops make a difference to jumps -/
theorem Jumps.out {n : Nat} {ctx : Context} {scope : ExitScope} {leave : Leave} {c : Completion}
    (h : Jumps n (ctx.inside scope) leave c) (hscope : scope.isLoop = false) :
    Jumps n ctx leave c := by
  have hfind : (ctx.inside scope).exits.find? ExitScope.isLoop = ctx.exits.find? ExitScope.isLoop :=
    List.find?_cons_of_neg (by rw [hscope]; exact Bool.false_ne_true)
  have htarget (form : StmtForm) :
      loopTarget? (ctx.inside scope).exits form = loopTarget? ctx.exits form := by
    unfold loopTarget?
    rw [hfind]
  cases h with
  | breaks hl => exact .breaks ((htarget _).symm.trans hl)
  | continues hl => exact .continues ((htarget _).symm.trans hl)
  | returns hfun hv => exact .returns hfun hv

/-- How the code of a statement in `env` ends.  `X` are the names that are declared in scopes of its
own. -/
inductive Reaches (linked : Linked) (n : Nat) (ctx : Context) (stop : Location) (env : EnvId)
    (st : List Slot) (X : List String) : Completion → Twin → State → Prop
  | normal {t : Twin} : Reaches linked n ctx stop env st X .normal t (t.at stop env st)
  | throws {t : Twin} {s : State} {v : Value} (hv : v.Simple n)
      (h : Raises linked s v st t.heap t.world.events) :
    Reaches linked n ctx stop env st X (.throws v) t s
  | jumps {t : Twin} {s : State} {leave : Leave} {c : Completion} (hj : Jumps n ctx leave c)
      (h : Leaving linked ctx leave env st X t s) :
    Reaches linked n ctx stop env st X c t s

namespace Reaches

variable {linked : Linked} {n : Nat} {ctx : Context} {stop : Location} {env e : EnvId} {st : List Slot}
  {X X' : List String} {c : Completion} {t : Twin} {s : State}

theorem eq_at (h : Reaches linked n ctx stop env st X .normal t s) : s = t.at stop env st := by
  cases h with
  | normal => rfl
  | jumps hj _ => cases hj

/-- where the statement does not go on, the same is true of a statement around it -/
theorem outside (h : Reaches linked n ctx stop e st X c t s) (hc : c ≠ .normal)
    (hin : Inside linked.global t X' e env) (hX : ∀ name ∈ X, name ∈ X') (stop' : Location) :
    Reaches linked n ctx stop' env st X' c t s := by
  cases h with
  | normal => exact absurd rfl hc
  | throws hv h => exact .throws hv h
  | jumps hj h => exact .jumps hj (h.outside hin hX)

theorem mono (h : Reaches linked n ctx stop env st X c t s) (hX : ∀ name ∈ X, name ∈ X') :
    Reaches linked n ctx stop env st X' c t s := by
  cases h with
  | normal => exact .normal
  | throws hv h => exact .throws hv h
  | jumps hj h => exact .jumps hj (h.mono hX)

/-- out of a finalizer that does not let the thrown value go on -/
theorem pendingThrow {v : Value}
    (h : Reaches linked n (ctx.inside .pendingThrow) stop env (.value v :: st) X c t s)
    (hc : c ≠ .normal) (stop' : Location) :
    ∃ k s', Steps linked s k s' ∧ Reaches linked n ctx stop' env st X c t s' := by
  cases h with
  | normal => exact absurd rfl hc
  | throws hv h => exact ⟨0, s, .refl, .throws hv (h.passes (.value v st))⟩
  | jumps hj h =>
    obtain ⟨k, s', hs, h⟩ := h.pendingThrow
    exact ⟨k, s', hs, .jumps (hj.out rfl) h⟩

end Reaches

end ScriptMachine
