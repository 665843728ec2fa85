import ScriptMachine.Proofs.Meaning.Scopes

/-!
# The code of loops

* `Branches`        how the code of a test ends;
* `Effect.round`    what a loop does after its body;
* `follows_loop`    a loop whose parts are followed, by induction on the rounds it may have.
-/

namespace ScriptMachine

/-! ## tests -/

/-- How the code of a test ends: at one of two places, or it throws. -/
def Branches (linked : Linked) (n : Nat) (yes no : Location) (env : EnvId) (st : List Slot) :
    Except Value Value → Twin → State → Prop
  | .ok v, t, s => s = t.at (if v.isTruthy then yes else no) env st
  | .error v, t, s => v.Simple n ∧ Raises linked s v st t.heap t.world.events

section
variable {linked : Linked} {n fuel : Nat} {env : EnvId} {t : Twin} {s : State}
  {loc yes no stop : Location} {st st' : List Slot} {ctx : Context} {X : List String}
  {range : TokenRange} {l : Label}

theorem Follows.branches {r : Option (Except Value Value × World)}
    (h : Follows linked n fuel env t s r (GivesValue linked n loc env st))
    (hat : At linked.program loc (one (.jumpFalse l) range))
    (hl : linked.labels.resolve? l = some no) :
    Follows linked n fuel env t s r (Branches linked n (loc.skip 1) no env st) := by
  refine h.go fun r t' s' _ hr => ?_
  cases r with
  | error v => exact ⟨0, s', .refl, hr⟩
  | ok v =>
    obtain ⟨-, rfl⟩ := hr
    exact ⟨1, _, step_jumpFalse hat hl, rfl⟩

/-- a test and what it decides about -/
theorem Follows.test {x : Eval Value} {f : Value → Effect}
    (h : Follows linked n fuel env t s (x t.world) (Branches linked n yes no env st))
    (hp : Passes st st')
    (hf : ∀ v t', t.Moves linked.global n env t' →
      Follows linked n fuel env t' (t'.at (if v.isTruthy then yes else no) env st) (f v t'.world)
        (Reaches linked n ctx stop env st' X)) :
    Follows linked n fuel env t s (Effect.ofEval x f t.world)
      (Reaches linked n ctx stop env st' X) := by
  rw [Effect.ofEval_apply]
  refine h.bind (f := Effect.given f) fun r t' s' hm hr => ?_
  cases r with
  | error v => exact .here hm.ok (.throws hr.1 (hr.2.passes hp))
  | ok v =>
    cases hr
    exact hf v t' hm

end

/-! ## rounds -/

/-- what a loop does after its body -/
def Effect.round (update : Eval Unit) (again : Effect) : Completion → Effect
  | .normal => ofEval update fun _ => again
  | .continues => ofEval update fun _ => again
  | .breaks => done
  | c => ended c

theorem Effect.loop_succ (test : Eval Value) (body : Effect) (update : Eval Unit) (k : Nat) :
    loop test body update (k + 1) = ofEval test fun v =>
      if v.isTruthy then body.andThen (round update (loop test body update k)) else done := by
  rw [loop]
  refine congrArg (ofEval test) (funext fun v => ?_)
  refine congrArg (fun yes => if v.isTruthy then yes else done) (funext fun w => ?_)
  unfold andThen
  rcases body w with - | ⟨- | - | - | - | -, w'⟩ <;> rfl

section
variable {linked : Linked} {n fuel : Nat} {env : EnvId} {t : Twin}
  {start begin stop again finish : Location} {st : List Slot} {ctx : Context} {X : List String}
  {range : TokenRange} {first next done : Label} {test : Eval Value} {body : Effect}
  {update : Eval Unit}

/-- **A loop.**  Its test is at `start` and leads to `begin` or `finish`.  Its body ends at `stop` or goes on
at `again`, and from there the update leads back to `start`. -/
theorem follows_loop (hstart : At linked.program start (place first))
    (hfinish : At linked.program finish (place done ++ one .loopEnd range))
    (hnext : linked.labels.resolve? next = some again)
    (hdone : linked.labels.resolve? done = some finish)
    (htest : ∀ t', t.Moves linked.global n env t' →
      Follows linked n fuel env t' (t'.at (start.skip 1) env (.loopMarker env :: st)) (test t'.world)
        (Branches linked n begin finish env (.loopMarker env :: st)))
    (hbody : ∀ t', t.Moves linked.global n env t' →
      Follows linked n fuel env t' (t'.at begin env (.loopMarker env :: st)) (body t'.world)
        (Reaches linked n (ctx.inside (.loop next done)) stop env (.loopMarker env :: st) X))
    (hupdate : ∀ t' loc, t.Moves linked.global n env t' → loc = stop ∨ loc = again →
      Follows linked n fuel env t' (t'.at loc env (.loopMarker env :: st)) (update t'.world)
        (Gives linked n start env (.loopMarker env :: st) (fun _ => True) fun _ => []))
    (k : Nat) (hk : k ≤ fuel) (t' : Twin) (ht : t.Moves linked.global n env t') :
    Follows linked n k env t' (t'.at start env (.loopMarker env :: st))
      (Effect.loop test body update k t'.world) (Reaches linked n ctx (finish.skip 2) env st X) := by
  induction k generalizing t' with
  | zero => exact Late.zero linked _
  | succ k ih =>
    have hle : k ≤ fuel := Nat.le_of_succ_le hk
    -- the end of the loop, with its marker on the stack
    have hend (t₁ : Twin) : Steps linked (t₁.at finish env (.loopMarker env :: st)) 2
        (t₁.at (finish.skip 2) env st) := (step_label hfinish.left).trans (step_loopEnd hfinish.right)
    -- another round, which has less fuel
    have hround (t₁ : Twin) (loc : Location) (hm : t.Moves linked.global n env t₁)
        (hloc : loc = stop ∨ loc = again) :
        Follows linked n k env t₁ (t₁.at loc env (.loopMarker env :: st))
          (Effect.ofEval update (fun _ => Effect.loop test body update k) t₁.world)
          (Reaches linked n ctx (finish.skip 2) env st X) :=
      ((hupdate t₁ loc hm hloc).less hle).ofEval (.marker env st) fun _ t₂ hm₂ _ =>
        ih hle t₂ (hm.trans hm₂)
    rw [Effect.loop_succ]
    -- the label at the start is what pays for the round
    refine .later (k := 0) (step_label hstart) (((htest t' ht).less hle).test (.marker env st) ?_)
    intro v t₁ hm₁
    have ht₁ := ht.trans hm₁
    by_cases htrue : v.isTruthy = true
    · rw [if_pos htrue, if_pos htrue]
      refine ((hbody t₁ ht₁).less hle).andThen fun c t₂ s₂ hm₂ hr => ?_
      have ht₂ := ht₁.trans hm₂
      cases hr with
      | normal => exact hround t₂ stop ht₂ (.inl rfl)
      | throws hv hraise => exact .here hm₂.ok (.throws hv (hraise.passes (.marker env st)))
      | jumps hj hleave =>
        cases hj with
        | breaks hl =>
          cases hl
          exact .now (hm₂.ok.moves_refl env) ((hleave.arrive hdone).trans (hend t₂)) .normal
        | continues hl =>
          cases hl
          exact .steps hm₂.ok (hleave.arrive hnext) (hround t₂ again ht₂ (.inr rfl))
        | returns hfun hv =>
          obtain ⟨m, s₃, hs, hleave⟩ := hleave.loop
          exact .now (hm₂.ok.moves_refl env) hs (.jumps (.returns hfun hv) hleave)
    · rw [if_neg htrue, if_neg htrue]
      exact .now (hm₁.ok.moves_refl env) (hend t₁) .normal

end

end ScriptMachine
