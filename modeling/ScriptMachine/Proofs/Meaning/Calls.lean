import ScriptMachine.Proofs.Meaning.Statements

/-!
# Calls of functions

* `BodyCode.not_normal`     a body whose code ends in a return does not end normally;
* `Linked.Defines`          the code of a function stands in its section;
* `calls`                   the main statement: calls follow `callFunction`.
-/

namespace ScriptMachine

/-! ## the last instruction -/

/-- the last operation of a piece of code -/
def lastOp? (c : Code) : Option Op := c.getLast?.map Emitted.op

@[simp] theorem lastOp?_one (c : Code) (op : Op) (range : TokenRange) :
    lastOp? (c ++ one op range) = some op := by
  unfold lastOp? one
  rw [List.getLast?_concat]
  rfl

@[simp] theorem lastOp?_place (c : Code) (l : Label) : lastOp? (c ++ place l) = some (.label l) := by
  unfold lastOp? place
  rw [List.getLast?_concat]
  rfl

theorem lastOp?_append {c c' : Code} (hc : c' ≠ []) : lastOp? (c ++ c') = lastOp? c' := by
  unfold lastOp?
  rw [List.getLast?_append_of_ne_nil _ hc]

theorem lastOp?_blockCode (range : TokenRange) (c : Code) :
    lastOp? (blockCode range c) = some .leaveScope := lastOp?_one _ _ _

theorem lastOp?_start {exits : List ExitScope} {range : TokenRange} {c : Code} (hc : c ≠ []) :
    lastOp? (startStatement exits range c) = lastOp? c := by
  cases c with
  | nil => exact absurd rfl hc
  | cons first rest =>
    cases rest with
    | nil => rfl
    | cons second rest =>
      unfold lastOp? startStatement
      rw [List.getLast?_cons_cons, List.getLast?_cons_cons]

/-- only the code of a return ends in a return -/
theorem FormCode.of_lastOp? {ctx : Context} {range : TokenRange} {form : StmtForm} {b b' : Builder}
    {c : Code} (h : FormCode ctx range form b c b') (hlast : lastOp? c = some .ret) :
    ∃ value, form = .returnValue value := by
  cases h with
  | returnValue => exact ⟨_, rfl⟩
  | returnCrossing => exact ⟨_, rfl⟩
  | expression | varDecl | jumpCrossing | throwValue =>
    rw [lastOp?_one] at hlast
    cases hlast
  | whileLoop | forLoop =>
    first
    | rw [whileCode, lastOp?_one] at hlast
    | rw [forCode, lastOp?_one] at hlast
    cases hlast
  | ifOnly =>
    rw [ifCode, lastOp?_place] at hlast
    cases hlast
  | ifElse =>
    rw [ifElseCode, lastOp?_place] at hlast
    cases hlast
  | @tryCatch _ _ _ _ _ _ finalizer _ _ _ c₄ =>
    have hne : place (b.nextLabel + 1) ++ finalCode range finalizer c₄ ≠ [] :=
      List.cons_ne_nil _ _
    rw [tryCode, List.append_assoc, lastOp?_append hne] at hlast
    cases finalizer with
    | none => cases hlast
    | some body =>
      have hblock : blockCode range c₄ ≠ [] := List.cons_ne_nil _ _
      rw [finalCode, lastOp?_append hblock, lastOp?_blockCode] at hlast
      cases hlast
  | jump | debugger | function | classDecl | classPlain | empty => cases hlast

theorem StmtCode.of_lastOp? {ctx : Context} {stmt : Stmt} {b b' : Builder} {c : Code}
    (h : StmtCode ctx stmt b c b') (hlast : lastOp? c = some .ret) :
    ∃ value range, stmt = .node (.returnValue value) range := by
  cases h with
  | block h =>
    rw [lastOp?_blockCode] at hlast
    cases hlast
  | @form form ctx range b c b' hform h =>
    by_cases hc : c = []
    · subst hc
      cases hlast
    · rw [lastOp?_start hc] at hlast
      obtain ⟨value, rfl⟩ := h.of_lastOp? hlast
      exact ⟨value, range, rfl⟩

section
variable {functions : List FunctionDecl} {global env : EnvId} {call : Nat → List Value → Eval Value}
  {fuel : Nat} {w w' : World}

theorem exec_return_ne (value : Option Expr) (range : TokenRange) :
    exec functions global call fuel env (.node (.returnValue value) range) w ≠ some (.normal, w') := by
  show Effect.ofEval (evalOr functions global call env value) (fun v w => some (.returns v, w)) w ≠ _
  unfold Effect.ofEval
  rcases evalOr functions global call env value w with - | ⟨- | v, w₁⟩ <;> exact nofun

theorem Effect.seq_normal {first second : Effect} (h : seq first second w = some (.normal, w')) :
    ∃ w₁, first w = some (.normal, w₁) ∧ second w₁ = some (.normal, w') := by
  unfold seq at h
  split at h
  · rename_i w₁ hfirst
    exact ⟨w₁, hfirst, h⟩
  · rename_i hne
    exact absurd h (hne w')

/-- A body whose code ends in a return does not end normally. -/
theorem BodyCode.not_normal {ctx : Context} {body : List Stmt} {b b' : Builder} {c : Code}
    (h : BodyCode ctx body b c b') (hlast : lastOp? c = some .ret) :
    execAll functions global call fuel env body w ≠ some (.normal, w') := by
  induction body generalizing b c w with
  | nil =>
    cases h
    cases hlast
  | cons stmt rest ih =>
    cases h with
    | @cons _ _ _ c₁ b₁ _ c₂ _ hs hr =>
      intro hnormal
      obtain ⟨w₁, hfirst, hrest⟩ := Effect.seq_normal hnormal
      by_cases hc : c₂ = []
      · subst hc
        rw [List.append_nil] at hlast
        obtain ⟨value, range, rfl⟩ := hs.of_lastOp? hlast
        exact exec_return_ne value range hfirst
      · rw [lastOp?_append hc] at hlast
        exact ih hr hlast hrest

end

/-! ## back to the caller -/

section
variable {linked : Linked} {functions : List FunctionDecl} {ctx : Context} {v : Value} {e env : EnvId}
  {st : List Slot} {X : List String} {t : Twin} {s : State} {site : CallSite}

theorem Heap.lookup?_of_own {h : Heap} {name : String} (hv : h.getOwn? e name = some v) :
    h.lookup? e name = some v := by
  have hown : h.owner? e name = some e := by
    have hhas : h.hasOwn e name = true := by
      unfold Heap.hasOwn
      rw [hv]
      rfl
    unfold Heap.owner?
    rw [Heap.chain_eq, List.find?_cons, hhas]
  unfold Heap.lookup?
  rw [hown]
  exact hv

/-- the way out of a function ends at the caller -/
theorem Leaving.returned (hm : linked.Means functions) (hexits : ctx.exits = [])
    (h : Leaving linked ctx (.fromCall v) env (.callSite site :: st) X t s)
    (hsite : site.fromHost = false) :
    ∃ k, Steps linked s k (t.at site.caller site.env (.value v :: st)) := by
  cases h with
  | bare _ hat hpass _ => exact ⟨1, step_ret hat hpass hsite⟩
  | @crossing loc e range r b b' c hc _ hat hparked _ =>
    have hc' : CrossCode ctx r ctx.exits [] b c b' := hc
    rw [hexits] at hc'
    cases hc' with
    | nil =>
      have hcode : At linked.program loc
          (one (.fetch returnSlot .variable) range ++ one .ret range) := hat
      have hlookup : t.heap.lookup? e returnSlot = some v := Heap.lookup?_of_own hparked
      have hlook : Exec.lookupScript? linked (t.at loc e (.callSite site :: st)) returnSlot = some v := by
        rw [hm.lookupScript? (by decide)]
        show (t.heap.lookup? e returnSlot).or _ = some v
        rw [hlookup]
        rfl
      have hnone : ∀ x ∈ ([] : List Slot), Exec.callSite? x = none := nofun
      exact ⟨1 + 1, (step_fetch hcode.left hlook).trans (step_ret hcode.right hnone hsite)⟩

end

/-! ## functions -/

/-- The code of a function stands in its section, and ends in a return. -/
def Linked.Defines (linked : Linked) (index : Nat) (decl : FunctionDecl) : Prop :=
  ∃ (entry : FunctionEntry) (ctx : Context) (b b₁ b₂ : Builder) (c c' : Code) (closing : TokenRange),
    linked.program.functions[index]? = some entry ∧ entry.params = decl.params
      ∧ ctx.Plain ∧ ctx.exits = [] ∧ BodyCode ctx decl.body b c b₁ ∧ Closes closing c b₁ c' b₂
      ∧ b₂.Within linked.program ∧ At linked.program ⟨entry.body, 0⟩ c'

section
variable {linked : Linked} {functions : List FunctionDecl}

/-- the code of a body stands where its function does -/
theorem Closes.inside {closing : TokenRange} {b b' : Builder} {c c' : Code} {program : Program}
    {loc : Location} (h : Closes closing c b c' b') (hb : b'.Within program) (hat : At program loc c') :
    b.Within program ∧ At program loc c := by
  cases h with
  | already _ => exact ⟨hb, hat⟩
  | added _ => exact ⟨(Grows.constant _ _ closing rfl).within hb, hat.left.left⟩

theorem FunctionDecl.InLanguage.parts {decl : FunctionDecl} (h : decl.InLanguage) :
    (∀ param ∈ decl.params, Proper param) ∧ Stmt.AllInLanguage decl.body := by
  cases decl
  exact h.2

theorem FunctionDecl.Apart.body {decl : FunctionDecl} (h : decl.Apart) : Stmt.AllApart decl.body := by
  cases decl
  exact h

/-- the end of a body is the end of the call -/
theorem Reaches.returned (hm : linked.Means functions) {ctx : Context} (hexits : ctx.exits = [])
    {b b' : Builder} {c c' : Code} {closing : TokenRange} (hcloses : Closes closing c b c' b')
    (hb : b'.Within linked.program) {loc : Location} (hat : At linked.program loc c')
    {env : EnvId} {site : CallSite} (hsite : site.fromHost = false) {st : List Slot} {X : List String}
    {r : Completion} {t : Twin} {s : State}
    (h : Reaches linked functions.length ctx (loc.skip c.length) env (.callSite site :: st) X r t s)
    (hnormal : r = .normal → lastOp? c ≠ some .ret) :
    ∃ k s', Steps linked s k s'
      ∧ GivesValue linked functions.length site.caller site.env st r.result t s' := by
  cases h with
  | normal =>
    cases hcloses with
    | already hend =>
      have hlast : lastOp? c = some .ret := eq_of_beq hend
      exact absurd hlast (hnormal rfl)
    | added _ =>
      rw [List.append_assoc] at hat
      have hnone : ∀ x ∈ ([] : List Slot), Exec.callSite? x = none := nofun
      have hconst := hm.constant hb (v := .undefined) nofun
      exact ⟨1 + 1, _, (step_const hat.right.left hconst).trans
        (step_ret hat.right.right hnone hsite), trivial, rfl⟩
  | throws hv h => exact ⟨0, s, .refl, hv, h.passes (.site hsite st)⟩
  | jumps hj h =>
    cases hj with
    | breaks hl =>
      rw [hexits] at hl
      cases hl
    | continues hl =>
      rw [hexits] at hl
      cases hl
    | returns hfun hv =>
      obtain ⟨k, hs⟩ := h.returned hm hexits hsite
      exact ⟨k, _, hs, hv, rfl⟩

/-- the machine and the evaluator at the start of a function -/
def Twin.start (t : Twin) (global : EnvId) (decl : FunctionDecl) (args : List Value) : Twin :=
  (t.enter global global (decl.params ++ Stmt.directAll decl.body)).bindAll t.next decl.params args

theorem Twin.Ok.start {t : Twin} {decl : FunctionDecl} {args : List Value}
    (ht : t.Ok linked.global functions.length) (hparams : ∀ param ∈ decl.params, Proper param)
    (hargs : ∀ v ∈ args, v.Simple functions.length) (env : EnvId) :
    t.Moves linked.global functions.length env (t.start linked.global decl args)
      ∧ Knows linked.global functions.length (t.start linked.global decl args) t.next
        (Stmt.mentionsAll decl.body) (Stmt.directAll decl.body) := by
  have henter := ht.enter linked.global linked.global (decl.params ++ Stmt.directAll decl.body) env
  have hk : Knows linked.global functions.length
      (t.enter linked.global linked.global (decl.params ++ Stmt.directAll decl.body)) t.next
      (Stmt.mentionsAll decl.body) (decl.params ++ Stmt.directAll decl.body) :=
    .enter ht .global ht.root _
  have hbind : (t.enter linked.global linked.global (decl.params ++ Stmt.directAll decl.body)).Moves
      linked.global functions.length env (t.start linked.global decl args) := by
    refine henter.ok.bindAll (fun param hparam => ⟨(hparams param hparam).1, ?_⟩) hargs env
    exact hk.own param (List.mem_append_left _ hparam) ht.next_ne
  exact ⟨henter.trans hbind, (hk.moves hbind).mono (fun name hname => hname) fun name hname =>
    List.mem_append_right _ hname⟩

theorem calleeState_eq {index : Nat} {entry : FunctionEntry} {decl : FunctionDecl}
    (hparams : entry.params = decl.params) (args : List Value) (t : Twin) (loc : Location) (env : EnvId)
    (st : List Slot) :
    Exec.calleeState linked index entry args none false (t.at loc env st)
      = (t.start linked.global decl args).at ⟨entry.body, 0⟩ t.next
        (.callSite ⟨loc, env, index, false⟩ :: st) := by
  obtain ⟨hheap, hworld⟩ := (t.enter linked.global linked.global
    (decl.params ++ Stmt.directAll decl.body)).heap_bindAll t.next decl.params args
  unfold Twin.start Twin.at
  rw [hheap, hworld, ← hparams]
  rfl

theorem callFunction_eq {index fuel : Nat} {decl : FunctionDecl} (hdecl : functions[index]? = some decl)
    (args : List Value) {t : Twin} (ht : t.Ok linked.global functions.length) :
    callFunction functions linked.global (fuel + 1) index args t.world
      = (execAll functions linked.global (callFunction functions linked.global fuel) fuel t.next decl.body
        (t.start linked.global decl args).world).bind fun r => some (r.1.result, r.2) := by
  have hscope : t.world.heap.newScope linked.global
      = (t.next, (t.world.heap.newScope linked.global).2) := Prod.ext (ht.fst_newScope _) rfl
  have hworld : (t.start linked.global decl args).world
      = { t.world with heap :=
          Exec.bindParameters t.next decl.params args (t.world.heap.newScope linked.global).2 } :=
    ((t.enter linked.global linked.global _).heap_bindAll t.next decl.params args).2
  rw [callFunction, hdecl, hworld]
  dsimp only
  rw [hscope, Option.map_eq_bind]
  rfl

/-- **Calls of functions follow the evaluator.**  By induction on the fuel: inside of a call there is
less of it. -/
theorem calls (hm : linked.Means functions)
    (hdefines : ∀ index decl, functions[index]? = some decl → linked.Defines index decl)
    (hlang : ∀ decl ∈ functions, decl.InLanguage) (hapart : ∀ decl ∈ functions, decl.Apart)
    (fuel : Nat) :
    Calls linked functions (callFunction functions linked.global fuel) fuel := by
  induction fuel with
  | zero => exact fun _ _ _ _ _ _ _ _ _ _ _ => Late.zero linked _
  | succ fuel ih =>
    intro index args hindex hargs t loc env st range ht hat
    have hdecl : functions[index]? = some functions[index] := List.getElem?_eq_getElem hindex
    obtain ⟨entry, ctx, b, b₁, b₂, c, c', closing, hentry, hparams, hctx, hexits, hcode, hcloses, hb,
      hat'⟩ := hdefines index _ hdecl
    obtain ⟨hparamNames, hbodyLang⟩ := (hlang _ (List.getElem_mem hindex)).parts
    have hbodyApart := (hapart _ (List.getElem_mem hindex)).body
    obtain ⟨hb₁, hbodyAt⟩ := hcloses.inside hb hat'
    obtain ⟨hstart, hk⟩ := ht.start hparamNames hargs env
    have hbody := followed_body hm ih _ hbodyLang hbodyApart ctx b b₁ c hcode hctx hb₁ ⟨entry.body, 0⟩
      hbodyAt _ t.next (.callSite ⟨loc.skip 1, env, index, false⟩ :: st) hk
    rw [callFunction_eq hdecl args ht]
    refine .later (k := 0) (step_call hat hentry) ?_
    rw [calleeState_eq hparams]
    refine Follows.after (e := t.next) hstart .refl (.inr (Nat.le_refl _)) ?_
    cases hexec : execAll functions linked.global (callFunction functions linked.global fuel) fuel t.next
        functions[index].body (t.start linked.global functions[index] args).world with
    | none =>
      rw [hexec] at hbody
      exact hbody
    | some x =>
      rw [hexec] at hbody
      obtain ⟨t', k, s', hw, hmoves, hsteps, hr⟩ := hbody
      have hnormal : x.1 = .normal → lastOp? c ≠ some .ret := by
        intro hx hlast
        exact hcode.not_normal hlast (hexec.trans (congrArg some (Prod.ext hx rfl)))
      obtain ⟨m, s'', hsteps', hgives⟩ := hr.returned hm hexits hcloses hb hat' rfl hnormal
      exact ⟨t', k + m, s'', hw, hmoves, hsteps.trans hsteps', hgives⟩

end

end ScriptMachine
