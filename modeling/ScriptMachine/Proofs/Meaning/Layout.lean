import ScriptMachine.Proofs.Meaning.Calls
import ScriptMachine.Proofs.Shape.Sections

/-!
# Where the code of a structured program stands

Statements of the language declare no functions, so the function table holds the functions of the
program in their order.

* `SameTable`               code that leaves the function table as it was;
* `BodyCode.sameTable`      statements of the language keep the table;
* `Declared`                a function of the table with its code;
* `Structured.means`, `Structured.defines`   the parts of a structured program are where the
                            evaluator's functions expect them.
-/

namespace ScriptMachine

/-! ## code that declares no functions -/

/-- The function table stays as it was, and no constant is the negative zero. -/
structure SameTable (b b' : Builder) : Prop where
  functions : b'.functions = b.functions
  constants : (∀ v ∈ b.constants, v ≠ .number (-0)) → ∀ v ∈ b'.constants, v ≠ .number (-0)

namespace SameTable

variable {b b₁ b' : Builder}

theorem refl : SameTable b b := ⟨rfl, fun h => h⟩

theorem trans (h : SameTable b b₁) (h' : SameTable b₁ b') : SameTable b b' :=
  ⟨h'.functions.trans h.functions, fun hb => h'.constants (h.constants hb)⟩

theorem labels (b : Builder) (n : Nat) : SameTable b (b.addLabels n) := ⟨rfl, fun h => h⟩

theorem constant (b : Builder) {v : Value} (hv : v ≠ .number (-0)) : SameTable b (b.addConstant v) := by
  refine ⟨rfl, fun h w hw => ?_⟩
  have hmem : w ∈ (internConstant b.constants v).2 := hw
  unfold internConstant at hmem
  split at hmem
  · exact h w hmem
  · rcases Array.mem_push.mp hmem with hmem | rfl
    · exact h w hmem
    · exact hv

theorem ofOption {α : Type} {o : Option α} (hsome : ∀ a, o = some a → SameTable b b')
    (hnone : o = none → SameTable b b') : SameTable b b' := by
  cases o with
  | none => exact hnone rfl
  | some a => exact hsome a rfl

/-- a value that may be missing -/
theorem valueOf {o : Option Expr} {c : Code} {range : TokenRange}
    (hsome : ∀ e, o = some e → SameTable b b')
    (hnone : o = none → c = b.constantCode .undefined range ∧ b' = b.addConstant .undefined) :
    SameTable b b' := by
  refine ofOption hsome fun ho => ?_
  rw [(hnone ho).2]
  exact constant b nofun

/-- a part that may be missing -/
theorem nothing {α : Type} {o : Option α} (hsome : ∀ a, o = some a → SameTable b b')
    (hnone : o = none → b' = b) : SameTable b b' := by
  refine ofOption hsome fun ho => ?_
  rw [hnone ho]
  exact refl

end SameTable

/-- finalizers around the code are in the language -/
def ExitScope.InLanguage : ExitScope → Prop
  | guarded finalizer => Stmt.BodyInLanguage finalizer
  | _ => True

theorem Expr.inLanguage_of_some {o : Option Expr} (h : Expr.OptionInLanguage o) {e : Expr}
    (he : o = some e) : e.InLanguage := by
  subst he
  exact h

theorem Stmt.inLanguage_of_some {o : Option Stmt} (h : Stmt.OptionInLanguage o) {s : Stmt}
    (hs : o = some s) : s.InLanguage := by
  subst hs
  exact h

theorem CatchClause.allInLanguage_of_some {o : Option CatchClause}
    (h : CatchClause.OptionInLanguage o) {binding : Option String} {body : List Stmt} {r : TokenRange}
    (hclause : o = some (.mk binding body r)) : Stmt.AllInLanguage body := by
  subst hclause
  exact h.2

theorem Stmt.allInLanguage_of_some {o : Option (List Stmt)} (h : Stmt.BodyInLanguage o)
    {body : List Stmt} (hbody : o = some body) : Stmt.AllInLanguage body := by
  subst hbody
  exact h

mutual

theorem ExprCode.sameTable {ctx : Context} {e : Expr} {b b' : Builder} {c : Code}
    (h : ExprCode ctx e b c b') : e.InLanguage → SameTable b b' := by
  match h with
  | .literal h => exact fun hlang => .constant _ (ExprForm.literal_ne h hlang)
  | .variable => exact fun _ => .refl
  | .assignVariable hv => exact fun hlang => hv.sameTable hlang.2
  | .assignIndex ho hv hk =>
    exact fun hlang => ((ho.sameTable hlang.1).trans (hv.sameTable hlang.2.1)).trans (hk.sameTable hlang.2.2)
  | .binary hl hr => exact fun hlang => (hl.sameTable hlang.1).trans (hr.sameTable hlang.2)
  | .logical hl hr =>
    exact fun hlang => (((SameTable.labels _ 2).trans (hl.sameTable hlang.1)).trans (hr.sameTable hlang.2)).trans
      (.constant _ nofun)
  | .unary h => exact h.sameTable
  | .callVariable _ ha => exact fun hlang => ha.sameTable hlang.2
  | .callValue _ hplain _ _ => exact fun hlang => (ExprForm.not_path hlang hplain).elim
  | .member ho => exact ho.sameTable
  | .index ho hk => exact fun hlang => (ho.sameTable hlang.1).trans (hk.sameTable hlang.2)
  | .array ha => exact ha.sameTable
  | .this => exact False.elim
  | .assignMember _ _ => exact False.elim
  | .callMember _ _ _ => exact False.elim
  | .new _ _ => exact False.elim
  | .function _ => exact False.elim

theorem ArgsCode.sameTable {ctx : Context} {es : List Expr} {b b' : Builder} {c : Code}
    (h : ArgsCode ctx es b c b') : Expr.AllInLanguage es → SameTable b b' := by
  match h with
  | .nil => exact fun _ => .refl
  | .cons hr he => exact fun hlang => (hr.sameTable hlang.2).trans (he.sameTable hlang.1)

end

mutual

theorem StmtCode.sameTable {ctx : Context} {stmt : Stmt} {b b' : Builder} {c : Code}
    (h : StmtCode ctx stmt b c b') (hexits : ∀ scope ∈ ctx.exits, scope.InLanguage) :
    stmt.InLanguage → SameTable b b' := by
  match h with
  | .block h => exact h.sameTable hexits
  | .form _ h => exact h.sameTable hexits

theorem BodyCode.sameTable {ctx : Context} {body : List Stmt} {b b' : Builder} {c : Code}
    (h : BodyCode ctx body b c b') (hexits : ∀ scope ∈ ctx.exits, scope.InLanguage) :
    Stmt.AllInLanguage body → SameTable b b' := by
  match h with
  | .nil => exact fun _ => .refl
  | .cons hs hr => exact fun hlang => (hs.sameTable hexits hlang.1).trans (hr.sameTable hexits hlang.2)

theorem FormCode.sameTable {ctx : Context} {range : TokenRange} {form : StmtForm} {b b' : Builder}
    {c : Code} (h : FormCode ctx range form b c b')
    (hexits : ∀ scope ∈ ctx.exits, scope.InLanguage) : form.InLanguage → SameTable b b' := by
  match h with
  | .expression h => exact h.sameTable
  | .varDecl hsome hnone =>
    intro hlang
    exact .valueOf (fun e he => (hsome e he).sameTable (Expr.inLanguage_of_some hlang.2 he)) hnone
  | .ifOnly ht hs =>
    intro hlang
    exact ((SameTable.labels _ 1).trans (ht.sameTable hlang.1)).trans (hs.sameTable hexits hlang.2.1)
  | .ifElse ht hs he =>
    intro hlang
    exact ((((SameTable.labels _ 1).trans (ht.sameTable hlang.1)).trans (hs.sameTable hexits hlang.2.1)).trans
      (.labels _ 1)).trans (he.sameTable hexits hlang.2.2)
  | .whileLoop ht hs =>
    intro hlang
    exact ((SameTable.labels _ 2).trans (ht.sameTable hlang.1)).trans
      (hs.sameTable (List.forall_mem_cons.mpr ⟨trivial, hexits⟩) hlang.2)
  | .forLoop hisome hinone htsome htnone hs husome hunone =>
    intro hlang
    have hinit := SameTable.nothing (fun s h => (hisome s h).sameTable hexits
      (Stmt.inLanguage_of_some hlang.1 h)) fun h => (hinone h).2
    have htest := SameTable.nothing (fun e h => (htsome e h).sameTable
      (Expr.inLanguage_of_some hlang.2.1 h)) htnone
    have hupdate := SameTable.nothing (fun e h => (husome e h).sameTable
      (Expr.inLanguage_of_some hlang.2.2.1 h)) hunone
    exact ((((SameTable.labels _ 3).trans hinit).trans htest).trans
      (hs.sameTable (List.forall_mem_cons.mpr ⟨trivial, hexits⟩) hlang.2.2.2)).trans hupdate
  | .jump _ _ => exact fun _ => .refl
  | .jumpCrossing _ _ hc =>
    intro hlang
    exact hc.sameTable fun scope hscope => hexits scope (insideLoop_append_fromLoop ctx.exits ▸ hscope)
  | .returnValue _ hsome hnone _ =>
    intro hlang
    exact .valueOf (fun e he => (hsome e he).sameTable (Expr.inLanguage_of_some hlang he)) hnone
  | .returnCrossing _ hsome hnone _ hc =>
    intro hlang
    refine (SameTable.valueOf (fun e he => (hsome e he).sameTable (Expr.inLanguage_of_some hlang he))
      hnone).trans (hc.sameTable fun scope hscope => hexits scope ?_)
    rwa [List.append_nil] at hscope
  | .throwValue h => exact h.sameTable
  | .tryCatch hb hhsome hhnone hrsome hrnone hfsome hfnone =>
    intro hlang
    have hhandler := SameTable.nothing (fun (clause : CatchClause) h => by
      obtain ⟨binding, hbody, r⟩ := clause
      exact (hhsome binding hbody r h).sameTable (List.forall_mem_cons.mpr ⟨hlang.2.2, hexits⟩)
        (CatchClause.allInLanguage_of_some hlang.2.1 h)) hhnone
    have hrethrow := SameTable.nothing (fun fbody h => (hrsome fbody h).sameTable
      (List.forall_mem_cons.mpr ⟨trivial, hexits⟩) (Stmt.allInLanguage_of_some hlang.2.2 h)) hrnone
    have hfinal := SameTable.nothing (fun fbody h => (hfsome fbody h).sameTable hexits
      (Stmt.allInLanguage_of_some hlang.2.2 h)) hfnone
    exact ((((SameTable.labels _ 3).trans (hb.sameTable
      (List.forall_mem_cons.mpr ⟨hlang.2.2, hexits⟩) hlang.1)).trans hhandler).trans hrethrow).trans hfinal
  | .empty => exact fun _ => .refl
  | .function _ _ => exact False.elim
  | .classDecl _ _ => exact False.elim
  | .classPlain _ _ _ => exact False.elim
  | .debugger => exact False.elim

theorem CrossCode.sameTable {ctx : Context} {range : TokenRange} {crossed outer : List ExitScope}
    {b b' : Builder} {c : Code} (h : CrossCode ctx range crossed outer b c b')
    (hexits : ∀ scope ∈ crossed ++ outer, scope.InLanguage) : SameTable b b' := by
  match h with
  | .nil => exact .refl
  | .loop h => exact h.sameTable (List.forall_mem_cons.mp hexits).2
  | .pendingThrow h => exact h.sameTable (List.forall_mem_cons.mp hexits).2
  | .guarded h => exact h.sameTable (List.forall_mem_cons.mp hexits).2
  | .finalizer hb h =>
    obtain ⟨hbody, hrest⟩ := List.forall_mem_cons.mp hexits
    exact (hb.sameTable hrest hbody).trans (h.sameTable hrest)

end

/-! ## names mean themselves -/

mutual

/-- statements of the language declare no functions -/
theorem declaredIn_nil (stmt : Stmt) (h : stmt.InLanguage) : declaredIn stmt = [] := by
  match stmt with
  | .node form range => exact declaredInForm_nil form h

theorem declaredInForm_nil (form : StmtForm) (h : form.InLanguage) : declaredInForm form = [] := by
  match form with
  | .block body => exact declaredInAll_nil body h
  | .ifElse test thenBranch elseBranch =>
    rw [declaredInForm, declaredIn_nil thenBranch h.2.1, declaredInOption_nil elseBranch h.2.2]
    rfl
  | .whileLoop test body => exact declaredIn_nil body h.2
  | .forLoop init test update body => exact declaredIn_nil body h.2.2.2
  | .tryCatch body handler finalizer =>
    rw [declaredInForm, declaredInAll_nil body h.1, declaredInHandler_nil handler h.2.1,
      declaredInFinalizer_nil finalizer h.2.2]
    rfl
  | .expression _ | .varDecl _ _ | .breakLoop | .continueLoop | .returnValue _ | .throwValue _
  | .empty => rfl

theorem declaredInOption_nil (o : Option Stmt) (h : Stmt.OptionInLanguage o) :
    declaredInOption o = [] := by
  match o with
  | none => rfl
  | some stmt => exact declaredIn_nil stmt h

theorem declaredInHandler_nil (handler : Option CatchClause) (h : CatchClause.OptionInLanguage handler) :
    declaredInHandler handler = [] := by
  match handler with
  | none => rfl
  | some (.mk _ body _) => exact declaredInAll_nil body h.2

theorem declaredInFinalizer_nil (finalizer : Option (List Stmt)) (h : Stmt.BodyInLanguage finalizer) :
    declaredInFinalizer finalizer = [] := by
  match finalizer with
  | none => rfl
  | some body => exact declaredInAll_nil body h

theorem declaredInAll_nil (body : List Stmt) (h : Stmt.AllInLanguage body) :
    declaredInAll body = [] := by
  match body with
  | [] => rfl
  | stmt :: rest =>
    rw [declaredInAll, declaredIn_nil stmt h.1, declaredInAll_nil rest h.2]
    rfl

end

/-! ## the function table -/

/-- The code of a function, as it stands at a place of the function table. -/
def Declared (b : Builder) (i : Nat) (decl : FunctionDecl) : Prop :=
  ∃ (ctx : Context) (b₀ b₁ b₂ : Builder) (c c' : Code) (closing : TokenRange),
    b.functions[i]? = some ⟨decl.name?.getD "", decl.params, c'⟩ ∧ ctx.Plain ∧ ctx.exits = []
      ∧ BodyCode ctx decl.body b₀ c b₁ ∧ Closes closing c b₁ c' b₂
      ∧ b₂.constants.toList <+: b.constants.toList

theorem Declared.mono {b b' : Builder} {i : Nat} {decl : FunctionDecl} {c : Code}
    (h : Declared b i decl) (hi : i < b.functions.size) (hgrows : Grows b c b') :
    Declared b' i decl := by
  obtain ⟨ctx, b₀, b₁, b₂, c, c', closing, hentry, hctx, hexits, hbody, hcloses, hconst⟩ := h
  exact ⟨ctx, b₀, b₁, b₂, c, c', closing, (hgrows.functions i hi).trans hentry, hctx, hexits, hbody,
    hcloses, hconst.trans hgrows.constants⟩

theorem Closes.sameTable {closing : TokenRange} {c c' : Code} {b b' : Builder}
    (h : Closes closing c b c' b') : SameTable b b' := by
  cases h with
  | already => exact .refl
  | added => exact .constant b nofun

/-- a function of the program takes the next place of the table -/
theorem FunctionAdded.declared {ctx : Context} {name : String} {decl : FunctionDecl} {b b' : Builder}
    {i : Nat} (h : FunctionAdded ctx name decl b i b') (hname : decl.name? = some name)
    (hctx : ctx.enclosing = []) (hlang : decl.InLanguage) :
    b'.functions.size = b.functions.size + 1 ∧ Declared b' b.functions.size decl
      ∧ ((∀ v ∈ b.constants, v ≠ .number (-0)) → ∀ v ∈ b'.constants, v ≠ .number (-0)) := by
  cases h with
  | @mk _ body c b₁ c' b₂ _ n params range _ hn hb hc =>
    obtain ⟨hisSome, hparams, hbody⟩ := hlang
    have hsame : SameTable (b.reserve name params) b₂ := (hb.sameTable (fun _ h => absurd h List.not_mem_nil) hbody).trans hc.sameTable
    have hsize : (b₂.fill b.functions.size c').functions.size = b₂.functions.size := Array.size_modify
    have hplain : (Context.mk ctx.source [] true (⟨name, declaredInAll body⟩ :: ctx.enclosing)).Plain := by
      intro scope hscope
      rw [declaredInAll_nil body hbody, hctx] at hscope
      rw [List.mem_singleton.mp hscope]
    refine ⟨?_, ⟨_, _, _, _, _, _, _, ?_, hplain, rfl, hb, hc, List.prefix_refl _⟩, fun hconst => ?_⟩
    · rw [hsize, hsame.functions]
      exact Array.size_push _
    · rw [(hb.grows.close hc).entry_fill, hname]
      rfl
    · exact hsame.constants hconst

/-- a statement of a program is a function or in the language -/
theorem Stmt.TopInLanguage.cases {stmt : Stmt} (h : stmt.TopInLanguage) :
    (∃ decl range, stmt = .node (.function decl) range ∧ decl.InLanguage
      ∧ ∀ rest, topFunctions (stmt :: rest) = decl :: topFunctions rest)
    ∨ (stmt.InLanguage ∧ ∀ rest, topFunctions (stmt :: rest) = topFunctions rest) := by
  obtain ⟨form, range⟩ := stmt
  cases form with
  | function decl => exact .inl ⟨decl, range, rfl, h, fun _ => rfl⟩
  | _ => exact .inr ⟨h, fun _ => rfl⟩

/-- The functions of a program take the places of the table in their order. -/
theorem BodyCode.declared {ctx : Context} {body : List Stmt} {b b' : Builder} {c : Code}
    (h : BodyCode ctx body b c b') (hlang : ∀ stmt ∈ body, stmt.TopInLanguage)
    (hexits : ctx.exits = []) (hctx : ctx.enclosing = []) :
    b'.functions.size = b.functions.size + (topFunctions body).length
      ∧ (∀ i decl, (topFunctions body)[i]? = some decl → Declared b' (b.functions.size + i) decl)
      ∧ ((∀ v ∈ b.constants, v ≠ .number (-0)) → ∀ v ∈ b'.constants, v ≠ .number (-0)) := by
  have hplain : ctx.Plain := by
    intro scope hscope
    rw [hctx] at hscope
    cases hscope
  induction body generalizing b c with
  | nil =>
    cases h
    exact ⟨rfl, nofun, fun hconst => hconst⟩
  | cons stmt rest ih =>
    obtain ⟨hfirst, hrest⟩ := List.forall_mem_cons.mp hlang
    cases h with
    | @cons _ _ _ c₁ b₁ _ c₂ _ hs hr =>
      obtain ⟨hsize, hdeclared, hconst⟩ := ih hr hrest
      rcases hfirst.cases with ⟨decl, range, rfl, hdecl, htop⟩ | ⟨hstmt, htop⟩
      · rw [htop]
        cases hs with
        | form _ hform =>
          cases hform with
          | jump htarget => cases htarget
          | jumpCrossing htarget => cases htarget
          | function hname hf =>
            rw [hplain.resolve] at hf
            obtain ⟨hsize₁, hdeclared₁, hconst₁⟩ := hf.declared hname hctx hdecl
            refine ⟨?_, fun i d hd => ?_, fun hb => hconst (hconst₁ hb)⟩
            · rw [hsize, hsize₁, List.length_cons]
              omega
            · cases i with
              | zero =>
                cases hd
                exact hdeclared₁.mono (by omega) hr.grows
              | succ i =>
                have hrestDecl := hdeclared i d hd
                rw [hsize₁, Nat.add_assoc, Nat.add_comm 1 i] at hrestDecl
                exact hrestDecl
      · rw [htop]
        have hsame := hs.sameTable (by rw [hexits]; exact nofun) hstmt
        rw [hsame.functions] at hsize hdeclared
        exact ⟨hsize, hdeclared, fun hb => hconst (hsame.constants hb)⟩

/-! ## programs -/

theorem At.ofSection {b : Builder} {main c : Code} {i : Nat} (source : Source)
    (h : b.sectionCode? main i = some c) : At (b.toProgram main source) ⟨i, 0⟩ c := by
  intro k e he
  refine ⟨e.instruction, ?_, rfl⟩
  show (b.toProgram main source).instruction? i (0 + k) = some e.instruction
  rw [Nat.zero_add, Builder.instruction?_toProgram]
  unfold Builder.emitted?
  rw [h, Option.bind_some, he]
  rfl

theorem mem_topFunctions {body : List Stmt} {decl : FunctionDecl} (h : decl ∈ topFunctions body) :
    ∃ range, .node (.function decl) range ∈ body := by
  obtain ⟨stmt, hstmt, hdecl⟩ := List.mem_filterMap.mp h
  obtain ⟨form, range⟩ := stmt
  cases form with
  | function d =>
    cases hdecl
    exact ⟨range, hstmt⟩
  | _ => cases hdecl

theorem Stmt.AllApart.of_mem {body : List Stmt} (h : Stmt.AllApart body) {stmt : Stmt}
    (hstmt : stmt ∈ body) : stmt.Apart := by
  induction body with
  | nil => cases hstmt
  | cons first rest ih =>
    rcases List.mem_cons.mp hstmt with rfl | hstmt
    · exact h.1
    · exact ih h.2 hstmt

section
variable {body : List Stmt} {source : Source} {code : Code} {b : Builder} {table : LabelTable}

/-- the linked program -/
def linkedProgram (b : Builder) (code : Code) (source : Source) (table : LabelTable) : Linked :=
  ⟨b.toProgram (mainCode code source) source, table, ⟨0⟩, []⟩

/-- the table holds the functions of the program -/
theorem Structured.functionTable (hs : Structured body) (hcode : BodyCode { source := source } body {} code b) :
    b.functions.size = (topFunctions body).length
      ∧ ∀ i decl, (topFunctions body)[i]? = some decl → Declared b i decl := by
  obtain ⟨hsize, hdeclared, -⟩ := hcode.declared hs.language rfl rfl
  have hzero (i : Nat) : (Builder.functions {}).size + i = i := Nat.zero_add i
  refine ⟨hsize.trans (hzero _), fun i decl hdecl => ?_⟩
  have hfound := hdeclared i decl hdecl
  rwa [hzero] at hfound

theorem Structured.means (hs : Structured body) (hcode : BodyCode { source := source } body {} code b)
    (htable : (b.toProgram (mainCode code source) source).labelTable = .ok table) :
    (linkedProgram b code source table).Means (topFunctions body) where
  natives := rfl
  labels loc l hat := by
    obtain ⟨table', htable', hresolve⟩ := LabelTable.ofLabels_nodup _ (tabled_of_compiled hcode source).labels
    obtain ⟨ins, hins, hop⟩ := hat 0 _ rfl
    have heq : table' = table := Except.ok.inj (htable'.symm.trans htable)
    rw [← heq]
    exact hresolve l loc (mem_labels hins hop)
  constants := (hcode.declared hs.language rfl rfl).2.2 nofun
  names := by
    obtain ⟨hsize, hdeclared⟩ := hs.functionTable hcode
    show (b.functions.map FunctionCode.name).toList = _
    refine List.ext_getElem? fun i => ?_
    rw [Array.getElem?_toList, Array.getElem?_map, List.getElem?_map]
    cases hdecl : (topFunctions body)[i]? with
    | none =>
      rw [Array.getElem?_eq_none (hsize ▸ List.getElem?_eq_none_iff.mp hdecl)]
      rfl
    | some decl =>
      obtain ⟨_, _, _, _, _, _, _, hentry, -⟩ := hdeclared i decl hdecl
      rw [hentry]
      rfl

theorem Structured.defines (hs : Structured body)
    (hcode : BodyCode { source := source } body {} code b) (index : Nat) (decl : FunctionDecl)
    (hdecl : (topFunctions body)[index]? = some decl) :
    (linkedProgram b code source table).Defines index decl := by
  obtain ⟨ctx, b₀, b₁, b₂, c, c', closing, hentry, hctx, hexits, hbody, hcloses, hconst⟩ :=
    (hs.functionTable hcode).2 index decl hdecl
  refine ⟨⟨decl.name?.getD "", index + 1, decl.params⟩, ctx, b₀, b₁, b₂, c, c', closing, ?_, rfl, hctx,
    hexits, hbody, hcloses, hconst, ?_⟩
  · show (b.functions.mapIdx fun i f => (⟨f.name, i + 1, f.params⟩ : FunctionEntry))[index]? = _
    rw [Array.getElem?_mapIdx, hentry]
    rfl
  · refine At.ofSection source ?_
    rw [Builder.sectionCode?, hentry]
    rfl

end

end ScriptMachine
