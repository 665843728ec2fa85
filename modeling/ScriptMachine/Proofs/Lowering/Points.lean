import ScriptMachine.Proofs.Grammar.Ranges
import ScriptMachine.Proofs.Shape.Sections

/-!
# Where a stepped program stops

A program is stepped through from one marked instruction to the next one.  Every time that a statement
is compiled, its code starts with such an instruction, unless it is a block.  The statements of a
finalizer are compiled again for each jump that leaves the region.

* `Points`                the statements that are compiled into a section, and into those of the
                          functions inside;
* `Stmt.points around`    what is compiled for a statement inside some regions;
* `Points.crossed`        what is compiled for a jump;
* `Marked n c stmts`      the marked instructions of `c` are those of `stmts`;
* `BodyCode.makes`        so it is with all compiled code.
-/

namespace ScriptMachine

/-! ## statements that are compiled -/

/-- Statements in the order of their code. -/
structure Points where
  /-- those of the section at hand -/
  own : List Stmt
  /-- those of the sections of the functions inside, in the order of the function table -/
  inner : List (List Stmt)

namespace Points

def append (p q : Points) : Points := ⟨p.own ++ q.own, p.inner ++ q.inner⟩

instance : Append Points := ⟨append⟩

/-- no statement and no function -/
def none : Points := ⟨[], []⟩

/-- functions in expressions -/
def within (sections : List (List Stmt)) : Points := ⟨[], sections⟩

/-- all sections -/
def sections (p : Points) : List (List Stmt) := p.own :: p.inner

end Points

/-- What surrounds a statement: a loop, or a region with the statements of its finalizer. -/
inductive Surround where
  | loop
  | region (finalizer : Points)

def Surround.isLoop : Surround → Bool
  | loop => true
  | region _ => false

/-- a jump out of all this runs the finalizers on the way, the innermost first -/
def Points.crossed : List Surround → Points
  | [] => none
  | .loop :: outer => crossed outer
  | .region finalizer :: outer => finalizer ++ crossed outer

/-- a block is no statement of its own -/
def Stmt.own : Stmt → List Stmt
  | .node (.block _) _ => []
  | stmt => [stmt]

/-- a class without a constructor gets one that has no statements -/
def defaultSections (methods : List FunctionDecl) : List (List Stmt) :=
  if methods.any fun decl => decl.name? = some constructorName then [] else [[]]

mutual

/-- the statements of the functions in an expression -/
def Expr.sections : Expr → List (List Stmt)
  | .node form _ => form.sections

def ExprForm.sections : ExprForm → List (List Stmt)
  | .assign target value => target.sectionsAssigned value.sections
  | .binary _ left right => left.sections ++ right.sections
  | .logical _ left right => left.sections ++ right.sections
  | .unary _ operand => operand.sections
  | .call callee args => callee.sectionsCalled (Expr.sectionsReversed args)
  | .member object _ => object.sections
  | .index object key => object.sections ++ key.sections
  | .new _ args => Expr.sectionsReversed args
  | .function decl => decl.sections
  | .array elements => Expr.sectionsReversed elements
  | _ => []

/-- an index is evaluated behind the value that is assigned -/
def Expr.sectionsAssigned (value : List (List Stmt)) : Expr → List (List Stmt)
  | .node (.member object _) _ => object.sections ++ value
  | .node (.index object key) _ => object.sections ++ value ++ key.sections
  | _ => value

/-- an object is evaluated before the arguments of a call, and any other callee behind them -/
def Expr.sectionsCalled (args : List (List Stmt)) : Expr → List (List Stmt)
  | .node (.member object _) _ => object.sections ++ args
  | .node (.variable _) _ => args
  | .node form _ => args ++ form.sections

def Expr.sectionsReversed : List Expr → List (List Stmt)
  | [] => []
  | e :: rest => Expr.sectionsReversed rest ++ e.sections

def Expr.sectionsOption : Option Expr → List (List Stmt)
  | none => []
  | some e => e.sections

def FunctionDecl.sections : FunctionDecl → List (List Stmt)
  | .mk _ _ body _ => (Stmt.allPoints [] body).sections

def FunctionDecl.allSections : List FunctionDecl → List (List Stmt)
  | [] => []
  | decl :: rest => decl.sections ++ FunctionDecl.allSections rest

/-- the statements that are compiled for a statement, itself first -/
def Stmt.points (around : List Surround) : Stmt → Points
  | .node form range => ⟨Stmt.own (.node form range), []⟩ ++ form.points around

def StmtForm.points (around : List Surround) : StmtForm → Points
  | .expression e => .within e.sections
  | .varDecl _ init => .within (Expr.sectionsOption init)
  | .block body => Stmt.allPoints around body
  | .ifElse test thenBranch elseBranch =>
    .within test.sections ++ thenBranch.points around ++ Stmt.optionPoints around elseBranch
  | .whileLoop test body => .within test.sections ++ body.points (.loop :: around)
  | .forLoop init test update body =>
    Stmt.optionPoints around init ++ .within (Expr.sectionsOption test)
      ++ body.points (.loop :: around) ++ .within (Expr.sectionsOption update)
  | .breakLoop => .crossed (around.takeWhile (!·.isLoop))
  | .continueLoop => .crossed (around.takeWhile (!·.isLoop))
  | .returnValue value => .within (Expr.sectionsOption value) ++ .crossed around
  | .throwValue e => .within e.sections
  | .tryCatch body handler finalizer =>
    Stmt.allPoints (.region (Stmt.finalPoints around finalizer) :: around) body
      ++ CatchClause.points (.region (Stmt.finalPoints around finalizer) :: around) handler
      ++ Stmt.finalPoints (.region .none :: around) finalizer ++ Stmt.finalPoints around finalizer
  | .function decl => .within decl.sections
  | .classDecl _ methods => .within (FunctionDecl.allSections methods ++ defaultSections methods)
  | .debugger => .none
  | .empty => .none

def Stmt.allPoints (around : List Surround) : List Stmt → Points
  | [] => .none
  | stmt :: rest => stmt.points around ++ Stmt.allPoints around rest

def Stmt.optionPoints (around : List Surround) : Option Stmt → Points
  | none => .none
  | some stmt => stmt.points around

def Stmt.finalPoints (around : List Surround) : Option (List Stmt) → Points
  | none => .none
  | some body => Stmt.allPoints around body

def CatchClause.points (around : List Surround) : Option CatchClause → Points
  | none => .none
  | some (.mk _ body _) => Stmt.allPoints around body

end

/-- the scopes around some code as what a jump out of it runs -/
def Surround.ofExits : List ExitScope → List Surround
  | [] => []
  | .loop _ _ :: outer => .loop :: ofExits outer
  | .guarded finalizer :: outer =>
    .region (Stmt.finalPoints (ofExits outer) finalizer) :: ofExits outer
  | .pendingThrow :: outer => .region .none :: ofExits outer

namespace Points

theorem append_none (p : Points) : p ++ none = p :=
  congrArg₂ mk (List.append_nil p.own) (List.append_nil p.inner)

/-- the scopes inside the innermost loop -/
theorem takeWhile_ofExits (exits : List ExitScope) :
    (Surround.ofExits exits).takeWhile (!·.isLoop)
      = (Surround.ofExits exits).take (insideLoop exits).length := by
  induction exits with
  | nil => rfl
  | cons scope outer ih =>
    cases scope with
    | loop next done => rfl
    | guarded finalizer => exact congrArg (_ :: ·) ih
    | pendingThrow => exact congrArg (_ :: ·) ih

/-- without cleanup there is nothing to run -/
theorem crossed_of_clean {crossed : List ExitScope} (outer : List ExitScope)
    (h : crossed.any ExitScope.needsCleanup = false) :
    Points.crossed ((Surround.ofExits (crossed ++ outer)).take crossed.length) = none := by
  induction crossed with
  | nil =>
    rw [List.length_nil, List.take_zero]
    rfl
  | cons scope crossed ih =>
    rw [List.any_cons, Bool.or_eq_false_iff] at h
    cases scope with
    | loop next done => exact ih h.2
    | guarded finalizer =>
      cases finalizer with
      | none => exact ih h.2
      | some body => cases h.1
    | pendingThrow => cases h.1

/-- a scope is one thing around its code -/
theorem take_ofExits (exits : List ExitScope) :
    (Surround.ofExits exits).take exits.length = Surround.ofExits exits := by
  have hlength : (Surround.ofExits exits).length = exits.length := by
    induction exits with
    | nil => rfl
    | cons scope outer ih => cases scope <;> exact congrArg (· + 1) ih
  rw [← hlength, List.take_length]

end Points

/-! ## marked code -/

/-- what only serves the flow of control -/
def Op.isPlumbing : Op → Bool
  | .label _ => true
  | .jump _ => true
  | .leaveScope => true
  | .loopEnd => true
  | .halt => true
  | _ => false

/-- the instruction stands for the statement -/
def Emitted.Stands (e : Emitted) (stmt : Stmt) : Prop :=
  e.range = some stmt.range ∧ e.op.isPlumbing = false

/-- The marked instructions stand for the statements, one by one, and all ranges are among the first `n`
tokens. -/
structure Marked (n : Nat) (c : Code) (stmts : List Stmt) : Prop where
  marked : List.Forall₂ Emitted.Stands (c.filter fun e => e.statement.isSome) stmts
  ranges : ∀ e ∈ c, ∀ r, e.range = some r → r.Within n

/-- the code is not empty and starts with an instruction that may stand for a statement -/
def Fronts (c : Code) : Prop :=
  ∃ e rest, c = e :: rest ∧ e.statement = none ∧ e.op.isPlumbing = false

section
variable {n : Nat} {c c' : Code} {stmts stmts' : List Stmt} {op : Op} {range : TokenRange}

theorem Marked.nil : Marked n [] [] := ⟨.nil, nofun⟩

theorem Marked.append (h : Marked n c stmts) (h' : Marked n c' stmts') :
    Marked n (c ++ c') (stmts ++ stmts') := by
  refine ⟨?_, fun e he => ?_⟩
  · rw [List.filter_append]
    exact List.rel_append h.marked h'.marked
  · rcases List.mem_append.mp he with he | he
    · exact h.ranges e he
    · exact h'.ranges e he

theorem Marked.mono {m : Nat} (h : Marked m c stmts) (hle : m ≤ n) : Marked n c stmts :=
  ⟨h.marked, fun e he r her => (h.ranges e he r her).mono hle⟩

theorem Marked.one (op : Op) (hr : range.Within n) : Marked n (one op range) [] := by
  refine ⟨.nil, fun e he r her => ?_⟩
  cases List.mem_singleton.mp he
  cases her
  exact hr

theorem Marked.place (l : Label) : Marked n (place l) [] := by
  refine ⟨.nil, fun e he r her => ?_⟩
  cases List.mem_singleton.mp he
  cases her

theorem Marked.methodCall (method : String) (argc : Nat) (hr : range.Within n) :
    Marked n (methodCall method argc range) [] :=
  ((Marked.one _ hr).append (.one _ hr)).append (.one _ hr)

theorem Marked.ofIf {test : Bool} (h : Marked n c []) : Marked n (if test then c else []) [] := by
  cases test with
  | false => exact .nil
  | true => exact h

/-- the first instruction is marked -/
theorem Marked.start {form : StmtForm} {exits : List ExitScope} (h : Marked n c stmts)
    (hfronts : c = [] ∨ Fronts c) (hr : range.Within n) :
    Marked n (startStatement exits range c) (.node form range :: stmts) := by
  rcases hfronts with rfl | ⟨e, rest, rfl, hunmarked, hop⟩
  · refine ⟨?_, fun e he r her => ?_⟩
    · cases h.marked
      exact .cons ⟨rfl, rfl⟩ .nil
    · cases List.mem_singleton.mp he
      cases her
      exact hr
  · refine ⟨?_, List.forall_mem_cons.mpr ⟨fun r her => ?_, (List.forall_mem_cons.mp h.ranges).2⟩⟩
    · have hmarked := h.marked
      rw [List.filter_cons_of_neg (by rw [hunmarked]; nofun)] at hmarked
      exact .cons ⟨rfl, hop⟩ hmarked
    · cases her
      exact hr

theorem Fronts.one (h : op.isPlumbing = false) : Fronts (one op range) := ⟨_, _, rfl, rfl, h⟩

theorem Fronts.append (h : Fronts c) (c' : Code) : Fronts (c ++ c') := by
  obtain ⟨e, rest, rfl, h⟩ := h
  exact ⟨e, rest ++ c', rfl, h⟩

end

/-! ## what is made between two states of the builder -/

/-- the codes of the functions, in the order of the function table -/
def Builder.codes (b : Builder) : List Code := b.functions.toList.map FunctionCode.code

/-- the statements of what is made between two states of the builder -/
structure Makes (n : Nat) (b : Builder) (c : Code) (b' : Builder) (p : Points) : Prop where
  own : Marked n c p.own
  inner : ∃ more, b'.codes = b.codes ++ more ∧ List.Forall₂ (Marked n) more p.inner

namespace Makes

variable {n : Nat} {b b₁ b₂ b' : Builder} {c c₁ c₂ c' : Code} {p p' p₁ p₂ : Points}
  {range : TokenRange}

/-- no function is made -/
theorem plain (h : Marked n c []) (hb : b'.codes = b.codes) : Makes n b c b' .none :=
  ⟨h, [], by rw [hb, List.append_nil], .nil⟩

theorem trans (h : Makes n b c₁ b₁ p₁) (h' : Makes n b₁ c₂ b₂ p₂) :
    Makes n b (c₁ ++ c₂) b₂ (p₁ ++ p₂) := by
  obtain ⟨hown, more, hmore, hinner⟩ := h
  obtain ⟨hown', more', hmore', hinner'⟩ := h'
  refine ⟨hown.append hown', more ++ more', ?_, List.rel_append hinner hinner'⟩
  rw [hmore', hmore, List.append_assoc]

theorem more (h : Makes n b c b' p) (hc : Marked n c' []) : Makes n b (c ++ c') b' p := by
  have hown := h.own.append hc
  rw [List.append_nil] at hown
  exact ⟨hown, h.inner⟩

theorem behind (h : Makes n b c b' p) (hc : Marked n c' []) : Makes n b (c' ++ c) b' p :=
  ⟨hc.append h.own, h.inner⟩

theorem constant (h : Makes n b c b' p) (v : Value) (hr : range.Within n) :
    Makes n b (c ++ b'.constantCode v range) (b'.addConstant v) p :=
  ⟨(h.more (.one _ hr)).own, h.inner⟩

theorem labels {k : Nat} (h : Makes n (b.addLabels k) c b' p) : Makes n b c b' p := ⟨h.own, h.inner⟩

theorem addClass (h : Makes n b c b' p) (entry : ClassEntry) : Makes n b c (b'.addClass entry) p :=
  ⟨h.own, h.inner⟩

theorem mono {m : Nat} (h : Makes m b c b' p) (hle : m ≤ n) : Makes n b c b' p := by
  obtain ⟨hown, more, hmore, hinner⟩ := h
  exact ⟨hown.mono hle, more, hmore, hinner.imp fun _ _ hmarked => hmarked.mono hle⟩

/-- the same statements, said otherwise -/
theorem cast (h : Makes n b c b' p) (hp : p = p') : Makes n b c b' p' := hp ▸ h

theorem block (h : Makes n b c b' p) (hr : range.Within n) : Makes n b (blockCode range c) b' p :=
  (h.behind (.one _ hr)).more (.one _ hr)

/-- a statement is the first one of its code -/
theorem start {form : StmtForm} {exits : List ExitScope} (h : Makes n b c b' p)
    (hfronts : c = [] ∨ Fronts c) (hr : range.Within n) :
    Makes n b (startStatement exits range c) b' (⟨[.node form range], []⟩ ++ p) :=
  ⟨h.own.start hfronts hr, h.inner⟩

theorem close (h : Makes n b c b₁ p) (hr : range.Within n) (hc : Closes range c b₁ c' b') :
    Makes n b c' b' p := by
  cases hc with
  | already => exact h
  | added => exact (h.constant .undefined hr).more (.one _ hr)

theorem codes_fill (b : Builder) (k : Nat) (c : Code) : (b.fill k c).codes = b.codes.set k c := by
  refine List.ext_getElem? fun i => ?_
  rw [Builder.codes, Builder.codes, List.getElem?_set, List.getElem?_map, List.getElem?_map,
    Array.getElem?_toList, Array.getElem?_toList, Builder.fill, Array.getElem?_modify, List.length_map,
    Array.length_toList]
  split
  · next heq =>
    subst heq
    by_cases hk : k < b.functions.size
    · rw [if_pos hk, Array.getElem?_eq_getElem hk]
      rfl
    · rw [if_neg hk, Array.getElem?_eq_none (Nat.le_of_not_lt hk)]
      rfl
  · rfl

/-- a function takes its place without code, and gets its code later -/
theorem fill {name : String} {params : List String} (h : Makes n (b.reserve name params) c b' p) :
    Makes n b [] (b'.fill b.functions.size c) (.within p.sections) := by
  obtain ⟨hown, more, hmore, hinner⟩ := h
  have hreserved : (b.reserve name params).codes = b.codes ++ [[]] := by
    simp [Builder.codes, Builder.reserve]
  refine ⟨.nil, c :: more, ?_, .cons hown hinner⟩
  have hlength : b.functions.size = b.codes.length := by simp [Builder.codes]
  rw [codes_fill, hmore, hreserved, hlength, List.append_assoc, List.set_append_right _ _ (Nat.le_refl _),
    Nat.sub_self]
  rfl

theorem named {decl : FunctionDecl} (h : Makes n (b.named decl) c b' p) : Makes n b c b' p := by
  refine ⟨h.own, ?_⟩
  have hinner := h.inner
  unfold Builder.named at hinner
  split at hinner <;> exact hinner

/-! ### parts that may be missing -/

theorem valueOf {e : Option Expr} (hr : range.Within n)
    (hsome : ∀ e', e = some e' → Makes n b c b' (.within e'.sections))
    (hnone : e = none → c = b.constantCode .undefined range ∧ b' = b.addConstant .undefined) :
    Makes n b c b' (.within (Expr.sectionsOption e)) := by
  cases e with
  | some e => exact hsome e rfl
  | none =>
    obtain ⟨rfl, rfl⟩ := hnone rfl
    exact (plain .nil rfl : Makes n b [] b .none).constant .undefined hr

theorem ofOption {around : List Surround} {s : Option Stmt}
    (hsome : ∀ s', s = some s' → Makes n b c b' (s'.points around))
    (hnone : s = none → c = [] ∧ b' = b) : Makes n b c b' (Stmt.optionPoints around s) := by
  cases s with
  | some s => exact hsome s rfl
  | none =>
    obtain ⟨rfl, rfl⟩ := hnone rfl
    exact plain .nil rfl

theorem ofOptional (op : Op) {e : Option Expr} (hw : Expr.OptionWithin n e)
    (hsome : ∀ e', e = some e' → Makes n b c b' (.within e'.sections)) (hnone : e = none → b' = b) :
    Makes n b (optionalCode op e c) b' (.within (Expr.sectionsOption e)) := by
  cases e with
  | some e => exact (hsome e rfl).more (.one _ (Expr.Within.range hw))
  | none =>
    rw [hnone rfl]
    exact plain .nil rfl

theorem ofHandler {around : List Surround} {handler : Option CatchClause} (caught done uncaught : Label)
    (hw : CatchClause.OptionWithin n handler)
    (hsome : ∀ binding body r, handler = some (.mk binding body r) →
      Makes n b c b' (Stmt.allPoints around body))
    (hnone : handler = none → b' = b) :
    Makes n b (handlerCode caught done uncaught handler c) b' (CatchClause.points around handler) := by
  cases handler with
  | none =>
    rw [hnone rfl]
    exact plain .nil rfl
  | some clause =>
    obtain ⟨binding, body, r⟩ := clause
    have hr : r.Within n := hw.1
    have hbinding : Marked n (bindingCode binding r) [] := by
      cases binding with
      | none => exact .one _ hr
      | some name => exact ((Marked.one _ hr).append (.one _ hr)).append (.one _ hr)
    have hfront := (((Marked.place caught).append (.one .enterScope hr)).append hbinding).append
      (.one (.enterTry uncaught) hr)
    exact ((((hsome binding body r rfl).behind hfront).more (.one _ hr)).more (.one _ hr)).more (.one _ hr)

theorem ofFinalizer {around : List Surround} {finalizer : Option (List Stmt)} (hr : range.Within n)
    (hsome : ∀ body, finalizer = some body → Makes n b c b' (Stmt.allPoints around body))
    (hnone : finalizer = none → b' = b) :
    Makes n b (finalCode range finalizer c) b' (Stmt.finalPoints around finalizer) := by
  cases finalizer with
  | none =>
    rw [hnone rfl]
    exact plain .nil rfl
  | some body => exact (hsome body rfl).block hr

/-- the parts of a `try` in the order of their code -/
theorem guarded {b₃ : Builder} {p₃ p₄ : Points} {start done uncaught : Label} {handled : Bool}
    {body handler rethrow final : Code} (hr : range.Within n) (hbody : Makes n b body b₁ p₁)
    (hhandler : Makes n b₁ handler b₂ p₂) (hrethrow : Makes n b₂ rethrow b₃ p₃)
    (hfinal : Makes n b₃ final b' p₄) :
    Makes n b (tryCode start done uncaught handled range body handler rethrow final) b'
      (p₁ ++ p₂ ++ p₃ ++ p₄) := by
  have hentered := (hbody.block hr).behind (.one (.enterTry start) hr)
  have hguarded := (hentered.more (.one .leaveTry hr)).more (.one (.jump done) hr)
  have hcaught := (hguarded.trans hhandler).more (.place uncaught)
  exact ((((hcaught.more (.ofIf (.one _ hr))).trans hrethrow).more (.one _ hr)).more (.place _)).trans hfinal

end Makes

/-! ## first instructions -/

theorem Fronts.ofLogical (op : LogicalOp) (decided done : Label) (range : TokenRange) {left : Code}
    (right literal : Code) (h : Fronts left) :
    Fronts (logicalCode op decided done range left right literal) :=
  (((((h.append _).append _).append _).append _).append _).append _

mutual

/-- an expression has code, which starts with an instruction of its own -/
theorem ExprCode.fronts {ctx : Context} {e : Expr} {b b' : Builder} {c : Code}
    (h : ExprCode ctx e b c b') : Fronts c := by
  match h with
  | .literal _ | .variable | .this | .function _ => exact .one rfl
  | .assignVariable hv => exact hv.fronts.append _
  | .assignMember ho _ => exact (ho.fronts.append _).append _
  | .assignIndex ho _ _ => exact ((ho.fronts.append _).append _).append _
  | .binary hl _ => exact (hl.fronts.append _).append _
  | .logical hl _ => exact .ofLogical _ _ _ _ _ _ hl.fronts
  | .unary h => exact h.fronts.append _
  | .callMember _ ho _ => exact (ho.fronts.append _).append _
  | .callVariable _ ha =>
    rcases ha.fronts with rfl | ha
    · exact (Fronts.one rfl).append _
    · exact (ha.append _).append _
  | .callValue _ _ ha hc =>
    rcases ha.fronts with rfl | ha
    · exact hc.fronts.append _
    · exact (ha.append _).append _
  | .member ho => exact ho.fronts.append _
  | .index ho _ => exact (ho.fronts.append _).append _
  | .new _ _ => exact (((((Fronts.one rfl).append _).append _).append _).append _).append _
  | .array ha =>
    rcases ha.fronts with rfl | ha
    · exact .one rfl
    · exact ha.append _

theorem ArgsCode.fronts {ctx : Context} {es : List Expr} {b b' : Builder} {c : Code}
    (h : ArgsCode ctx es b c b') : c = [] ∨ Fronts c := by
  match h with
  | .nil => exact .inl rfl
  | .cons hr he =>
    rcases hr.fronts with rfl | hr
    · exact .inr he.fronts
    · exact .inr (hr.append _)

end

/-- a missing value is a constant -/
theorem fronts_value {ctx : Context} {value : Option Expr} {b b' : Builder} {c : Code} {range : TokenRange}
    (hsome : ∀ e, value = some e → ExprCode ctx e b c b')
    (hnone : value = none → c = b.constantCode .undefined range ∧ b' = b.addConstant .undefined) :
    Fronts c := by
  cases value with
  | some e => exact (hsome e rfl).fronts
  | none =>
    obtain ⟨rfl, -⟩ := hnone rfl
    exact .one rfl

/-- what a jump leaves on its way to a loop is no loop -/
theorem fronts_cross {ctx : Context} {range : TokenRange} {crossed outer : List ExitScope}
    {b b' : Builder} {c : Code} (h : CrossCode ctx range crossed outer b c b')
    (hloop : ∀ scope ∈ crossed, scope.isLoop = false) (hsome : crossed ≠ []) : Fronts c := by
  cases h with
  | nil => exact absurd rfl hsome
  | loop h => cases hloop _ (List.mem_cons_self ..)
  | pendingThrow h | guarded h => exact (Fronts.one rfl).append _
  | finalizer hb h => exact ((Fronts.one rfl).append _).append _

/-- the code of a statement is empty or starts with an instruction of its own -/
theorem FormCode.fronts {ctx : Context} {range : TokenRange} {form : StmtForm} {b b' : Builder}
    {c : Code} (h : FormCode ctx range form b c b') : c = [] ∨ Fronts c := by
  cases h with
  | expression h | throwValue h => exact .inr (h.fronts.append _)
  | varDecl _ _ => exact .inr ((((Fronts.one rfl).append _).append _).append _)
  | ifOnly ht _ => exact .inr (((ht.fronts.append _).append _).append _)
  | ifElse ht _ _ => exact .inr ((((((ht.fronts.append _).append _).append _).append _).append _).append _)
  | whileLoop _ _ =>
    refine .inr ?_
    unfold whileCode
    simp only [List.append_assoc]
    exact (Fronts.one rfl).append _
  | forLoop _ _ _ _ _ _ _ =>
    refine .inr ?_
    unfold forCode
    simp only [List.append_assoc]
    exact (Fronts.one rfl).append _
  | jump _ _ => exact .inr (.one rfl)
  | jumpCrossing _ hneed hc =>
    refine .inr ((fronts_cross hc ?_ ?_).append _)
    · intro scope hscope
      simpa using List.mem_takeWhile_imp hscope
    · intro hnil
      rw [hnil] at hneed
      cases hneed
  | returnValue _ hsome hnone _ => exact .inr ((fronts_value hsome hnone).append _)
  | returnCrossing _ hsome hnone _ _ =>
    refine .inr ?_
    unfold returnCode
    simp only [List.append_assoc]
    exact (fronts_value hsome hnone).append _
  | tryCatch _ _ _ _ _ _ _ =>
    refine .inr ?_
    unfold tryCode
    simp only [List.append_assoc]
    exact (Fronts.one rfl).append _
  | function _ _ | classDecl _ _ | classPlain _ _ _ | empty => exact .inl rfl
  | debugger => exact .inr (.one rfl)

/-! ## the rules -/

/-- the finalizer that has still to run is among the first `n` tokens -/
def ExitScope.Within (n : Nat) : ExitScope → Prop
  | .guarded finalizer => Stmt.BodyWithin n finalizer
  | _ => True

/-- the constructor of a class is one of its methods -/
theorem MethodsAdded.any_constructor {ctx : Context} {className : String} {decls : List FunctionDecl}
    {b b' : Builder} {methods : List (String × Nat)} (h : MethodsAdded ctx className decls b methods b') :
    (decls.any fun decl => decl.name? = some constructorName) = methods.any (·.1 = constructorName) := by
  induction decls generalizing b methods with
  | nil =>
    cases h
    rfl
  | cons decl rest ih =>
    cases h with
    | cons hname _ hr =>
      rw [List.any_cons, List.any_cons, ih hr, hname]
      simp only [Option.some.injEq]

theorem sections_of_literal {form : ExprForm} {v : Value} (h : form.literal? = some v) :
    form.sections = [] := by
  cases form <;> first | rfl | cases h

/-- a callee that is no path is evaluated behind the arguments -/
theorem sectionsCalled_of_plain {callee : Expr} (h : callee.form.isPath = false)
    (args : List (List Stmt)) : callee.sectionsCalled args = args ++ callee.sections := by
  obtain ⟨form, range⟩ := callee
  cases form <;> first | rfl | cases h

theorem points_of_form {form : StmtForm} (h : ∀ body, form ≠ .block body) (range : TokenRange)
    (around : List Surround) : Stmt.points around (.node form range)
      = ⟨[.node form range], []⟩ ++ form.points around := by
  cases form <;> first | rfl | exact absurd rfl (h _)

/-- a jump runs the finalizers inside the loop -/
theorem points_of_jump {exits : List ExitScope} {form : StmtForm} {l : Label}
    (h : loopTarget? exits form = some l) :
    form.points (Surround.ofExits exits)
      = .crossed ((Surround.ofExits (insideLoop exits ++ fromLoop exits)).take
          (insideLoop exits).length) := by
  rw [insideLoop_append_fromLoop, ← Points.takeWhile_ofExits]
  cases form <;> first | rfl | cases h

section
variable {n : Nat}

mutual

theorem ExprCode.makes {ctx : Context} {e : Expr} {b b' : Builder} {c : Code}
    (h : ExprCode ctx e b c b') (hw : e.Within n) : Makes n b c b' (.within e.sections) := by
  have hr := hw.range
  match h with
  | .literal hv =>
    have hnone : Makes n b [] b .none := .plain .nil rfl
    exact (hnone.constant _ hr).cast (congrArg Points.within (sections_of_literal hv).symm)
  | .variable | .this => exact .plain (.one _ hr) rfl
  | .assignVariable hv => exact (hv.makes hw.2.2).more (.one _ hr)
  | .assignMember ho hv => exact ((ho.makes hw.2.1.2).trans (hv.makes hw.2.2)).more (.one _ hr)
  | .assignIndex ho hv hk =>
    exact (((ho.makes hw.2.1.2.1).trans (hv.makes hw.2.2)).trans (hk.makes hw.2.1.2.2)).more
      (.methodCall _ _ hr)
  | .binary hl hr' => exact ((hl.makes hw.2.1).trans (hr'.makes hw.2.2)).more (.one _ hr)
  | .logical hl hr' =>
    exact ((((((hl.makes hw.2.1).labels.more (.one _ hr)).trans (hr'.makes hw.2.2)).more (.one _ hr)).more
      (.place _)).constant _ hr).more (.place _)
  | .unary h => exact (h.makes hw.2).more (.one _ hr)
  | .callMember _ ho ha =>
    exact ((ho.makes hw.2.1.2).trans (ha.makes hw.2.2)).more (.methodCall _ _ hr)
  | .callVariable _ ha => exact ((ha.makes hw.2.2).more (.one _ hr)).more (.one _ hr)
  | .callValue _ hplain ha hc =>
    refine (((ha.makes hw.2.2).trans (hc.makes hw.2.1)).more (.one _ hr)).cast ?_
    exact congrArg Points.within (sectionsCalled_of_plain hplain _).symm
  | .member ho => exact (ho.makes hw.2).more (.one _ hr)
  | .index ho hk => exact ((ho.makes hw.2.1).trans (hk.makes hw.2.2)).more (.methodCall _ _ hr)
  | .new _ ha =>
    refine (((Makes.behind (ha.makes hw.2) ?_).more (.one _ hr)).more (.one _ hr)).more (.one _ hr)
    exact (Marked.one _ hr).append (.one _ hr)
  | .function hf => exact ((hf.makes hw.2).more (.one _ hr)).named
  | .array ha => exact (ha.makes hw.2).more (.one _ hr)

theorem ArgsCode.makes {ctx : Context} {es : List Expr} {b b' : Builder} {c : Code}
    (h : ArgsCode ctx es b c b') (hw : Expr.AllWithin n es) :
    Makes n b c b' (.within (Expr.sectionsReversed es)) := by
  match h with
  | .nil => exact .plain .nil rfl
  | .cons hr he => exact (hr.makes hw.2).trans (he.makes hw.1)

theorem FunctionAdded.makes {ctx : Context} {name : String} {decl : FunctionDecl} {b b' : Builder}
    {i : Nat} (h : FunctionAdded ctx name decl b i b') (hw : decl.Within n) :
    Makes n b [] b' (.within decl.sections) := by
  match h with
  | .mk _ hb hc => exact ((hb.makes nofun hw.2).close hw.1.last hc).fill

theorem MethodsAdded.makes {ctx : Context} {className : String} {decls : List FunctionDecl}
    {b b' : Builder} {methods : List (String × Nat)}
    (h : MethodsAdded ctx className decls b methods b') (hw : FunctionDecl.AllWithin n decls) :
    Makes n b [] b' (.within (FunctionDecl.allSections decls)) := by
  match h with
  | .nil => exact .plain .nil rfl
  | .cons _ hf hr => exact (hf.makes hw.1).trans (hr.makes hw.2)

theorem StmtCode.makes {ctx : Context} {stmt : Stmt} {b b' : Builder} {c : Code}
    (h : StmtCode ctx stmt b c b') (hctx : ∀ scope ∈ ctx.exits, scope.Within n) (hw : stmt.Within n) :
    Makes n b c b' (stmt.points (Surround.ofExits ctx.exits)) := by
  match h with
  | .block h => exact (h.makes hctx hw.2).block hw.1
  | .form hform h =>
    have hcode := h.makes hctx hw.1 hw.2
    rw [points_of_form hform]
    exact hcode.start h.fronts hw.1

theorem BodyCode.makes {ctx : Context} {body : List Stmt} {b b' : Builder} {c : Code}
    (h : BodyCode ctx body b c b') (hctx : ∀ scope ∈ ctx.exits, scope.Within n)
    (hw : Stmt.AllWithin n body) : Makes n b c b' (Stmt.allPoints (Surround.ofExits ctx.exits) body) := by
  match h with
  | .nil => exact .plain .nil rfl
  | .cons hs hr => exact (hs.makes hctx hw.1).trans (hr.makes hctx hw.2)

theorem FormCode.makes {ctx : Context} {range : TokenRange} {form : StmtForm} {b b' : Builder}
    {c : Code} (h : FormCode ctx range form b c b') (hctx : ∀ scope ∈ ctx.exits, scope.Within n)
    (hr : range.Within n) (hw : form.Within n) :
    Makes n b c b' (form.points (Surround.ofExits ctx.exits)) := by
  have hinside {scope : ExitScope} (hscope : scope.Within n) :
      ∀ s ∈ (ctx.inside scope).exits, s.Within n := List.forall_mem_cons.mpr ⟨hscope, hctx⟩
  match h with
  | .expression h => exact (h.makes hw).more (.one _ hr)
  | .varDecl hsome hnone =>
    have hvalue := Makes.valueOf hr (fun e he => (hsome e he).makes (by cases he; exact hw)) hnone
    exact ((hvalue.behind (.one _ hr)).more (.one _ hr)).more (.one _ hr)
  | .ifOnly ht hs =>
    refine Makes.cast ?_ (Points.append_none _).symm
    exact (((ht.makes hw.1).labels.more (.one _ hw.1.range)).trans (hs.makes hctx hw.2.1)).more (.place _)
  | .ifElse ht hs he =>
    have htest := (ht.makes hw.1).labels.more (.one (.jumpFalse b.nextLabel) hw.1.range)
    have helse := (he.makes hctx hw.2.2).labels
    exact (((((htest.trans (hs.makes hctx hw.2.1)).more (.one _ hr)).more (.place _)).trans helse)).more
      (.place _)
  | .whileLoop ht hs =>
    have hfront := (Marked.one .loopStart hr).append (.place b.nextLabel)
    have hout := Marked.one (.jumpFalse (b.nextLabel + 1)) hw.1.range
    have htest := (((ht.makes hw.1).behind hfront).more hout).labels
    have hbody := hs.makes (hinside trivial) hw.2
    exact (((htest.trans hbody).more (.one _ hr)).more (.place _)).more (.one _ hr)
  | .forLoop hisome hinone htsome htnone hs husome hunone =>
    obtain ⟨hwi, hwt, hwu, hwb⟩ := hw
    have hinit := Makes.ofOption (fun s h => (hisome s h).makes hctx (by cases h; exact hwi)) hinone
    have htest := Makes.ofOptional (.jumpFalse (b.nextLabel + 2)) hwt
      (fun e h => (htsome e h).makes (by cases h; exact hwt)) htnone
    have hbody := hs.makes (hinside trivial) hwb
    have hupdate := Makes.ofOptional .pop hwu
      (fun e h => (husome e h).makes (by cases h; exact hwu)) hunone
    have hstart := ((hinit.labels.behind (.one .enterScope hr)).more (.one .loopStart hr)).more
      (.place b.nextLabel)
    have hloop := (((hstart.trans htest).trans hbody).more (.place (b.nextLabel + 1))).trans hupdate
    exact (((hloop.more (.one _ hr)).more (.place _)).more (.one _ hr)).more (.one _ hr)
  | .jump ht hclean =>
    rw [points_of_jump ht, Points.crossed_of_clean _ hclean]
    exact .plain (.one _ hr) rfl
  | .jumpCrossing ht _ hc =>
    rw [points_of_jump ht]
    refine (hc.makes ?_ hr).more (.one _ hr)
    rw [insideLoop_append_fromLoop]
    exact hctx
  | .returnValue _ hsome hnone hclean =>
    have hvalue := Makes.valueOf hr (fun e he => (hsome e he).makes (by cases he; exact hw)) hnone
    have hcrossed := Points.crossed_of_clean [] hclean
    rw [List.append_nil, Points.take_ofExits] at hcrossed
    rw [StmtForm.points, hcrossed, Points.append_none]
    exact hvalue.more (.one _ hr)
  | .returnCrossing _ hsome hnone _ hc =>
    have hvalue := Makes.valueOf hr (fun e he => (hsome e he).makes (by cases he; exact hw)) hnone
    have hcross := hc.makes (by rw [List.append_nil]; exact hctx) hr
    rw [List.append_nil, Points.take_ofExits] at hcross
    have hkept := hvalue.more (.one (.declare returnSlot) hr)
    have hstored := (hkept.more (.one (.store returnSlot false) hr)).more (.one .pop hr)
    exact ((hstored.trans hcross).more (.one _ hr)).more (.one _ hr)
  | .throwValue h => exact (h.makes hw).more (.one _ hr)
  | .tryCatch hb hhsome hhnone hrsome hrnone hfsome hfnone =>
    obtain ⟨hwb, hwh, hwf⟩ := hw
    have hbody := (hb.makes (hinside hwf) hwb).labels
    have hhandler := Makes.ofHandler b.nextLabel (b.nextLabel + 1) (b.nextLabel + 2) hwh
      (fun n s r h => (hhsome n s r h).makes (hinside hwf) (by cases h; exact hwh.2)) hhnone
    have hrethrow := Makes.ofFinalizer hr
      (fun s h => (hrsome s h).makes (hinside trivial) (by cases h; exact hwf)) hrnone
    have hfinal := Makes.ofFinalizer hr (fun s h => (hfsome s h).makes hctx (by cases h; exact hwf)) hfnone
    exact .guarded hr hbody hhandler hrethrow hfinal
  | .function _ hf => exact hf.makes hw
  | .classDecl hm hc =>
    refine ((hm.makes hw).addClass _).cast (congrArg Points.within ?_)
    rw [defaultSections, hm.any_constructor, if_pos hc, List.append_nil]
  | .classPlain hm hc hb =>
    have hplain := (Makes.plain .nil rfl : Makes n (Builder.reserve _ _ _) [] _ .none).close hr.last hb
    refine (((hm.makes hw).trans hplain.fill).addClass _).cast (congrArg Points.within ?_)
    rw [defaultSections, hm.any_constructor, if_neg (by rw [hc]; nofun)]
    rfl
  | .debugger => exact .plain (.one _ hr) rfl
  | .empty => exact .plain .nil rfl

theorem CrossCode.makes {ctx : Context} {range : TokenRange} {crossed outer : List ExitScope}
    {b b' : Builder} {c : Code} (h : CrossCode ctx range crossed outer b c b')
    (hctx : ∀ scope ∈ crossed ++ outer, scope.Within n) (hr : range.Within n) :
    Makes n b c b' (.crossed ((Surround.ofExits (crossed ++ outer)).take crossed.length)) := by
  match h with
  | .nil => exact .plain .nil rfl
  | .loop h | .pendingThrow h | .guarded h =>
    exact (h.makes (List.forall_mem_cons.mp hctx).2 hr).behind (.one _ hr)
  | .finalizer hb h =>
    obtain ⟨hw, hctx⟩ := List.forall_mem_cons.mp hctx
    have hfinal := (((hb.makes hctx hw).block hr).behind (.one .leaveTry hr))
    exact hfinal.trans (h.makes hctx hr)

end

end

end ScriptMachine
