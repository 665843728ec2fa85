import ScriptMachine.Compile.Code
import ScriptMachine.Proofs.Meaning.Evaluator

/-!
# Structured programs

The programs that the evaluator gives a meaning to.  Functions stand at the top, and are called by
their names.  Every name is declared once, and what is declared inside a scope is mentioned only
inside of it.

* `mentions`        the names that stand in a construct;
* `direct`, `inner` the names that a statement declares in the scope around it, and in scopes of its
                    own;
* `InLanguage`      only forms that the evaluator knows;
* `Scoped`          names are mentioned only where they are declared;
* `Apart`           a finalizer mentions nothing that its region or its handler declares;
* `Structured`      the programs of the language;
* `Structured.apart`   in a structured program finalizers are apart.
-/

namespace ScriptMachine

/-! ## names -/

mutual

def Expr.mentions : Expr → List String
  | .node form _ => form.mentions

def ExprForm.mentions : ExprForm → List String
  | .variable name => [name]
  | .assign target value => target.mentions ++ value.mentions
  | .binary _ left right => left.mentions ++ right.mentions
  | .logical _ left right => left.mentions ++ right.mentions
  | .unary _ operand => operand.mentions
  | .call callee args => callee.mentions ++ Expr.mentionsAll args
  | .member object _ => object.mentions
  | .index object key => object.mentions ++ key.mentions
  | .array elements => Expr.mentionsAll elements
  | _ => []

def Expr.mentionsAll : List Expr → List String
  | [] => []
  | e :: rest => e.mentions ++ Expr.mentionsAll rest

end

def Expr.mentionsOption (e : Option Expr) : List String := (e.map Expr.mentions).getD []

mutual

def Stmt.mentions : Stmt → List String
  | .node form _ => form.mentions

def StmtForm.mentions : StmtForm → List String
  | .expression e => e.mentions
  | .varDecl name init => name :: Expr.mentionsOption init
  | .block body => Stmt.mentionsAll body
  | .ifElse test thenBranch elseBranch =>
    test.mentions ++ thenBranch.mentions ++ Stmt.mentionsOption elseBranch
  | .whileLoop test body => test.mentions ++ body.mentions
  | .forLoop init test update body =>
    Stmt.mentionsOption init ++ Expr.mentionsOption test ++ Expr.mentionsOption update ++ body.mentions
  | .returnValue value => Expr.mentionsOption value
  | .throwValue value => value.mentions
  | .tryCatch body handler finalizer =>
    Stmt.mentionsAll body ++ CatchClause.mentionsOption handler ++ Stmt.mentionsBody finalizer
  | _ => []

def Stmt.mentionsAll : List Stmt → List String
  | [] => []
  | stmt :: rest => stmt.mentions ++ Stmt.mentionsAll rest

def Stmt.mentionsOption : Option Stmt → List String
  | some stmt => stmt.mentions
  | none => []

def CatchClause.mentionsOption : Option CatchClause → List String
  | some (.mk binding body _) => binding.toList ++ Stmt.mentionsAll body
  | none => []

def Stmt.mentionsBody : Option (List Stmt) → List String
  | some body => Stmt.mentionsAll body
  | none => []

end

mutual

/-- the names that a statement declares in the scope that it stands in -/
def Stmt.direct : Stmt → List String
  | .node form _ => form.direct

def StmtForm.direct : StmtForm → List String
  | .varDecl name _ => [name]
  | .ifElse _ thenBranch elseBranch => thenBranch.direct ++ Stmt.directOption elseBranch
  | .whileLoop _ body => body.direct
  | .function decl => decl.name?.toList
  | _ => []

def Stmt.directOption : Option Stmt → List String
  | some stmt => stmt.direct
  | none => []

end

def Stmt.directAll (body : List Stmt) : List String := body.flatMap Stmt.direct

/-- the names of a `for` -/
def forNames (init : Option Stmt) (body : Stmt) : List String :=
  Stmt.directOption init ++ body.direct

/-- the names of a handler -/
def catchNames (binding : Option String) (body : List Stmt) : List String :=
  binding.toList ++ Stmt.directAll body

mutual

/-- the names that are declared in scopes inside a statement -/
def Stmt.inner : Stmt → List String
  | .node form _ => form.inner

def StmtForm.inner : StmtForm → List String
  | .block body => Stmt.directAll body ++ Stmt.innerAll body
  | .ifElse _ thenBranch elseBranch => thenBranch.inner ++ Stmt.innerOption elseBranch
  | .whileLoop _ body => body.inner
  | .forLoop init _ _ body => forNames init body ++ Stmt.innerOption init ++ body.inner
  | .tryCatch body handler finalizer =>
    Stmt.directAll body ++ Stmt.innerAll body ++ CatchClause.innerOption handler
      ++ Stmt.innerBody finalizer
  | .function decl => decl.inner
  | _ => []

def Stmt.innerAll : List Stmt → List String
  | [] => []
  | stmt :: rest => stmt.inner ++ Stmt.innerAll rest

def Stmt.innerOption : Option Stmt → List String
  | some stmt => stmt.inner
  | none => []

def CatchClause.innerOption : Option CatchClause → List String
  | some (.mk binding body _) => catchNames binding body ++ Stmt.innerAll body
  | none => []

def Stmt.innerBody : Option (List Stmt) → List String
  | some body => Stmt.directAll body ++ Stmt.innerAll body
  | none => []

def FunctionDecl.inner : FunctionDecl → List String
  | .mk _ params body _ => params ++ Stmt.directAll body ++ Stmt.innerAll body

end

/-! ## the language -/

/-- a name that a script can have; the hidden variable and `this` are no such names -/
def Proper (name : String) : Prop := name ≠ returnSlot ∧ name ≠ "this"

instance (name : String) : Decidable (Proper name) :=
  inferInstanceAs (Decidable (name ≠ returnSlot ∧ name ≠ "this"))

mutual

/-- An expression of the language.  No literal spells the negative zero. -/
def Expr.InLanguage : Expr → Prop
  | .node form _ => form.InLanguage

def ExprForm.InLanguage : ExprForm → Prop
  | .number x => x ≠ -0
  | .string _ => True
  | .bool _ => True
  | .null => True
  | .undefined => True
  | .variable name => Proper name
  | .assign (.node (.variable name) _) value => Proper name ∧ value.InLanguage
  | .assign (.node (.index object key) _) value =>
    object.InLanguage ∧ value.InLanguage ∧ key.InLanguage
  | .binary _ left right => left.InLanguage ∧ right.InLanguage
  | .logical _ left right => left.InLanguage ∧ right.InLanguage
  | .unary _ operand => operand.InLanguage
  | .call (.node (.variable name) _) args => Proper name ∧ Expr.AllInLanguage args
  | .member object _ => object.InLanguage
  | .index object key => object.InLanguage ∧ key.InLanguage
  | .array elements => Expr.AllInLanguage elements
  | _ => False

def Expr.AllInLanguage : List Expr → Prop
  | [] => True
  | e :: rest => e.InLanguage ∧ Expr.AllInLanguage rest

end

def Expr.OptionInLanguage : Option Expr → Prop
  | some e => e.InLanguage
  | none => True

mutual

def Stmt.InLanguage : Stmt → Prop
  | .node form _ => form.InLanguage

def StmtForm.InLanguage : StmtForm → Prop
  | .expression e => e.InLanguage
  | .varDecl name init => Proper name ∧ Expr.OptionInLanguage init
  | .block body => Stmt.AllInLanguage body
  | .ifElse test thenBranch elseBranch =>
    test.InLanguage ∧ thenBranch.InLanguage ∧ Stmt.OptionInLanguage elseBranch
  | .whileLoop test body => test.InLanguage ∧ body.InLanguage
  | .forLoop init test update body =>
    Stmt.OptionInLanguage init ∧ Expr.OptionInLanguage test ∧ Expr.OptionInLanguage update
      ∧ body.InLanguage
  | .breakLoop => True
  | .continueLoop => True
  | .returnValue value => Expr.OptionInLanguage value
  | .throwValue value => value.InLanguage
  | .tryCatch body handler finalizer =>
    Stmt.AllInLanguage body ∧ CatchClause.OptionInLanguage handler
      ∧ Stmt.BodyInLanguage finalizer
  | .empty => True
  | _ => False

def Stmt.AllInLanguage : List Stmt → Prop
  | [] => True
  | stmt :: rest => stmt.InLanguage ∧ Stmt.AllInLanguage rest

def Stmt.OptionInLanguage : Option Stmt → Prop
  | some stmt => stmt.InLanguage
  | none => True

def CatchClause.OptionInLanguage : Option CatchClause → Prop
  | some (.mk binding body _) => (∀ name ∈ binding, Proper name) ∧ Stmt.AllInLanguage body
  | none => True

def Stmt.BodyInLanguage : Option (List Stmt) → Prop
  | some body => Stmt.AllInLanguage body
  | none => True

end

/-- a function whose body is in the language -/
def FunctionDecl.InLanguage : FunctionDecl → Prop
  | .mk name params body _ =>
    name.isSome ∧ (∀ param ∈ params, Proper param) ∧ Stmt.AllInLanguage body

/-- a statement of a program; only here functions are declared -/
def Stmt.TopInLanguage (stmt : Stmt) : Prop :=
  match stmt.form with
  | .function decl => decl.InLanguage
  | _ => stmt.InLanguage

/-! ## scopes -/

/-- of the declared names only visible ones are mentioned -/
def Sighted (declared visible mentioned : List String) : Prop :=
  ∀ name ∈ mentioned, name ∈ declared → name ∈ visible

instance (declared visible mentioned : List String) :
    Decidable (Sighted declared visible mentioned) :=
  inferInstanceAs (Decidable (∀ name ∈ mentioned, name ∈ declared → name ∈ visible))

mutual

/-- Of the declared names a statement mentions only those that are visible where it does.  Names that
are declared in a block, a `for`, a handler or a function are visible inside of it. -/
def Stmt.Scoped (declared visible : List String) : Stmt → Prop
  | .node form _ => form.Scoped declared visible

def StmtForm.Scoped (declared visible : List String) : StmtForm → Prop
  | .expression e => Sighted declared visible e.mentions
  | .varDecl _ init => Sighted declared visible (Expr.mentionsOption init)
  | .block body => Stmt.AllScoped declared (Stmt.directAll body ++ visible) body
  | .ifElse test thenBranch elseBranch =>
    Sighted declared visible test.mentions ∧ thenBranch.Scoped declared visible
      ∧ Stmt.OptionScoped declared visible elseBranch
  | .whileLoop test body => Sighted declared visible test.mentions ∧ body.Scoped declared visible
  | .forLoop init test update body =>
    Stmt.OptionScoped declared (forNames init body ++ visible) init
      ∧ Sighted declared (forNames init body ++ visible) (Expr.mentionsOption test)
      ∧ Sighted declared (forNames init body ++ visible) (Expr.mentionsOption update)
      ∧ body.Scoped declared (forNames init body ++ visible)
  | .returnValue value => Sighted declared visible (Expr.mentionsOption value)
  | .throwValue value => Sighted declared visible value.mentions
  | .tryCatch body handler finalizer =>
    Stmt.AllScoped declared (Stmt.directAll body ++ visible) body
      ∧ CatchClause.OptionScoped declared visible handler
      ∧ Stmt.BodyScoped declared visible finalizer
  | .function decl => decl.Scoped declared visible
  | _ => True

def Stmt.AllScoped (declared visible : List String) : List Stmt → Prop
  | [] => True
  | stmt :: rest => stmt.Scoped declared visible ∧ Stmt.AllScoped declared visible rest

def Stmt.OptionScoped (declared visible : List String) : Option Stmt → Prop
  | some stmt => stmt.Scoped declared visible
  | none => True

def CatchClause.OptionScoped (declared visible : List String) : Option CatchClause → Prop
  | some (.mk binding body _) => Stmt.AllScoped declared (catchNames binding body ++ visible) body
  | none => True

def Stmt.BodyScoped (declared visible : List String) : Option (List Stmt) → Prop
  | some body => Stmt.AllScoped declared (Stmt.directAll body ++ visible) body
  | none => True

def FunctionDecl.Scoped (declared visible : List String) : FunctionDecl → Prop
  | .mk _ params body _ => Stmt.AllScoped declared (params ++ Stmt.directAll body ++ visible) body

end

/-- all names that a program declares -/
def declaredNames (body : List Stmt) : List String := Stmt.directAll body ++ Stmt.innerAll body

/-- a program of the language -/
structure Structured (body : List Stmt) : Prop where
  language : ∀ stmt ∈ body, stmt.TopInLanguage
  /-- every name is declared once -/
  once : (declaredNames body).Nodup
  print : Linked.printName ∉ declaredNames body
  /-- the names of the global scope are visible everywhere -/
  sighted : Stmt.AllScoped (declaredNames body) (Stmt.directAll body) body

/-! ## finalizers are apart -/

mutual

/-- no finalizer mentions a name that is declared in its region or its handler -/
def Stmt.Apart : Stmt → Prop
  | .node form _ => form.Apart

def StmtForm.Apart : StmtForm → Prop
  | .block body => Stmt.AllApart body
  | .ifElse _ thenBranch elseBranch => thenBranch.Apart ∧ Stmt.OptionApart elseBranch
  | .whileLoop _ body => body.Apart
  | .forLoop init _ _ body => Stmt.OptionApart init ∧ body.Apart
  | .tryCatch body handler finalizer =>
    Stmt.AllApart body ∧ CatchClause.OptionApart handler ∧ Stmt.BodyApart finalizer
      ∧ ∀ name ∈ Stmt.mentionsBody finalizer,
        name ∉ Stmt.directAll body ++ Stmt.innerAll body ++ CatchClause.innerOption handler
  | .function decl => decl.Apart
  | _ => True

def Stmt.AllApart : List Stmt → Prop
  | [] => True
  | stmt :: rest => stmt.Apart ∧ Stmt.AllApart rest

def Stmt.OptionApart : Option Stmt → Prop
  | some stmt => stmt.Apart
  | none => True

def CatchClause.OptionApart : Option CatchClause → Prop
  | some (.mk _ body _) => Stmt.AllApart body
  | none => True

def Stmt.BodyApart : Option (List Stmt) → Prop
  | some body => Stmt.AllApart body
  | none => True

def FunctionDecl.Apart : FunctionDecl → Prop
  | .mk _ _ body _ => Stmt.AllApart body

end

section
variable {declared : List String}

mutual

/-- a declared name that is mentioned in a statement is visible around it or declared in it -/
theorem Stmt.mem_of_mentions {visible : List String} (s : Stmt) (h : s.Scoped declared visible)
    {name : String} (hname : name ∈ s.mentions) (hd : name ∈ declared) :
    name ∈ visible ∨ name ∈ s.direct ∨ name ∈ s.inner := by
  match s with
  | .node form range => exact StmtForm.mem_of_mentions form h hname hd

theorem StmtForm.mem_of_mentions {visible : List String} (form : StmtForm)
    (h : form.Scoped declared visible) {name : String} (hname : name ∈ form.mentions)
    (hd : name ∈ declared) : name ∈ visible ∨ name ∈ form.direct ∨ name ∈ form.inner := by
  match form with
  | .expression e => exact .inl (h name hname hd)
  | .varDecl x init =>
    rcases List.mem_cons.mp hname with rfl | hname
    · exact .inr (.inl List.mem_cons_self)
    · exact .inl (h name hname hd)
  | .block body =>
    have hbody := Stmt.mem_of_mentionsAll body h hname hd
    simp only [StmtForm.inner, List.mem_append] at hbody ⊢
    tauto
  | .ifElse test thenBranch elseBranch =>
    obtain ⟨ht, hs, he⟩ := h
    simp only [StmtForm.mentions, List.mem_append] at hname
    simp only [StmtForm.direct, StmtForm.inner, List.mem_append]
    rcases hname with (hname | hname) | hname
    · exact .inl (ht name hname hd)
    · have hthen := Stmt.mem_of_mentions thenBranch hs hname hd
      tauto
    · have helse := Stmt.mem_of_mentionsOption elseBranch he hname hd
      tauto
  | .whileLoop test body =>
    obtain ⟨ht, hs⟩ := h
    rcases List.mem_append.mp hname with hname | hname
    · exact .inl (ht name hname hd)
    · exact Stmt.mem_of_mentions body hs hname hd
  | .forLoop init test update body =>
    obtain ⟨hi, ht, hu, hs⟩ := h
    have hsight : ∀ names, Sighted declared (forNames init body ++ visible) names → name ∈ names →
        name ∈ visible ∨ name ∈ forNames init body := by
      intro names hnames hmem
      exact (List.mem_append.mp (hnames name hmem hd)).symm
    have hnames : name ∈ Stmt.directOption init ∨ name ∈ body.direct → name ∈ forNames init body :=
      List.mem_append.mpr
    simp only [StmtForm.mentions, List.mem_append] at hname
    simp only [StmtForm.inner, List.mem_append]
    rcases hname with ((hname | hname) | hname) | hname
    · have hinit := Stmt.mem_of_mentionsOption init hi hname hd
      simp only [List.mem_append] at hinit
      tauto
    · have htest := hsight _ ht hname
      tauto
    · have hupdate := hsight _ hu hname
      tauto
    · have hbody := Stmt.mem_of_mentions body hs hname hd
      simp only [List.mem_append] at hbody
      tauto
  | .returnValue value => exact .inl (h name hname hd)
  | .throwValue value => exact .inl (h name hname hd)
  | .tryCatch body handler finalizer =>
    obtain ⟨hb, hh, hf⟩ := h
    simp only [StmtForm.mentions, List.mem_append] at hname
    simp only [StmtForm.inner, List.mem_append]
    rcases hname with (hname | hname) | hname
    · have hbody := Stmt.mem_of_mentionsAll body hb hname hd
      simp only [List.mem_append] at hbody
      tauto
    · have hhandler := CatchClause.mem_of_mentionsOption handler hh hname hd
      tauto
    · have hfinal := Stmt.mem_of_mentionsBody finalizer hf hname hd
      tauto
  | .breakLoop | .continueLoop | .function _ | .classDecl _ _ | .debugger | .empty => cases hname

theorem Stmt.mem_of_mentionsAll {visible : List String} (body : List Stmt)
    (h : Stmt.AllScoped declared visible body) {name : String} (hname : name ∈ Stmt.mentionsAll body)
    (hd : name ∈ declared) :
    name ∈ visible ∨ name ∈ Stmt.directAll body ∨ name ∈ Stmt.innerAll body := by
  match body with
  | [] => cases hname
  | stmt :: rest =>
    obtain ⟨hs, hr⟩ := h
    simp only [Stmt.directAll, List.flatMap_cons, Stmt.innerAll, List.mem_append]
    rcases List.mem_append.mp hname with hname | hname
    · have hfirst := Stmt.mem_of_mentions stmt hs hname hd
      tauto
    · have hrest := Stmt.mem_of_mentionsAll rest hr hname hd
      simp only [Stmt.directAll] at hrest
      tauto

theorem Stmt.mem_of_mentionsOption {visible : List String} (s : Option Stmt)
    (h : Stmt.OptionScoped declared visible s) {name : String}
    (hname : name ∈ Stmt.mentionsOption s) (hd : name ∈ declared) :
    name ∈ visible ∨ name ∈ Stmt.directOption s ∨ name ∈ Stmt.innerOption s := by
  match s with
  | none => cases hname
  | some stmt => exact Stmt.mem_of_mentions stmt h hname hd

theorem CatchClause.mem_of_mentionsOption {visible : List String} (handler : Option CatchClause)
    (h : CatchClause.OptionScoped declared visible handler) {name : String}
    (hname : name ∈ CatchClause.mentionsOption handler) (hd : name ∈ declared) :
    name ∈ visible ∨ name ∈ CatchClause.innerOption handler := by
  match handler with
  | none => cases hname
  | some (.mk binding body range) =>
    simp only [CatchClause.innerOption, catchNames, List.mem_append]
    rcases List.mem_append.mp hname with hname | hname
    · exact .inr (.inl (.inl hname))
    · have hbody := Stmt.mem_of_mentionsAll body h hname hd
      simp only [catchNames, List.mem_append] at hbody
      tauto

theorem Stmt.mem_of_mentionsBody {visible : List String} (body : Option (List Stmt))
    (h : Stmt.BodyScoped declared visible body) {name : String}
    (hname : name ∈ Stmt.mentionsBody body) (hd : name ∈ declared) :
    name ∈ visible ∨ name ∈ Stmt.innerBody body := by
  match body with
  | none => cases hname
  | some body =>
    have hbody := Stmt.mem_of_mentionsAll body h hname hd
    simp only [Stmt.innerBody, List.mem_append] at hbody ⊢
    tauto

end

/-- nothing visible is declared again inside -/
def Fresh (declared visible names : List String) : Prop :=
  names.Nodup ∧ List.Disjoint visible names ∧ ∀ name ∈ names, name ∈ declared

/-- a scope with names of its own -/
theorem Fresh.enter {visible own names : List String}
    (h : Fresh declared visible (own ++ names)) : Fresh declared (own ++ visible) names := by
  obtain ⟨hnd, hdis, hsub⟩ := h
  rw [List.nodup_append'] at hnd
  rw [List.disjoint_append_right] at hdis
  refine ⟨hnd.2.1, ?_, fun name hname => hsub name (List.mem_append_right _ hname)⟩
  exact List.disjoint_append_left.mpr ⟨hnd.2.2, hdis.2⟩

theorem Fresh.left {visible names names' : List String}
    (h : Fresh declared visible (names ++ names')) : Fresh declared visible names := by
  obtain ⟨hnd, hdis, hsub⟩ := h
  rw [List.nodup_append'] at hnd
  rw [List.disjoint_append_right] at hdis
  exact ⟨hnd.1, hdis.1, fun name hname => hsub name (List.mem_append_left _ hname)⟩

theorem Fresh.right {visible names names' : List String}
    (h : Fresh declared visible (names ++ names')) : Fresh declared visible names' := by
  obtain ⟨hnd, hdis, hsub⟩ := h
  rw [List.nodup_append'] at hnd
  rw [List.disjoint_append_right] at hdis
  exact ⟨hnd.2.1, hdis.2, fun name hname => hsub name (List.mem_append_right _ hname)⟩

mutual

theorem Stmt.apart_of_scoped {visible : List String} (s : Stmt) (h : s.Scoped declared visible)
    (hf : Fresh declared visible s.inner) : s.Apart := by
  match s with
  | .node form range => exact StmtForm.apart_of_scoped form h hf

theorem StmtForm.apart_of_scoped {visible : List String} (form : StmtForm)
    (h : form.Scoped declared visible) (hf : Fresh declared visible form.inner) : form.Apart := by
  match form with
  | .block body => exact Stmt.apart_of_allScoped body h hf.enter
  | .ifElse test thenBranch elseBranch =>
    obtain ⟨-, hs, he⟩ := h
    exact ⟨Stmt.apart_of_scoped thenBranch hs hf.left,
      Stmt.apart_of_optionScoped elseBranch he hf.right⟩
  | .whileLoop test body => exact Stmt.apart_of_scoped body h.2 hf
  | .forLoop init test update body =>
    obtain ⟨hi, -, -, hs⟩ := h
    have hinner : Fresh declared visible
        (forNames init body ++ (Stmt.innerOption init ++ body.inner)) := by
      rw [← List.append_assoc]
      exact hf
    exact ⟨Stmt.apart_of_optionScoped init hi hinner.enter.left,
      Stmt.apart_of_scoped body hs hinner.enter.right⟩
  | .tryCatch body handler finalizer =>
    obtain ⟨hb, hh, hfin⟩ := h
    refine ⟨Stmt.apart_of_allScoped body hb hf.left.left.enter,
      CatchClause.apart_of_optionScoped handler hh hf.left.right,
      Stmt.apart_of_bodyScoped finalizer hfin hf.right, fun name hname hmem => ?_⟩
    -- a name of the region or the handler is declared, so the finalizer sees it from around or
    -- declares it itself; but it is declared once
    obtain ⟨hnd, hdis, hsub⟩ := hf
    have hd : name ∈ declared := hsub name (List.mem_append_left _ hmem)
    rw [StmtForm.inner, List.nodup_append'] at hnd
    rcases Stmt.mem_of_mentionsBody finalizer hfin hname hd with hvis | hown
    · exact hdis hvis (List.mem_append_left _ hmem)
    · exact hnd.2.2 hmem hown
  | .function decl => exact FunctionDecl.apart_of_scoped decl h hf
  | .expression _ | .varDecl _ _ | .breakLoop | .continueLoop | .returnValue _ | .throwValue _
  | .classDecl _ _ | .debugger | .empty => trivial

theorem Stmt.apart_of_allScoped {visible : List String} (body : List Stmt)
    (h : Stmt.AllScoped declared visible body) (hf : Fresh declared visible (Stmt.innerAll body)) :
    Stmt.AllApart body := by
  match body with
  | [] => trivial
  | stmt :: rest =>
    exact ⟨Stmt.apart_of_scoped stmt h.1 hf.left, Stmt.apart_of_allScoped rest h.2 hf.right⟩

theorem Stmt.apart_of_optionScoped {visible : List String} (s : Option Stmt)
    (h : Stmt.OptionScoped declared visible s)
    (hf : Fresh declared visible (Stmt.innerOption s)) : Stmt.OptionApart s := by
  match s with
  | none => trivial
  | some stmt => exact Stmt.apart_of_scoped stmt h hf

theorem CatchClause.apart_of_optionScoped {visible : List String} (handler : Option CatchClause)
    (h : CatchClause.OptionScoped declared visible handler)
    (hf : Fresh declared visible (CatchClause.innerOption handler)) :
    CatchClause.OptionApart handler := by
  match handler with
  | none => trivial
  | some (.mk binding body range) => exact Stmt.apart_of_allScoped body h hf.enter

theorem Stmt.apart_of_bodyScoped {visible : List String} (body : Option (List Stmt))
    (h : Stmt.BodyScoped declared visible body)
    (hf : Fresh declared visible (Stmt.innerBody body)) : Stmt.BodyApart body := by
  match body with
  | none => trivial
  | some body => exact Stmt.apart_of_allScoped body h hf.enter

theorem FunctionDecl.apart_of_scoped {visible : List String} (decl : FunctionDecl)
    (h : decl.Scoped declared visible) (hf : Fresh declared visible decl.inner) : decl.Apart := by
  match decl with
  | .mk name params body range => exact Stmt.apart_of_allScoped body h hf.enter

end

end

theorem Structured.apart {body : List Stmt} (h : Structured body) :
    Stmt.AllApart body := by
  have hnd := h.once
  rw [declaredNames, List.nodup_append'] at hnd
  refine Stmt.apart_of_allScoped body h.sighted ⟨hnd.2.1, hnd.2.2, fun name hname => ?_⟩
  exact List.mem_append_right _ hname

end ScriptMachine
