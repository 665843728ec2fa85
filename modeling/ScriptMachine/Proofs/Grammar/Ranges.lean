import ScriptMachine.Proofs.Grammar.Phrases

/-!
# Ranges are inside the token list

* `TokenRange.Within`   a range that is not empty and ends among so many tokens;
* `Stmt.Within`         all ranges in a tree are of this kind;
* `Grammar.Statement.within`   the trees of phrases are such trees.
-/

namespace ScriptMachine

/-- the range has a token, and all of them are among the first `n` ones -/
def TokenRange.Within (n : Nat) (range : TokenRange) : Prop := range.first ≤ range.last ∧ range.last < n

namespace TokenRange

variable {m n : Nat} {range : TokenRange}

theorem Within.mono (h : range.Within m) (hle : m ≤ n) : range.Within n :=
  ⟨h.1, Nat.lt_of_lt_of_le h.2 hle⟩

/-- the last token by itself -/
theorem Within.last (h : range.Within n) : Within n ⟨range.last, range.last⟩ := ⟨Nat.le_refl _, h.2⟩

end TokenRange

/-! ## trees -/

mutual

/-- all ranges in the tree are among the first `n` tokens -/
def Expr.Within (n : Nat) : Expr → Prop
  | .node form range => range.Within n ∧ form.Within n

def ExprForm.Within (n : Nat) : ExprForm → Prop
  | .assign target value => target.Within n ∧ value.Within n
  | .binary _ left right => left.Within n ∧ right.Within n
  | .logical _ left right => left.Within n ∧ right.Within n
  | .unary _ operand => operand.Within n
  | .call callee args => callee.Within n ∧ Expr.AllWithin n args
  | .member object _ => object.Within n
  | .index object key => object.Within n ∧ key.Within n
  | .new _ args => Expr.AllWithin n args
  | .function decl => decl.Within n
  | .array elements => Expr.AllWithin n elements
  | _ => True

def Expr.AllWithin (n : Nat) : List Expr → Prop
  | [] => True
  | e :: rest => e.Within n ∧ Expr.AllWithin n rest

def Expr.OptionWithin (n : Nat) : Option Expr → Prop
  | none => True
  | some e => e.Within n

def Stmt.Within (n : Nat) : Stmt → Prop
  | .node form range => range.Within n ∧ form.Within n

def StmtForm.Within (n : Nat) : StmtForm → Prop
  | .expression e => e.Within n
  | .varDecl _ init => Expr.OptionWithin n init
  | .block body => Stmt.AllWithin n body
  | .ifElse test thenBranch elseBranch =>
    test.Within n ∧ thenBranch.Within n ∧ Stmt.OptionWithin n elseBranch
  | .whileLoop test body => test.Within n ∧ body.Within n
  | .forLoop init test update body =>
    Stmt.OptionWithin n init ∧ Expr.OptionWithin n test ∧ Expr.OptionWithin n update ∧ body.Within n
  | .returnValue value => Expr.OptionWithin n value
  | .throwValue value => value.Within n
  | .tryCatch body handler finalizer =>
    Stmt.AllWithin n body ∧ CatchClause.OptionWithin n handler ∧ Stmt.BodyWithin n finalizer
  | .function decl => decl.Within n
  | .classDecl _ methods => FunctionDecl.AllWithin n methods
  | _ => True

def Stmt.AllWithin (n : Nat) : List Stmt → Prop
  | [] => True
  | stmt :: rest => stmt.Within n ∧ Stmt.AllWithin n rest

def Stmt.OptionWithin (n : Nat) : Option Stmt → Prop
  | none => True
  | some stmt => stmt.Within n

def Stmt.BodyWithin (n : Nat) : Option (List Stmt) → Prop
  | none => True
  | some body => Stmt.AllWithin n body

def CatchClause.OptionWithin (n : Nat) : Option CatchClause → Prop
  | none => True
  | some (.mk _ body range) => range.Within n ∧ Stmt.AllWithin n body

def FunctionDecl.Within (n : Nat) : FunctionDecl → Prop
  | .mk _ _ body range => range.Within n ∧ Stmt.AllWithin n body

def FunctionDecl.AllWithin (n : Nat) : List FunctionDecl → Prop
  | [] => True
  | decl :: rest => decl.Within n ∧ FunctionDecl.AllWithin n rest

end

theorem Expr.Within.range {n : Nat} {e : Expr} (h : e.Within n) : e.range.Within n := by
  cases e
  exact h.1

theorem Expr.Within.form {n : Nat} {e : Expr} (h : e.Within n) : e.form.Within n := by
  cases e
  exact h.2

/-! ## phrases -/

namespace Grammar

section
variable {ts : List TokenKind} {i j k m n : Nat}

/-- the phrase is not empty and ends with the token list at the latest -/
def Spans (ts : List TokenKind) (i j : Nat) : Prop := i < j ∧ j ≤ ts.length

theorem Spans.one {kind : TokenKind} (h : ts[i]? = some kind) : Spans ts i (i + 1) :=
  ⟨Nat.lt_succ_self i, (List.getElem?_eq_some_iff.mp h).1⟩

/-- a phrase that starts earlier -/
theorem Spans.before (h : Spans ts m j) (hle : i ≤ m) : Spans ts i j :=
  ⟨Nat.lt_of_le_of_lt hle h.1, h.2⟩

/-- one phrase behind another one -/
theorem Spans.trans (h : Spans ts i m) (h' : Spans ts m j) : Spans ts i j := h'.before (Nat.le_of_lt h.1)

theorem Spans.within (h : Spans ts i j) : (span i j).Within ts.length := by
  obtain ⟨hlt, hle⟩ := h
  constructor
  · show i ≤ j - 1
    omega
  · show j - 1 < ts.length
    omega

theorem Names.spans {names : List String} (h : Names ts i j names) : Spans ts i j := by
  induction h with
  | one hn => exact .one hn
  | more _ _ _ ih => exact ih.before (Nat.le_add_right _ 2)

theorem Parameters.spans {params : List String} (h : Parameters ts i j params) : Spans ts i j := by
  cases h with
  | none hr => exact .one hr
  | some h hr => exact h.spans.trans (.one hr)

end

section
variable {ts : List TokenKind}

/-- operators join trees -/
theorem Operates.within {n k : Nat} {s : Symbol} {form : Expr → Expr → ExprForm}
    (h : Operates n s form) {left right : Expr} (hl : left.Within k) (hr : right.Within k) :
    (form left right).Within k := by
  cases h <;> exact ⟨hl, hr⟩

mutual

theorem Expression.within {i j : Nat} {e : Expr} (h : Expression ts i j e) :
    Spans ts i j ∧ e.Within ts.length := by
  match h with
  | .joined h => exact h.within
  | .assign ht hs hv =>
    obtain ⟨htarget, ht⟩ := ht.within
    obtain ⟨hvalue, hv⟩ := hv.within
    have hspans := (htarget.trans (.one hs)).trans hvalue
    exact ⟨hspans, hspans.within, ht, hv⟩

theorem Joined.within {n i j : Nat} {e : Expr} (h : Joined ts n i j e) :
    Spans ts i j ∧ e.Within ts.length := by
  match h with
  | .signed h => exact h.within
  | .tighter h => exact h.within
  | .join hl hs ho hr =>
    obtain ⟨hleft, hl⟩ := hl.within
    obtain ⟨hright, hr⟩ := hr.within
    have hspans := (hleft.trans (.one hs)).trans hright
    exact ⟨hspans, hspans.within, ho.within hl hr⟩

theorem Signed.within {i j : Nat} {e : Expr} (h : Signed ts i j e) : Spans ts i j ∧ e.Within ts.length := by
  match h with
  | .chain h => exact h.within
  | .not hs h | .neg hs h =>
    obtain ⟨hoperand, h⟩ := h.within
    have hspans := (Spans.one hs).trans hoperand
    exact ⟨hspans, hspans.within, h⟩

theorem Chain.within {i j : Nat} {e : Expr} (h : Chain ts i j e) : Spans ts i j ∧ e.Within ts.length := by
  match h with
  | .primary h => exact h.within
  | .call h hl ha =>
    obtain ⟨hcallee, h⟩ := h.within
    obtain ⟨hargs, ha⟩ := ha.within
    have hspans := (hcallee.trans (.one hl)).trans hargs
    exact ⟨hspans, hspans.within, h, ha⟩
  | .member h hd hn =>
    obtain ⟨hobject, h⟩ := h.within
    have hspans := (hobject.trans (.one hd)).trans (.one hn)
    exact ⟨hspans, hspans.within, h⟩
  | .index h hl hk hr =>
    obtain ⟨hobject, h⟩ := h.within
    obtain ⟨hkey, hk⟩ := hk.within
    have hspans := ((hobject.trans (.one hl)).trans hkey).trans (.one hr)
    exact ⟨hspans, hspans.within, h, hk⟩

theorem Primary.within {i j : Nat} {e : Expr} (h : Primary ts i j e) :
    Spans ts i j ∧ e.Within ts.length := by
  match h with
  | .number h | .string h | .name h | .true h | .false h | .null h | .undefined h | .this h =>
    exact ⟨.one h, (Spans.one h).within, trivial⟩
  | .parens hl h hr =>
    obtain ⟨hinner, h⟩ := h.within
    have hspans := ((Spans.one hl).trans hinner).trans (.one hr)
    exact ⟨hspans, hspans.within, h.form⟩
  | .array hl h =>
    obtain ⟨helements, h⟩ := h.within
    have hspans := (Spans.one hl).trans helements
    exact ⟨hspans, hspans.within, h⟩
  | .anonymous hw h =>
    obtain ⟨hspans, h⟩ := h.within (Nat.le_succ i)
    exact ⟨hspans, hspans.within, h⟩
  | .named hw hn h =>
    obtain ⟨hspans, h⟩ := h.within (Nat.le_add_right i 2)
    exact ⟨hspans, hspans.within, h⟩
  | .new hw hn hl ha =>
    obtain ⟨hargs, ha⟩ := ha.within
    have hspans := hargs.before (Nat.le_add_right i 3)
    exact ⟨hspans, hspans.within, ha⟩

theorem Listed.within {close : Symbol} {i j : Nat} {es : List Expr} (h : Listed ts close i j es) :
    Spans ts i j ∧ Expr.AllWithin ts.length es := by
  match h with
  | .none hc => exact ⟨.one hc, trivial⟩
  | .some h hc =>
    obtain ⟨hseveral, h⟩ := h.within
    exact ⟨hseveral.trans (.one hc), h⟩

theorem Several.within {i j : Nat} {es : List Expr} (h : Several ts i j es) :
    Spans ts i j ∧ Expr.AllWithin ts.length es := by
  match h with
  | .one h =>
    obtain ⟨hspans, h⟩ := h.within
    exact ⟨hspans, h, trivial⟩
  | .more h hc hr =>
    obtain ⟨hfirst, h⟩ := h.within
    obtain ⟨hrest, hr⟩ := hr.within
    exact ⟨(hfirst.trans (.one hc)).trans hrest, h, hr⟩

theorem Clause.within {close : Symbol} {i j : Nat} {value : Option Expr} (h : Clause ts close i j value) :
    Spans ts i j ∧ Expr.OptionWithin ts.length value := by
  match h with
  | .none hc => exact ⟨.one hc, trivial⟩
  | .some h hc =>
    obtain ⟨hvalue, h⟩ := h.within
    exact ⟨hvalue.trans (.one hc), h⟩

theorem Callable.within {start : Nat} {name : Option String} {i j : Nat} {decl : FunctionDecl}
    (h : Callable ts start name i j decl) (hle : start ≤ i) :
    Spans ts start j ∧ decl.Within ts.length := by
  match h with
  | .mk hl hp hb =>
    obtain ⟨hbody, hb⟩ := hb.within
    have hspans := ((((Spans.one hl).trans hp.spans).trans hbody)).before hle
    exact ⟨hspans, hspans.within, hb⟩

theorem Methods.within {i j : Nat} {methods : List FunctionDecl} (h : Methods ts i j methods) :
    i ≤ j ∧ FunctionDecl.AllWithin ts.length methods := by
  match h with
  | .nil => exact ⟨Nat.le_refl _, trivial⟩
  | .cons hn h hr =>
    obtain ⟨hfirst, h⟩ := h.within (Nat.le_succ i)
    obtain ⟨hle, hr⟩ := hr.within
    exact ⟨Nat.le_trans (Nat.le_of_lt hfirst.1) hle, h, hr⟩

theorem Block.within {i j : Nat} {body : List Stmt} (h : Block ts i j body) :
    Spans ts i j ∧ Stmt.AllWithin ts.length body := by
  match h with
  | .mk hl h hr =>
    obtain ⟨hle, h⟩ := h.within
    exact ⟨(Spans.one hr).before (Nat.le_of_succ_le hle), h⟩

theorem Statements.within {i j : Nat} {body : List Stmt} (h : Statements ts i j body) :
    i ≤ j ∧ Stmt.AllWithin ts.length body := by
  match h with
  | .nil => exact ⟨Nat.le_refl _, trivial⟩
  | .cons h hr =>
    obtain ⟨hfirst, h⟩ := h.within
    obtain ⟨hle, hr⟩ := hr.within
    exact ⟨Nat.le_trans (Nat.le_of_lt hfirst.1) hle, h, hr⟩

theorem Statement.within {dangling : Bool} {i j : Nat} {stmt : Stmt} (h : Statement ts dangling i j stmt) :
    Spans ts i j ∧ stmt.Within ts.length := by
  match h with
  | .varDecl h => exact h.within
  | .function hw hn h =>
    obtain ⟨hspans, h⟩ := h.within (Nat.le_add_right i 2)
    exact ⟨hspans, hspans.within, h⟩
  | .classDecl hw hn hl h hr =>
    obtain ⟨hle, h⟩ := h.within
    have hspans := (Spans.one hr).before (Nat.le_trans (Nat.le_add_right i 3) hle)
    exact ⟨hspans, hspans.within, h⟩
  | .ifOnly hw hl hc hr ht =>
    obtain ⟨htest, hc⟩ := hc.within
    obtain ⟨hthen, ht⟩ := ht.within
    have hspans := ((htest.trans (.one hr)).trans hthen).before (Nat.le_add_right i 2)
    exact ⟨hspans, hspans.within, hc, ht, trivial⟩
  | .ifElse hw hl hc hr ht he hs =>
    obtain ⟨htest, hc⟩ := hc.within
    obtain ⟨hthen, ht⟩ := ht.within
    obtain ⟨helse, hs⟩ := hs.within
    have hspans := ((((htest.trans (.one hr)).trans hthen).trans (.one he)).trans helse).before
      (Nat.le_add_right i 2)
    exact ⟨hspans, hspans.within, hc, ht, hs⟩
  | .whileLoop hw hl hc hr hb =>
    obtain ⟨htest, hc⟩ := hc.within
    obtain ⟨hbody, hb⟩ := hb.within
    have hspans := ((htest.trans (.one hr)).trans hbody).before (Nat.le_add_right i 2)
    exact ⟨hspans, hspans.within, hc, hb⟩
  | .forLoop hw hl hi ht hu hb =>
    obtain ⟨hinit, hi⟩ := hi.within
    obtain ⟨htest, ht⟩ := ht.within
    obtain ⟨hupdate, hu⟩ := hu.within
    obtain ⟨hbody, hb⟩ := hb.within
    have hspans := (((hinit.trans htest).trans hupdate).trans hbody).before (Nat.le_add_right i 2)
    exact ⟨hspans, hspans.within, hi, ht, hu, hb⟩
  | .breakLoop hw hs | .continueLoop hw hs | .debugger hw hs =>
    have hspans := (Spans.one hw).trans (.one hs)
    exact ⟨hspans, hspans.within, trivial⟩
  | .returnValue hw h =>
    obtain ⟨hvalue, h⟩ := h.within
    have hspans := (Spans.one hw).trans hvalue
    exact ⟨hspans, hspans.within, h⟩
  | .throwValue hw h hs =>
    obtain ⟨hvalue, h⟩ := h.within
    have hspans := ((Spans.one hw).trans hvalue).trans (.one hs)
    exact ⟨hspans, hspans.within, h⟩
  | .tryCatch hw hb hc hf _ =>
    obtain ⟨hbody, hb⟩ := hb.within
    have htry := (Spans.one hw).trans hbody
    obtain ⟨hcaught, hc⟩ := hc.within htry
    obtain ⟨hspans, hf⟩ := hf.within hcaught
    exact ⟨hspans, hspans.within, hb, hc, hf⟩
  | .block h =>
    obtain ⟨hspans, h⟩ := h.within
    exact ⟨hspans, hspans.within, h⟩
  | .empty hs => exact ⟨.one hs, (Spans.one hs).within, trivial⟩
  | .expression _ h hs =>
    obtain ⟨hvalue, h⟩ := h.within
    have hspans := hvalue.trans (.one hs)
    exact ⟨hspans, hspans.within, h⟩

theorem Declaration.within {i j : Nat} {stmt : Stmt} (h : Declaration ts i j stmt) :
    Spans ts i j ∧ stmt.Within ts.length := by
  match h with
  | .bare _ h hn hs =>
    have hspans := (Spans.one hs).before (Nat.le_add_right i 2)
    exact ⟨hspans, hspans.within, trivial⟩
  | .init _ h hn ha he hs =>
    obtain ⟨hvalue, he⟩ := he.within
    have hspans := (hvalue.trans (.one hs)).before (Nat.le_add_right i 3)
    exact ⟨hspans, hspans.within, he⟩

theorem Initializer.within {i j : Nat} {init : Option Stmt} (h : Initializer ts i j init) :
    Spans ts i j ∧ Stmt.OptionWithin ts.length init := by
  match h with
  | .none hs => exact ⟨.one hs, trivial⟩
  | .varDecl h => exact h.within
  | .expression h hs =>
    obtain ⟨hvalue, h⟩ := h.within
    have hspans := hvalue.trans (.one hs)
    exact ⟨hspans, hspans.within, h⟩

/-- the handler goes on with the `try` before it -/
theorem Catch.within {start i j : Nat} {handler : Option CatchClause} (h : Catch ts i j handler)
    (hbefore : Spans ts start i) : Spans ts start j ∧ CatchClause.OptionWithin ts.length handler := by
  match h with
  | .none => exact ⟨hbefore, trivial⟩
  | .plain hw hb =>
    obtain ⟨hbody, hb⟩ := hb.within
    have hspans := (Spans.one hw).trans hbody
    exact ⟨hbefore.trans hspans, hspans.within, hb⟩
  | .binding hw hl hn hr hb =>
    obtain ⟨hbody, hb⟩ := hb.within
    have hspans := hbody.before (Nat.le_add_right i 4)
    exact ⟨hbefore.trans hspans, hspans.within, hb⟩

theorem Finally.within {start i j : Nat} {finalizer : Option (List Stmt)} (h : Finally ts i j finalizer)
    (hbefore : Spans ts start i) : Spans ts start j ∧ Stmt.BodyWithin ts.length finalizer := by
  match h with
  | .none => exact ⟨hbefore, trivial⟩
  | .some hw hb =>
    obtain ⟨hbody, hb⟩ := hb.within
    exact ⟨(hbefore.trans (.one hw)).trans hbody, hb⟩

end

end

end Grammar

end ScriptMachine
