import ScriptMachine.Proofs.Grammar.Productions
import ScriptMachine.Proofs.Grammar.Sound

/-!
# What is a phrase is read, and so the parser is the grammar

* `Chained`, `Grouped`   what is read of a phrase that grows to the right: its first part, and then,
                         in a loop, all that comes up to its end;
* `Expression.reads`, `Statement.reads`   the phrases, by recursion on how they are made;
* `Statements.program`   whole token lists.
-/

namespace ScriptMachine.Grammar

open Cursor Parse

/-! ## phrases that grow to the right -/

/-- a first operand is read, and the loop over its accesses comes to the end of the phrase -/
def Chained (tokens : List Token) (i j : Nat) (e : Expr) : Prop :=
  i < j ∧ ∃ first m, Reads (primary (behind tokens i)) first (behind tokens m)
    ∧ ∀ v c, Reads (accesses i e (behind tokens j)) v c →
      Reads (accesses i first (behind tokens m)) v c

/-- an operand with its signs is read where no access stands behind it -/
def Prefixed (tokens : List Token) (ts : List TokenKind) (i j : Nat) (e : Expr) : Prop :=
  i < j ∧ (Stops ts 6 j → Reads (unary (behind tokens i)) e (behind tokens j))

/-- An operand is read, and the loop over the operators of strength `n` comes to the end of the
phrase.  Above the last strength there is no loop. -/
def Grouped (tokens : List Token) (ts : List TokenKind) (n i j : Nat) (e : Expr) : Prop :=
  i < j ∧ (n = 6 → Stops ts 6 j → Reads (unary (behind tokens i)) e (behind tokens j))
    ∧ ∀ level tighter, Level.all.drop n = level :: tighter → Stops ts (n + 1) j →
      ∃ left m, Reads (binary tighter (behind tokens i)) left (behind tokens m)
        ∧ ∀ v c, Reads (binaryRest level tighter e (behind tokens j)) v c →
          Reads (binaryRest level tighter left (behind tokens m)) v c

section
variable {tokens : List Token} {ts : List TokenKind} {i j m n : Nat} {e left right : Expr}

theorem Joined.le_six {n i j : Nat} {e : Expr} (h : Joined ts n i j e) : n ≤ 6 := by
  match h with
  | .tighter h => exact Nat.le_of_succ_le h.le_six
  | .join h _ _ _ => exact h.le_six
  | .signed _ => exact Nat.le_refl 6

theorem Chained.primary (h : Reads (primary (behind tokens i)) e (behind tokens j)) :
    Chained tokens i j e := ⟨lt_of_size_lt h.shorter, e, j, h, fun _ _ hv => hv⟩

/-- the loop goes on by one more access -/
theorem Chained.more {e' : Expr} (h : Chained tokens i m e) (hj : m < j)
    (hstep : ∀ v c, Reads (accesses i e' (behind tokens j)) v c →
      Reads (accesses i e (behind tokens m)) v c) : Chained tokens i j e' := by
  obtain ⟨hm, first, k, hfirst, hloop⟩ := h
  exact ⟨Nat.lt_trans hm hj, first, k, hfirst, fun v c hv => hloop v c (hstep v c hv)⟩

theorem Grouped.signed (h : Prefixed tokens ts i j e) : Grouped tokens ts 6 i j e :=
  ⟨h.1, fun _ => h.2, fun _ _ hlevel => nomatch hlevel⟩

variable (hsp : Spells tokens ts)
include hsp

theorem Chained.unary (h : Chained tokens i j e) (hj : Stops ts n j) :
    Reads (unary (behind tokens i)) e (behind tokens j) := by
  obtain ⟨_, first, m, hfirst, hloop⟩ := h
  exact unary_primary hfirst (hloop _ _ (accesses_stop hsp hj))

theorem Grouped.binary (h : Grouped tokens ts n i j e) (hn : n ≤ 6) (hj : Stops ts n j) :
    Reads (binary (Level.all.drop n) (behind tokens i)) e (behind tokens j) := by
  obtain ⟨_, hlast, hloop⟩ := h
  cases hlevels : Level.all.drop n with
  | nil =>
    have h6 : 6 ≤ n := List.drop_eq_nil_iff.mp hlevels
    obtain rfl : n = 6 := by omega
    rw [Parse.binary]
    exact hlast rfl hj
  | cons level tighter =>
    obtain ⟨left, m, hleft, hrest⟩ := hloop level tighter hlevels (hj.mono (Nat.le_succ n))
    rw [Parse.binary]
    exact hleft.bind fun _ => (hrest _ _ (binaryRest_stop hsp hlevels hj)).bind fun _ => .pure _

theorem Grouped.tighter (h : Grouped tokens ts (n + 1) i j e) (hn : n + 1 ≤ 6) :
    Grouped tokens ts n i j e := by
  refine ⟨h.1, fun h6 => by omega, fun level tighter hlevel hj => ?_⟩
  obtain ⟨rfl, _⟩ := drop_levels hlevel
  exact ⟨e, j, h.binary hsp hn hj, fun _ _ hv => hv⟩

theorem Grouped.join {s : Symbol} {form : Expr → Expr → ExprForm}
    (hl : Grouped tokens ts n i m left) (hs : Sym ts m s) (ho : Operates n s form)
    (hr : Grouped tokens ts (n + 1) (m + 1) j right) (hn : n + 1 ≤ 6)
    (hleft : left.range = span i m) (hright : right.range = span (m + 1) j) :
    Grouped tokens ts n i j (.node (form left right) (span i j)) := by
  have hm : i < m := hl.1
  have hj : m + 1 < j := hr.1
  refine ⟨by omega, fun h6 => by omega, fun level tighter hlevel hstops => ?_⟩
  obtain ⟨first, k, hfirst, hloop⟩ := hl.2.2 level tighter hlevel (stops_of_operates hs ho)
  have hread := hr.binary hsp hn hstops
  rw [(drop_levels hlevel).1] at hread
  refine ⟨first, k, hfirst, fun v c hv => hloop v c ?_⟩
  exact binaryRest_join hsp hlevel hs ho hm hleft hright hread hv

end

/-! ## all phrases -/

theorem Statements.rests {ts : List TokenKind} {i j : Nat} {body : List Stmt}
    (h : Statements ts i j body) (hj : ∀ dangling, Rests ts dangling j) (dangling : Bool) :
    Rests ts dangling i := by
  cases h with
  | nil => exact hj dangling
  | cons h _ => exact h.starts.rests

theorem rests_of_none {ts : List TokenKind} {j : Nat} (hj : ts[j]? = none) (dangling : Bool) :
    Rests ts dangling j := by
  rw [Rests, Word, Word, hj]
  simp

/-- a `try` without `catch` has a `finally` behind it -/
theorem Finally.not_catch {ts : List TokenKind} {i j : Nat} {handler : Option CatchClause}
    {finalizer : Option (List Stmt)} (h : Finally ts i j finalizer)
    (hsome : handler.isSome ∨ finalizer.isSome) (hnone : handler = Option.none) :
    ¬ Word ts i .catchKw := by
  subst hnone
  cases h with
  | none => simp at hsome
  | some hw _ => exact fun hc => nomatch kind_unique hw hc

theorem rests_of_sym {ts : List TokenKind} {j : Nat} {s : Symbol} (hs : Sym ts j s)
    (dangling : Bool) : Rests ts dangling j :=
  ⟨fun hw => (nomatch kind_unique hs hw), fun _ hw => (nomatch kind_unique hs hw)⟩

section
variable {tokens : List Token} {ts : List TokenKind} (hsp : Spells tokens ts)
include hsp

mutual

theorem Expression.reads {i j : Nat} {e : Expr} (h : Expression ts i j e) (hj : Ends ts j) :
    Reads (expression (behind tokens i)) e (behind tokens j) := by
  match h with
  | .joined h =>
    exact expression_joined hsp (hj.not_sym rfl)
      ((Joined.grouped h).binary hsp (Nat.zero_le 6) hj.stops)
  | .assign ht hs hv =>
    exact expression_assign hsp hs ht.range hv.range
      ((Joined.grouped ht).binary hsp (Nat.zero_le 6) (stops_of_assign hs)) (Expression.reads hv hj)

theorem Joined.grouped {n i j : Nat} {e : Expr} (h : Joined ts n i j e) :
    Grouped tokens ts n i j e := by
  match h with
  | .signed h => exact .signed (Signed.reads h)
  | .tighter h => exact (Joined.grouped h).tighter hsp h.le_six
  | .join hl hs ho hr =>
    exact (Joined.grouped hl).join hsp hs ho (Joined.grouped hr) hr.le_six hl.range hr.range

theorem Signed.reads {i j : Nat} {e : Expr} (h : Signed ts i j e) : Prefixed tokens ts i j e := by
  match h with
  | .chain h => exact ⟨(Chain.chained h).1, fun hj => (Chain.chained h).unary hsp hj⟩
  | .not hs h =>
    obtain ⟨hlt, hread⟩ := Signed.reads h
    exact ⟨by omega, fun hj => (unary_sign hsp (hread hj)).1 hs⟩
  | .neg hs h =>
    obtain ⟨hlt, hread⟩ := Signed.reads h
    exact ⟨by omega, fun hj => (unary_sign hsp (hread hj)).2 hs⟩

theorem Chain.chained {i j : Nat} {e : Expr} (h : Chain ts i j e) : Chained tokens i j e := by
  match h with
  | .primary h => exact .primary (Primary.reads h)
  | .call h hl ha =>
    have hargs := Listed.reads ha rfl (by decide) "after arguments"
    have hj := lt_of_size_lt hargs.shorter
    exact (Chain.chained h).more (by omega) fun _ _ =>
      accesses_call hsp (Chain.chained h).1 hl hargs
  | .member h hd hn =>
    exact (Chain.chained h).more (by omega) fun _ _ =>
      accesses_member hsp (Chain.chained h).1 hd hn
  | .index h hl hk hr =>
    have hkey := Expression.reads hk ⟨_, hr, rfl⟩
    have hj := lt_of_size_lt hkey.shorter
    exact (Chain.chained h).more (by omega) fun _ _ =>
      accesses_index hsp (Chain.chained h).1 hl hkey hr

theorem Primary.reads {i j : Nat} {e : Expr} (h : Primary ts i j e) :
    Reads (primary (behind tokens i)) e (behind tokens j) := by
  match h with
  | .number h | .string h | .name h | .true h | .false h | .null h | .undefined h | .this h =>
    exact primary_leaf hsp h rfl
  | .parens hl h hr => exact primary_parens hsp hl (Expression.reads h ⟨_, hr, rfl⟩) hr
  | .array hl h => exact primary_array hsp hl (Listed.reads h rfl (by decide) _)
  | .anonymous hw (.mk hl hp hb) =>
    exact primary_function hsp hw
      (functionRest_anonymous hsp (Nat.le_add_right _ 1) hl hp (Block.reads hb))
  | .named hw hn (.mk hl hp hb) =>
    exact primary_function hsp hw
      (functionRest_named hsp (Nat.le_add_right _ 1) hn hl hp (Block.reads hb))
  | .new hw hn hl ha => exact primary_new hsp hw hn hl (Listed.reads ha rfl (by decide) _)

theorem Listed.reads {close : Symbol} {i j : Nat} {es : List Expr} (h : Listed ts close i j es)
    (hclose : close.ends = true) (hcomma : close ≠ .comma) (place : String) :
    Reads (elements close place (behind tokens i)) es (behind tokens j) := by
  match h with
  | .none hc => exact elements_none hsp hc
  | .some h hc =>
    exact elements_some hsp (h.opens.ne (not_opens_of_ends hclose))
      (Several.reads h hc hclose hcomma) hc

theorem Several.reads {close : Symbol} {i j : Nat} {es : List Expr} (h : Several ts i j es)
    (hj : Sym ts j close) (hclose : close.ends = true) (hcomma : close ≠ .comma) :
    Reads (expressions (behind tokens i)) es (behind tokens j) := by
  match h with
  | .one h =>
    refine expressions_one hsp (fun hc => hcomma ?_) (Expression.reads h ⟨_, hj, hclose⟩)
    cases kind_unique hj hc
    rfl
  | .more h hc hr =>
    exact expressions_more hsp hc (Expression.reads h ⟨_, hc, rfl⟩)
      (Several.reads hr hj hclose hcomma)

theorem Clause.reads {close : Symbol} {i j : Nat} {value : Option Expr}
    (h : Clause ts close i j value) (hclose : close.ends = true) (place : String) :
    Reads (clause close place (behind tokens i)) value (behind tokens j) := by
  match h with
  | .none hc => exact clause_none hsp hc
  | .some h hc =>
    exact clause_some hsp (h.opens.ne (not_opens_of_ends hclose))
      (Expression.reads h ⟨_, hc, hclose⟩) hc

theorem Methods.reads {i j : Nat} {list : List FunctionDecl} (h : Methods ts i j list)
    (hr : Sym ts j .rbrace) :
    Reads (methods (behind tokens i)) list (behind tokens (j + 1)) := by
  match h with
  | .nil => exact methods_nil hsp hr
  | .cons hn (.mk hl hp hb) hrest =>
    exact methods_cons hsp hn
      (functionRest_named hsp (Nat.le_refl _) hn hl hp (Block.reads hb)) (Methods.reads hrest hr)

theorem Block.reads {i j : Nat} {body : List Stmt} (h : Block ts i j body) :
    Reads (block (behind tokens i)) body (behind tokens j) := by
  match h with
  | .mk hl h hr => exact block_reads hsp hl (Statements.reads h hr)

theorem Statements.reads {i j : Nat} {body : List Stmt} (h : Statements ts i j body)
    (hr : Sym ts j .rbrace) :
    Reads (blockRest (behind tokens i)) body (behind tokens (j + 1)) := by
  match h with
  | .nil => exact blockRest_nil hsp hr
  | .cons h hrest =>
    exact blockRest_cons hsp h.starts (Statement.reads h (hrest.rests (rests_of_sym hr) _))
      (Statements.reads hrest hr)

theorem Statement.reads {dangling : Bool} {i j : Nat} {stmt : Stmt}
    (h : Statement ts dangling i j stmt) (hj : Rests ts dangling j) :
    Reads (statement (behind tokens i)) stmt (behind tokens j) := by
  match h with
  | .varDecl h => exact statement_varDecl hsp h (Declaration.reads h)
  | .function hw hn (.mk hl hp hb) =>
    exact statement_function hsp hw hn
      (functionRest_named hsp (Nat.le_add_right _ 1) hn hl hp (Block.reads hb))
  | .classDecl hw hn hl h hr => exact statement_classDecl hsp hw hn hl (Methods.reads h hr)
  | .ifOnly hw hl hc hr ht =>
    exact statement_ifOnly hsp hw hl (Expression.reads hc ⟨_, hr, rfl⟩) hr
      (Statement.reads ht ⟨hj.1, fun _ => hj.2 rfl⟩) (hj.2 rfl)
  | .ifElse hw hl hc hr ht he hs =>
    exact statement_ifElse hsp hw hl (Expression.reads hc ⟨_, hr, rfl⟩) hr
      (Statement.reads ht ⟨fun hf => (nomatch kind_unique he hf), nofun⟩) he (Statement.reads hs hj)
  | .whileLoop hw hl hc hr hb =>
    exact statement_whileLoop hsp hw hl (Expression.reads hc ⟨_, hr, rfl⟩) hr
      (Statement.reads hb hj)
  | .forLoop hw hl hi ht hu hb =>
    exact statement_forLoop hsp hw hl (Initializer.reads hi) (Clause.reads ht rfl _)
      (Clause.reads hu rfl _) (Statement.reads hb hj)
  | .breakLoop hw hs => exact statement_word hsp hs hw (by simp)
  | .continueLoop hw hs => exact statement_word hsp hs hw (by simp)
  | .debugger hw hs => exact statement_word hsp hs hw (by simp)
  | .returnValue hw h => exact statement_returnValue hsp hw (Clause.reads h rfl _)
  | .throwValue hw h hs =>
    exact statement_throwValue hsp hw (Expression.reads h ⟨_, hs, rfl⟩) hs
  | .tryCatch hw hb hc hf hsome =>
    exact statement_tryCatch hsp hw (Block.reads hb) (Catch.reads hc (hf.not_catch hsome))
      (Finally.reads hf hj.1) hsome
  | .block h =>
    exact statement_block hsp h.lbrace (Block.reads h)
  | .empty hs => exact statement_empty hsp hs
  | .expression hd h hs =>
    exact statement_expression hsp h.opens hd
      (expressionStatement_reads hsp (Expression.reads h ⟨_, hs, rfl⟩) hs)

theorem Declaration.reads {i j : Nat} {stmt : Stmt} (h : Declaration ts i j stmt) :
    Reads (varDeclaration i (behind tokens (i + 1))) stmt (behind tokens j) := by
  match h with
  | .bare _ _ hn hs => exact varDeclaration_bare hsp hn hs
  | .init _ _ hn ha he hs =>
    exact varDeclaration_init hsp hn ha (Expression.reads he ⟨_, hs, rfl⟩) hs

theorem Initializer.reads {i j : Nat} {init : Option Stmt} (h : Initializer ts i j init) :
    Reads (forInit (behind tokens i)) init (behind tokens j) := by
  match h with
  | .none hs => exact forInit_none hsp hs
  | .varDecl h => exact forInit_varDecl hsp h (Declaration.reads h)
  | .expression h hs =>
    exact forInit_expression hsp h.opens
      (expressionStatement_reads hsp (Expression.reads h ⟨_, hs, rfl⟩) hs)

theorem Catch.reads {i j : Nat} {handler : Option CatchClause} (h : Catch ts i j handler)
    (hj : handler = none → ¬ Word ts j .catchKw) :
    Reads (catchClause (behind tokens i)) handler (behind tokens j) := by
  match h with
  | .none => exact catchClause_none hsp (hj rfl)
  | .plain hw hb =>
    exact catchClause_plain hsp hw (fun hl => nomatch kind_unique hb.lbrace hl) (Block.reads hb)
  | .binding hw hl hn hr hb => exact catchClause_binding hsp hw hl hn hr (Block.reads hb)

theorem Finally.reads {i j : Nat} {finalizer : Option (List Stmt)} (h : Finally ts i j finalizer)
    (hj : ¬ Word ts j .finallyKw) :
    Reads (finallyClause (behind tokens i)) finalizer (behind tokens j) := by
  match h with
  | .none => exact finallyClause_none hsp hj
  | .some hw hb => exact finallyClause_some hsp hw (Block.reads hb)

end

/-! ## programs -/

theorem Statement.not_atEnd {i j : Nat} {dangling : Bool} {stmt : Stmt}
    (h : Statement ts dangling i j stmt) : ¬ (behind tokens i).atEnd = true := by
  obtain ⟨k, hk, _⟩ := h.starts
  rw [hsp.atEnd_iff, hk]
  simp

theorem Statements.program {i j : Nat} {body : List Stmt} (h : Statements ts i j body)
    (hj : ts[j]? = none) : program (behind tokens i) = .ok body := by
  induction body generalizing i with
  | nil =>
    cases h
    rw [Parse.program, if_pos (hsp.atEnd_iff.mpr hj)]
    rfl
  | cons stmt rest ih =>
    cases h with
    | cons h hrest =>
      obtain ⟨_, hstmt⟩ := h.reads hsp (hrest.rests (rests_of_none hj) _)
      rw [Parse.program, if_neg (h.not_atEnd hsp), hstmt]
      simp only [Bind.bind, Except.bind, ih hrest]
      rfl

end

/-- The parser finds the statements that the tokens spell, and nothing else. -/
theorem parseProgram_eq_ok_iff {tokens : List Token} {ts : List TokenKind} {body : List Stmt}
    (hsp : Spells tokens ts) :
    parseProgram tokens = .ok body ↔ Statements ts 0 ts.length body := by
  constructor
  · exact program_sound hsp 0 (Nat.zero_le _) body
  · intro h
    exact h.program hsp (List.getElem?_eq_none_iff.mpr (Nat.le_refl _))

/-- The parser is the grammar: on a token list that has its end mark behind it and nowhere else it
succeeds with a tree if and only if the tokens are a phrase for that tree, ranges included.  A token
list is a phrase for at most one tree, and where it is none there is an error. -/
theorem parseProgram_is_grammar (tokens : List Token) (ts : List TokenKind)
    (hkinds : tokens.map Token.kind = ts ++ [.eof]) (honly : .eof ∉ ts) :
    (∀ body, parseProgram tokens = .ok body ↔ Statements ts 0 ts.length body)
      ∧ (∀ body body', Statements ts 0 ts.length body → Statements ts 0 ts.length body' →
        body = body')
      ∧ ((¬ ∃ body, Statements ts 0 ts.length body) →
        ∃ error, parseProgram tokens = .error error) := by
  have hiff : ∀ body, parseProgram tokens = .ok body ↔ Statements ts 0 ts.length body :=
    fun body => parseProgram_eq_ok_iff ⟨hkinds, honly⟩
  refine ⟨hiff, fun body body' h h' => ?_, fun hno => ?_⟩
  · rw [← hiff] at h h'
    exact Except.ok.inj (h.symm.trans h')
  · cases hparse : parseProgram tokens with
    | error error => exact ⟨error, rfl⟩
    | ok body => exact absurd ⟨body, (hiff body).mp hparse⟩ hno

/-- `if (a) if (b) ; else ;` has its `else` at the second `if` -/
theorem parseProgram_nearest_else :
    parseProgram ([.keyword .ifKw, .symbol .lparen, .ident "a", .symbol .rparen,
        .keyword .ifKw, .symbol .lparen, .ident "b", .symbol .rparen, .symbol .semicolon,
        .keyword .elseKw, .symbol .semicolon, .eof].map fun kind => ⟨kind, "", {}, 0⟩)
      = .ok [.node (.ifElse (.node (.variable "a") ⟨2, 2⟩)
          (.node (.ifElse (.node (.variable "b") ⟨6, 6⟩) (.node .empty ⟨8, 8⟩)
            (some (.node .empty ⟨10, 10⟩))) ⟨4, 10⟩) none) ⟨0, 10⟩] := by
  have name {ts : List TokenKind} {i : Nat} {x : String} (h : Name ts i x) :
      Expression ts i (i + 1) (.node (.variable x) ⟨i, i⟩) :=
    .joined <| .tighter <| .tighter <| .tighter <| .tighter <| .tighter <| .tighter <| .signed <|
      .chain <| .primary <| .name h
  refine ((parseProgram_is_grammar _ [.keyword .ifKw, .symbol .lparen, .ident "a", .symbol .rparen,
    .keyword .ifKw, .symbol .lparen, .ident "b", .symbol .rparen, .symbol .semicolon,
    .keyword .elseKw, .symbol .semicolon] rfl (by simp)).1 _).mpr ?_
  refine .cons (.ifOnly rfl rfl (name rfl) rfl (?_ : Statement _ false _ _ _)) .nil
  exact .ifElse rfl rfl (name rfl) rfl (.empty rfl) rfl (.empty rfl)

end ScriptMachine.Grammar
