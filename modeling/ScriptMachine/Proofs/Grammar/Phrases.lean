import ScriptMachine.Proofs.Grammar
import ScriptMachine.SyntaxTree.Parse

/-!
# How phrases start and what they cover

* `Operates.unique`     a symbol is an operator in one way only;
* `Operates.level`, `operates_of_level`   the levels of the reading functions are the strengths;
* `Expression.opens`, `Statement.starts`   the first token of an expression and of a statement;
* `Statement.le`        a statement ends within the token list;
* `Joined.range`, `Expression.range`   the range of an expression is its phrase.
-/

namespace ScriptMachine

/-! ## first tokens -/

namespace TokenKind

/-- can an expression start with such a token? -/
def opens : TokenKind → Bool
  | number _ => true
  | string _ => true
  | ident _ => true
  | keyword w => w ∈ [.trueKw, .falseKw, .nullKw, .undefinedKw, .thisKw, .functionKw, .newKw]
  | symbol s => s ∈ [.bang, .minus, .lparen, .lbracket]
  | eof => false

/-- Such a token goes on with a statement or ends what is around it.  No statement starts with it. -/
def continues : TokenKind → Bool
  | keyword w => w ∈ [.elseKw, .catchKw, .finallyKw]
  | symbol s => s = .rbrace
  | _ => false

theorem not_continues_of_opens {k : TokenKind} (h : k.opens = true) : k.continues = false := by
  cases k with
  | keyword w => cases w <;> first | rfl | cases h
  | symbol s => cases s <;> first | rfl | cases h
  | _ => rfl

end TokenKind

namespace Grammar

variable {ts : List TokenKind} {i j n : Nat} {e : Expr} {s : Symbol}
  {form : Expr → Expr → ExprForm}

/-- the token at `i` can start an expression -/
def Opens (ts : List TokenKind) (i : Nat) : Prop := ∃ k, ts[i]? = some k ∧ k.opens = true

/-- the token at `i` can start a statement -/
def Starts (ts : List TokenKind) (i : Nat) : Prop := ∃ k, ts[i]? = some k ∧ k.continues = false

theorem Opens.starts (h : Opens ts i) : Starts ts i := by
  obtain ⟨k, hk, hopens⟩ := h
  exact ⟨k, hk, k.not_continues_of_opens hopens⟩

/-- what no expression starts with does not stand where one starts -/
theorem Opens.ne {k : TokenKind} (h : Opens ts i) (hk : k.opens = false) : ts[i]? ≠ some k := by
  obtain ⟨k', hk', hopens⟩ := h
  rw [hk']
  rintro ⟨⟩
  rw [hk] at hopens
  cases hopens

theorem Starts.ne {k : TokenKind} (h : Starts ts i) (hk : k.continues = true) : ts[i]? ≠ some k := by
  obtain ⟨k', hk', hstarts⟩ := h
  rw [hk']
  rintro ⟨⟩
  rw [hk] at hstarts
  cases hstarts

theorem Primary.opens (h : Primary ts i j e) : Opens ts i := by
  cases h with
  | number h | string h | name h | true h | false h | null h | undefined h | this h =>
    exact ⟨_, h, rfl⟩
  | parens h _ _ | array h _ | anonymous h _ | named h _ _ | new h _ _ _ => exact ⟨_, h, rfl⟩

theorem Chain.opens {j : Nat} {e : Expr} (h : Chain ts i j e) : Opens ts i := by
  match h with
  | .primary h => exact h.opens
  | .call h _ _ => exact h.opens
  | .member h _ _ => exact h.opens
  | .index h _ _ _ => exact h.opens

theorem Signed.opens (h : Signed ts i j e) : Opens ts i := by
  cases h with
  | chain h => exact h.opens
  | not h _ | neg h _ => exact ⟨_, h, rfl⟩

theorem Joined.opens {n j : Nat} {e : Expr} (h : Joined ts n i j e) : Opens ts i := by
  match h with
  | .signed h => exact h.opens
  | .tighter h => exact h.opens
  | .join h _ _ _ => exact h.opens

theorem Expression.opens (h : Expression ts i j e) : Opens ts i := by
  cases h with
  | joined h => exact h.opens
  | assign h _ _ => exact h.opens

theorem Several.opens {es : List Expr} (h : Several ts i j es) : Opens ts i := by
  cases h with
  | one h | more h _ _ => exact h.opens

theorem Block.lbrace {body : List Stmt} (h : Block ts i j body) : Sym ts i .lbrace := by
  obtain ⟨hl, _, _⟩ := h
  exact hl

theorem Declaration.word {stmt : Stmt} (h : Declaration ts i j stmt) :
    ∃ w ∈ [Keyword.varKw, .letKw, .constKw], Word ts i w := by
  cases h with
  | bare hw h _ _ | init hw h _ _ _ _ => exact ⟨_, hw, h⟩

theorem Declaration.starts {stmt : Stmt} (h : Declaration ts i j stmt) : Starts ts i := by
  obtain ⟨w, hw, hword⟩ := h.word
  refine ⟨_, hword, ?_⟩
  simp only [List.mem_cons, List.not_mem_nil, or_false] at hw
  rcases hw with rfl | rfl | rfl <;> rfl

theorem Statement.starts {dangling : Bool} {stmt : Stmt} (h : Statement ts dangling i j stmt) :
    Starts ts i := by
  cases h with
  | varDecl h => exact h.starts
  | expression _ h _ => exact h.opens.starts
  | block h => exact ⟨_, h.lbrace, rfl⟩
  | function h _ _ | breakLoop h _ | continueLoop h _ | returnValue h _ | debugger h _ | empty h =>
    exact ⟨_, h, rfl⟩
  | classDecl h _ _ _ _ | ifOnly h _ _ _ _ | ifElse h _ _ _ _ _ _ | whileLoop h _ _ _ _
  | forLoop h _ _ _ _ _ | throwValue h _ _ | tryCatch h _ _ _ _ => exact ⟨_, h, rfl⟩

/-! ## last tokens -/

theorem Block.le {body : List Stmt} (h : Block ts i j body) : j ≤ ts.length := by
  obtain ⟨_, _, hr⟩ := h
  exact (List.getElem?_eq_some_iff.mp hr).1

theorem Clause.le {close : Symbol} {value : Option Expr} (h : Clause ts close i j value) :
    j ≤ ts.length := by
  cases h with
  | none hc | some _ hc => exact (List.getElem?_eq_some_iff.mp hc).1

theorem Declaration.le {stmt : Stmt} (h : Declaration ts i j stmt) : j ≤ ts.length := by
  cases h with
  | bare _ _ _ hs | init _ _ _ _ _ hs => exact (List.getElem?_eq_some_iff.mp hs).1

theorem Catch.le {handler : Option CatchClause} (h : Catch ts i j handler) (hi : i ≤ ts.length) :
    j ≤ ts.length := by
  cases h with
  | none => exact hi
  | plain _ hb | binding _ _ _ _ hb => exact hb.le

theorem Finally.le {finalizer : Option (List Stmt)} (h : Finally ts i j finalizer)
    (hi : i ≤ ts.length) : j ≤ ts.length := by
  cases h with
  | none => exact hi
  | some _ hb => exact hb.le

/-- a statement ends where the token list does, or before -/
theorem Statement.le {dangling : Bool} {i j : Nat} {stmt : Stmt}
    (h : Statement ts dangling i j stmt) : j ≤ ts.length := by
  match h with
  | .varDecl h => exact h.le
  | .function _ _ (.mk _ _ hb) => exact hb.le
  | .classDecl _ _ _ _ hr => exact (List.getElem?_eq_some_iff.mp hr).1
  | .ifOnly _ _ _ _ ht => exact ht.le
  | .ifElse _ _ _ _ _ _ hs => exact hs.le
  | .whileLoop _ _ _ _ hb => exact hb.le
  | .forLoop _ _ _ _ _ hb => exact hb.le
  | .breakLoop _ hs | .continueLoop _ hs | .debugger _ hs => exact (List.getElem?_eq_some_iff.mp hs).1
  | .returnValue _ h => exact h.le
  | .throwValue _ _ hs => exact (List.getElem?_eq_some_iff.mp hs).1
  | .tryCatch _ hb hc hf _ => exact hf.le (hc.le hb.le)
  | .block h => exact h.le
  | .empty hs => exact (List.getElem?_eq_some_iff.mp hs).1
  | .expression _ _ hs => exact (List.getElem?_eq_some_iff.mp hs).1

/-! ## ranges -/

theorem Primary.range (h : Primary ts i j e) : e.range = span i j := by cases h <;> rfl

theorem Chain.range (h : Chain ts i j e) : e.range = span i j := by
  cases h with
  | primary h => exact h.range
  | _ => rfl

theorem Signed.range (h : Signed ts i j e) : e.range = span i j := by
  cases h with
  | chain h => exact h.range
  | _ => rfl

theorem Joined.range {n i j : Nat} {e : Expr} (h : Joined ts n i j e) : e.range = span i j := by
  match h with
  | .signed h => exact h.range
  | .tighter h => exact h.range
  | .join _ _ _ _ => rfl

theorem Expression.range (h : Expression ts i j e) : e.range = span i j := by
  cases h with
  | joined h => exact h.range
  | assign _ _ _ => rfl

/-- two phrases with one token between them -/
theorem join_span {m : Nat} (hi : i < m) (hj : m + 1 < j) :
    (span i m).join (span (m + 1) j) = span i j := by
  show (⟨min i (m + 1), max (m - 1) (j - 1)⟩ : TokenRange) = ⟨i, j - 1⟩
  rw [Nat.min_eq_left (by omega), Nat.max_eq_right (by omega)]

/-! ## operators -/

theorem Operates.unique {m : Nat} {form' : Expr → Expr → ExprForm} (h : Operates n s form)
    (h' : Operates m s form') : n = m ∧ form = form' := by
  cases h <;> cases h' <;> exact ⟨rfl, rfl⟩

/-- there are six levels, the loosest first -/
theorem drop_levels {level : Level} {tighter : List Level} (h : Level.all.drop n = level :: tighter) :
    Level.all.drop (n + 1) = tighter ∧ n + 1 ≤ 6 := by
  constructor
  · rw [← List.drop_drop, h, List.drop_one, List.tail_cons]
  · have hlen : (Level.all.drop n).length = tighter.length + 1 := by rw [h, List.length_cons]
    rw [List.length_drop, show Level.all.length = 6 from rfl] at hlen
    omega

/-- an operator stands on the level of its strength -/
theorem Operates.level (h : Operates n s form) :
    ∃ level op, (∃ tighter, Level.all.drop n = level :: tighter) ∧ level.operator? s = some op
      ∧ ∀ l r, op.apply l r = .node (form l r) (l.range.join r.range) := by
  cases h <;> exact ⟨_, _, ⟨_, rfl⟩, rfl, fun _ _ => rfl⟩

theorem operates_of_level {level : Level} {tighter : List Level} {op : Operator}
    (hlevel : Level.all.drop n = level :: tighter) (h : level.operator? s = some op) :
    ∃ form, Operates n s form ∧ ∀ l r, op.apply l r = .node (form l r) (l.range.join r.range) := by
  match n, hlevel with
  | 0, rfl | 1, rfl | 2, rfl | 3, rfl | 4, rfl | 5, rfl =>
    cases s <;> cases h <;> exact ⟨_, by constructor, fun _ _ => rfl⟩
  | n + 6, hlevel => simp [Level.all] at hlevel

end Grammar

end ScriptMachine
