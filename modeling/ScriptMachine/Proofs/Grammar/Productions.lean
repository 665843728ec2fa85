import ScriptMachine.Proofs.Grammar.Phrases
import ScriptMachine.Proofs.Grammar.Reads

/-!
# One production at a time

A reading function takes as much as it can, so a phrase is read as a whole where the token behind it
cannot go on with it.  Here is what is read of a phrase if its parts are read, one lemma for each
production of the grammar.

* `Stops`, `Ends`, `Rests`   the tokens behind operands, expressions and statements;
* `accesses_stop`, `binaryRest_stop`   where the two loops over expressions end;
* `accesses_call`, `binaryRest_join`, `statement_ifElse`, ...   the productions.
-/

namespace ScriptMachine

open Grammar Cursor Parse

/-! ## what stands behind a phrase -/

/-- an expression never goes on with such a symbol -/
def Symbol.ends (s : Symbol) : Bool := s ∈ [.rparen, .rbracket, .comma, .semicolon]

namespace Grammar

variable {ts : List TokenKind} {i j n m : Nat} {s : Symbol} {k k' : TokenKind}

/-- the token at `j` is no access, and no operator of strength `n` or greater -/
def Stops (ts : List TokenKind) (n j : Nat) : Prop :=
  ∀ s, Sym ts j s → s ∉ [.lparen, .dot, .lbracket] ∧ ∀ m form, Operates m s form → m < n

/-- the token at `j` ends an expression -/
def Ends (ts : List TokenKind) (j : Nat) : Prop := ∃ s, Sym ts j s ∧ s.ends = true

/-- the token at `j` does not go on with a statement -/
def Rests (ts : List TokenKind) (dangling : Bool) (j : Nat) : Prop :=
  ¬ Word ts j .finallyKw ∧ (dangling = true → ¬ Word ts j .elseKw)

theorem kind_unique (h : ts[i]? = some k) (h' : ts[i]? = some k') : k = k' :=
  Option.some.inj (h.symm.trans h')

theorem Stops.mono (h : Stops ts n j) (hn : n ≤ m) : Stops ts m j := by
  intro s hs
  obtain ⟨haccess, hweak⟩ := h s hs
  exact ⟨haccess, fun k form ho => Nat.lt_of_lt_of_le (hweak k form ho) hn⟩

theorem stops_of_operates {form : Expr → Expr → ExprForm} (hs : Sym ts j s)
    (ho : Operates n s form) : Stops ts (n + 1) j := by
  intro s' hs'
  cases kind_unique hs hs'
  refine ⟨?_, fun k form' ho' => ?_⟩
  · cases ho <;> decide
  · obtain ⟨rfl, _⟩ := ho.unique ho'
    exact Nat.lt_succ_self n

theorem stops_of_assign (hs : Sym ts j .assign) : Stops ts 0 j := by
  intro s' hs'
  cases kind_unique hs hs'
  exact ⟨by decide, fun k form ho => by cases ho⟩

theorem Ends.stops (h : Ends ts j) : Stops ts 0 j := by
  obtain ⟨s, hs, hends⟩ := h
  intro s' hs'
  cases kind_unique hs hs'
  refine ⟨?_, fun k form ho => ?_⟩
  · cases s <;> first | decide | cases hends
  · cases ho <;> cases hends

theorem Ends.not_sym (h : Ends ts j) (hs : s.ends = false) : ¬ Sym ts j s := by
  obtain ⟨s', hs', hends⟩ := h
  intro hsym
  cases kind_unique hs' hsym
  rw [hs] at hends
  cases hends

theorem not_opens_of_ends (h : s.ends = true) : (TokenKind.symbol s).opens = false := by
  cases s <;> first | rfl | cases h

theorem Starts.rests {dangling : Bool} (h : Starts ts j) : Rests ts dangling j :=
  ⟨h.ne rfl, fun _ => h.ne rfl⟩

end Grammar

/-- the expression that a token is by itself -/
def TokenKind.leaf? : TokenKind → Option ExprForm
  | number x => some (.number x)
  | string s => some (.string s)
  | ident name => some (.variable name)
  | keyword .trueKw => some (.bool true)
  | keyword .falseKw => some (.bool false)
  | keyword .nullKw => some .null
  | keyword .undefinedKw => some .undefined
  | keyword .thisKw => some .this
  | _ => none

/-! ## one production at a time -/

namespace Parse

section
variable {tokens : List Token} {ts : List TokenKind} (hsp : Spells tokens ts)
include hsp

theorem names_reads {i j : Nat} {list : List String} (h : Names ts i j list)
    (hj : Sym ts j .rparen) : Reads (names (behind tokens i)) list (behind tokens j) := by
  induction h with
  | one hn =>
    rw [names]
    refine (hsp.expectName hn).bind fun _ => ?_
    have hcomma : ¬ Sym ts _ .comma := fun hc => nomatch kind_unique hj hc
    dsimp only
    rw [hsp.eat_none hcomma]
    exact .pure _
  | more hn hc _ ih =>
    rw [names]
    refine (hsp.expectName hn).bind fun _ => ?_
    obtain ⟨_, heat⟩ := hsp.eat hc
    dsimp only
    rw [heat]
    exact (ih hj).bind fun _ => .pure _

theorem parameters_reads {i j : Nat} {params : List String} (h : Parameters ts i j params) :
    Reads (parameters (behind tokens i)) params (behind tokens j) := by
  unfold parameters
  cases h with
  | none hr =>
    rw [if_pos (hsp.atSymbol_iff.mpr hr)]
    exact (hsp.expect hr).bind fun _ => .pure _
  | some h hr =>
    have hfirst : ¬ Sym ts i .rparen := by
      intro hi
      cases h with
      | one hn | more hn _ _ => cases kind_unique hn hi
    rw [if_neg (mt hsp.atSymbol_iff.mp hfirst)]
    exact (names_reads hsp h hr).bind fun _ => (hsp.expect hr).bind fun _ => .pure _

/-! ### operands and what joins them -/

/-- a loop over accesses ends where none stands -/
theorem accesses_stop {start j : Nat} {e : Expr} (h : Stops ts n j) :
    Reads (accesses start e (behind tokens j)) e (behind tokens j) := by
  rw [accesses]
  split
  · rename_i htake
    obtain ⟨hs, _⟩ := hsp.of_take htake (by simp)
    exact absurd (by simp) (h _ hs).1
  · rename_i htake
    obtain ⟨hs, _⟩ := hsp.of_take htake (by simp)
    exact absurd (by simp) (h _ hs).1
  · rename_i htake
    obtain ⟨hs, _⟩ := hsp.of_take htake (by simp)
    exact absurd (by simp) (h _ hs).1
  · exact .pure _

theorem accesses_call {i m j : Nat} {e v : Expr} {args : List Expr} {c : Cursor} (hm : i < m)
    (hl : Sym ts m .lparen)
    (ha : Reads (elements .rparen "after arguments" (behind tokens (m + 1))) args (behind tokens j))
    (h : Reads (accesses i (.node (.call e args) (span i j)) (behind tokens j)) v c) :
    Reads (accesses i e (behind tokens m)) v c := by
  have hj : m + 1 < j := lt_of_size_lt ha.shorter
  obtain ⟨_, htake⟩ := hsp.take hl
  rw [accesses, htake]
  refine ha.bind fun _ => ?_
  dsimp only
  rw [rangeFrom_behind (by omega)]
  exact h.bind fun _ => .pure _

theorem accesses_member {i m : Nat} {e v : Expr} {name : String} {c : Cursor} (hm : i < m)
    (hd : Sym ts m .dot) (hn : Name ts (m + 1) name)
    (h : Reads (accesses i (.node (.member e name) (span i (m + 2))) (behind tokens (m + 2))) v c) :
    Reads (accesses i e (behind tokens m)) v c := by
  obtain ⟨_, htake⟩ := hsp.take hd
  rw [accesses, htake]
  refine (hsp.expectName hn).bind fun _ => ?_
  dsimp only
  rw [rangeFrom_behind (by omega)]
  exact h.bind fun _ => .pure _

theorem accesses_index {i m j : Nat} {e key v : Expr} {c : Cursor} (hm : i < m)
    (hl : Sym ts m .lbracket)
    (hk : Reads (expression (behind tokens (m + 1))) key (behind tokens j))
    (hr : Sym ts j .rbracket)
    (h : Reads (accesses i (.node (.index e key) (span i (j + 1))) (behind tokens (j + 1))) v c) :
    Reads (accesses i e (behind tokens m)) v c := by
  have hj : m + 1 < j := lt_of_size_lt hk.shorter
  obtain ⟨_, htake⟩ := hsp.take hl
  rw [accesses, htake]
  refine hk.bind fun _ => (hsp.expect hr).bind fun _ => ?_
  dsimp only
  rw [rangeFrom_behind (by omega)]
  exact h.bind fun _ => .pure _

omit hsp in
theorem unary_primary {c c₁ c₂ : Cursor} {first e : Expr} (hp : Reads (primary c) first c₁)
    (ha : Reads (accesses c.index first c₁) e c₂) : Reads (unary c) e c₂ := by
  rw [unary]
  split
  · rename_i htake
    rw [primary, htake] at hp
    exact hp.not_error.elim
  · rename_i htake
    rw [primary, htake] at hp
    exact hp.not_error.elim
  · exact hp.bind fun _ => ha.bind fun _ => .pure _

theorem unary_sign {i j : Nat} {e : Expr} (h : Reads (unary (behind tokens (i + 1))) e (behind tokens j)) :
    (Sym ts i .bang →
      Reads (unary (behind tokens i)) (.node (.unary .not e) (span i j)) (behind tokens j))
    ∧ (Sym ts i .minus →
      Reads (unary (behind tokens i)) (.node (.unary .neg e) (span i j)) (behind tokens j)) := by
  have hj : i + 1 < j := lt_of_size_lt h.shorter
  constructor
  all_goals
    intro hs
    obtain ⟨_, htake⟩ := hsp.take hs
    rw [unary, htake]
    refine h.bind fun _ => ?_
    dsimp only
    rw [range_behind (by omega)]
    exact .pure _

/-- a loop over the operators of a level ends where none stands -/
theorem binaryRest_stop {j : Nat} {level : Level} {tighter : List Level} {e : Expr}
    (hlevel : Level.all.drop n = level :: tighter) (h : Stops ts n j) :
    Reads (binaryRest level tighter e (behind tokens j)) e (behind tokens j) := by
  rw [binaryRest]
  split
  · rename_i op c₁ h₁ hop
    unfold Cursor.operator? at hop
    split at hop
    · rename_i htake
      obtain ⟨hs, _⟩ := hsp.of_take htake (by simp)
      obtain ⟨_, hop, _⟩ := Option.map_eq_some_iff.mp hop
      obtain ⟨form, ho, _⟩ := operates_of_level hlevel hop
      exact absurd ((h _ hs).2 _ _ ho) (Nat.lt_irrefl n)
    · cases hop
  · exact .pure _

theorem binaryRest_join {i m j : Nat} {level : Level} {tighter : List Level}
    {left right v : Expr} {s : Symbol} {form : Expr → Expr → ExprForm} {c : Cursor}
    (hlevel : Level.all.drop n = level :: tighter) (hs : Sym ts m s) (ho : Operates n s form)
    (hm : i < m) (hleft : left.range = span i m) (hright : right.range = span (m + 1) j)
    (hr : Reads (binary tighter (behind tokens (m + 1))) right (behind tokens j))
    (h : Reads (binaryRest level tighter (.node (form left right) (span i j)) (behind tokens j)) v c) :
    Reads (binaryRest level tighter left (behind tokens m)) v c := by
  have hj : m + 1 < j := lt_of_size_lt hr.shorter
  obtain ⟨level', op, ⟨tighter', hlevel'⟩, hop, happly⟩ := ho.level
  rw [hlevel] at hlevel'
  cases hlevel'
  obtain ⟨hc, htake⟩ := hsp.take hs
  have hoperator : (behind tokens m).operator? level = some ⟨op, behind tokens (m + 1), hc⟩ := by
    unfold Cursor.operator?
    rw [htake]
    dsimp only
    rw [hop]
    rfl
  rw [binaryRest, hoperator]
  refine hr.bind fun _ => ?_
  dsimp only
  rw [happly, hleft, hright, join_span hm hj]
  exact h.bind fun _ => .pure _

theorem expression_joined {i j : Nat} {e : Expr} (hj : ¬ Sym ts j .assign)
    (h : Reads (binary Level.all (behind tokens i)) e (behind tokens j)) :
    Reads (expression (behind tokens i)) e (behind tokens j) := by
  rw [expression]
  refine h.bind fun _ => ?_
  dsimp only
  rw [hsp.eat_none hj]
  exact .pure _

theorem expression_assign {i m j : Nat} {target value : Expr} (hs : Sym ts m .assign)
    (htarget : target.range = span i m) (hvalue : value.range = span (m + 1) j)
    (ht : Reads (binary Level.all (behind tokens i)) target (behind tokens m))
    (hv : Reads (expression (behind tokens (m + 1))) value (behind tokens j)) :
    Reads (expression (behind tokens i)) (.node (.assign target value) (span i j))
      (behind tokens j) := by
  obtain ⟨_, heat⟩ := hsp.eat hs
  rw [expression]
  refine ht.bind fun _ => ?_
  dsimp only
  rw [heat]
  refine hv.bind fun _ => ?_
  dsimp only
  rw [htarget, hvalue, join_span (lt_of_size_lt ht.shorter) (lt_of_size_lt hv.shorter)]
  exact .pure _

/-! ### lists and primaries -/

theorem elements_none {i : Nat} {close : Symbol} {place : String} (hc : Sym ts i close) :
    Reads (elements close place (behind tokens i)) [] (behind tokens (i + 1)) := by
  obtain ⟨_, heat⟩ := hsp.eat hc
  rw [elements, heat]
  exact .pure _

theorem elements_some {i m : Nat} {close : Symbol} {place : String} {es : List Expr}
    (hi : ¬ Sym ts i close) (h : Reads (expressions (behind tokens i)) es (behind tokens m))
    (hc : Sym ts m close) :
    Reads (elements close place (behind tokens i)) es (behind tokens (m + 1)) := by
  rw [elements, hsp.eat_none hi]
  exact h.bind fun _ => (hsp.expect hc).bind fun _ => .pure _

theorem expressions_one {i j : Nat} {e : Expr} (hj : ¬ Sym ts j .comma)
    (h : Reads (expression (behind tokens i)) e (behind tokens j)) :
    Reads (expressions (behind tokens i)) [e] (behind tokens j) := by
  rw [expressions]
  refine h.bind fun _ => ?_
  dsimp only
  rw [hsp.eat_none hj]
  exact .pure _

theorem expressions_more {i m j : Nat} {e : Expr} {es : List Expr} (hc : Sym ts m .comma)
    (h : Reads (expression (behind tokens i)) e (behind tokens m))
    (hes : Reads (expressions (behind tokens (m + 1))) es (behind tokens j)) :
    Reads (expressions (behind tokens i)) (e :: es) (behind tokens j) := by
  obtain ⟨_, heat⟩ := hsp.eat hc
  rw [expressions]
  refine h.bind fun _ => ?_
  dsimp only
  rw [heat]
  exact hes.bind fun _ => .pure _

theorem clause_none {i : Nat} {close : Symbol} {place : String} (hc : Sym ts i close) :
    Reads (clause close place (behind tokens i)) none (behind tokens (i + 1)) := by
  obtain ⟨_, heat⟩ := hsp.eat hc
  rw [clause, heat]
  exact .pure _

theorem clause_some {i m : Nat} {close : Symbol} {place : String} {e : Expr}
    (hi : ¬ Sym ts i close) (h : Reads (expression (behind tokens i)) e (behind tokens m))
    (hc : Sym ts m close) :
    Reads (clause close place (behind tokens i)) (some e) (behind tokens (m + 1)) := by
  rw [clause, hsp.eat_none hi]
  exact h.bind fun _ => (hsp.expect hc).bind fun _ => .pure _

theorem primary_leaf {i : Nat} {k : TokenKind} {form : ExprForm} (hk : ts[i]? = some k)
    (hform : k.leaf? = some form) :
    Reads (primary (behind tokens i)) (.node form (span i (i + 1))) (behind tokens (i + 1)) := by
  obtain ⟨hlt, htake⟩ := hsp.take hk
  have hrange : (behind tokens (i + 1)).rangeFrom (behind tokens i).index = span i (i + 1) :=
    range_behind (Nat.lt_succ_self i)
  rw [primary, htake, ← hrange]
  cases k with
  | number x | string t | ident name =>
    cases hform
    exact .pure hlt
  | keyword w => cases w <;> cases hform <;> exact .pure hlt
  | symbol | eof => cases hform

theorem primary_parens {i j : Nat} {e : Expr} (hl : Sym ts i .lparen)
    (h : Reads (expression (behind tokens (i + 1))) e (behind tokens j)) (hr : Sym ts j .rparen) :
    Reads (primary (behind tokens i)) (.node e.form (span i (j + 1))) (behind tokens (j + 1)) := by
  have hj : i + 1 < j := lt_of_size_lt h.shorter
  obtain ⟨_, htake⟩ := hsp.take hl
  rw [primary, htake]
  refine h.bind fun _ => (hsp.expect hr).bind fun _ => ?_
  dsimp only
  rw [range_behind (by omega)]
  exact .pure _

theorem primary_array {i j : Nat} {elems : List Expr} (hl : Sym ts i .lbracket)
    (h : Reads (elements .rbracket "after array elements" (behind tokens (i + 1))) elems
      (behind tokens j)) :
    Reads (primary (behind tokens i)) (.node (.array elems) (span i j)) (behind tokens j) := by
  have hj : i + 1 < j := lt_of_size_lt h.shorter
  obtain ⟨_, htake⟩ := hsp.take hl
  rw [primary, htake]
  refine h.bind fun _ => ?_
  dsimp only
  rw [range_behind (by omega)]
  exact .pure _

theorem primary_function {i j : Nat} {decl : FunctionDecl} (hw : Word ts i .functionKw)
    (h : Reads (functionRest i false (behind tokens (i + 1))) decl (behind tokens j)) :
    Reads (primary (behind tokens i)) (.node (.function decl) (span i j)) (behind tokens j) := by
  have hj : i + 1 < j := lt_of_size_lt h.shorter
  obtain ⟨_, htake⟩ := hsp.take hw
  rw [primary, htake]
  refine h.bind fun _ => ?_
  dsimp only
  rw [range_behind (by omega)]
  exact .pure _

theorem primary_new {i j : Nat} {className : String} {args : List Expr} (hw : Word ts i .newKw)
    (hn : Name ts (i + 1) className) (hl : Sym ts (i + 2) .lparen)
    (h : Reads (elements .rparen "after arguments" (behind tokens (i + 3))) args
      (behind tokens j)) :
    Reads (primary (behind tokens i)) (.node (.new className args) (span i j))
      (behind tokens j) := by
  have hj : i + 3 < j := lt_of_size_lt h.shorter
  obtain ⟨_, htake⟩ := hsp.take hw
  rw [primary, htake]
  refine (hsp.expectName hn).bind fun _ => (hsp.expect hl).bind fun _ => h.bind fun _ => ?_
  dsimp only
  rw [range_behind (by omega)]
  exact .pure _

/-! ### functions and blocks -/

theorem functionRest_named {start i m j : Nat} {required : Bool} {name : String}
    {params : List String} {body : List Stmt} (hstart : start ≤ i) (hn : Name ts i name)
    (hl : Sym ts (i + 1) .lparen) (hp : Parameters ts (i + 2) m params)
    (hb : Reads (block (behind tokens m)) body (behind tokens j)) :
    Reads (functionRest start required (behind tokens i))
      (.mk (some name) params body (span start j)) (behind tokens j) := by
  have hparams := parameters_reads hsp hp
  have hm : i + 2 < m := lt_of_size_lt hparams.shorter
  have hj : m < j := lt_of_size_lt hb.shorter
  obtain ⟨_, htake⟩ := hsp.take hn
  rw [functionRest, htake]
  refine (hsp.expect hl).bind fun _ => hparams.bind fun _ => hb.bind fun _ => ?_
  dsimp only
  rw [rangeFrom_behind (by omega)]
  exact .pure _

theorem functionRest_anonymous {start i m j : Nat} {params : List String} {body : List Stmt}
    (hstart : start ≤ i) (hl : Sym ts i .lparen) (hp : Parameters ts (i + 1) m params)
    (hb : Reads (block (behind tokens m)) body (behind tokens j)) :
    Reads (functionRest start false (behind tokens i)) (.mk none params body (span start j))
      (behind tokens j) := by
  have hparams := parameters_reads hsp hp
  have hm : i + 1 < m := lt_of_size_lt hparams.shorter
  have hj : m < j := lt_of_size_lt hb.shorter
  obtain ⟨_, htake⟩ := hsp.take hl
  rw [functionRest, htake]
  refine (hsp.expect hl).bind fun _ => hparams.bind fun _ => hb.bind fun _ => ?_
  dsimp only
  rw [rangeFrom_behind (by omega)]
  exact .pure _

theorem methods_nil {i : Nat} (hr : Sym ts i .rbrace) :
    Reads (methods (behind tokens i)) [] (behind tokens (i + 1)) := by
  obtain ⟨_, heat⟩ := hsp.eat hr
  rw [methods, heat]
  exact .pure _

theorem methods_cons {i m : Nat} {name : String} {decl : FunctionDecl}
    {list : List FunctionDecl} {c : Cursor} (hn : Name ts i name)
    (h : Reads (functionRest i true (behind tokens i)) decl (behind tokens m))
    (hr : Reads (methods (behind tokens m)) list c) :
    Reads (methods (behind tokens i)) (decl :: list) c := by
  have hend : ¬ (behind tokens i).atEnd = true := by
    rw [hsp.atEnd_iff, hn]
    simp
  have hbrace : ¬ Sym ts i .rbrace := fun hr => nomatch kind_unique hn hr
  rw [methods, hsp.eat_none hbrace]
  dsimp only
  rw [if_neg hend]
  exact h.bind fun _ => hr.bind fun _ => .pure _

theorem block_reads {i : Nat} {body : List Stmt} {c : Cursor} (hl : Sym ts i .lbrace)
    (h : Reads (blockRest (behind tokens (i + 1))) body c) :
    Reads (block (behind tokens i)) body c := by
  rw [block]
  exact (hsp.expect hl).bind fun _ => h.bind fun _ => .pure _

theorem blockRest_nil {i : Nat} (hr : Sym ts i .rbrace) :
    Reads (blockRest (behind tokens i)) [] (behind tokens (i + 1)) := by
  obtain ⟨_, heat⟩ := hsp.eat hr
  rw [blockRest, heat]
  exact .pure _

theorem blockRest_cons {i m : Nat} {stmt : Stmt} {rest : List Stmt} {c : Cursor}
    (hi : Starts ts i) (h : Reads (statement (behind tokens i)) stmt (behind tokens m))
    (hr : Reads (blockRest (behind tokens m)) rest c) :
    Reads (blockRest (behind tokens i)) (stmt :: rest) c := by
  have hend : ¬ (behind tokens i).atEnd = true := by
    obtain ⟨k, hk, _⟩ := hi
    rw [hsp.atEnd_iff, hk]
    simp
  rw [blockRest, hsp.eat_none (hi.ne rfl)]
  dsimp only
  rw [if_neg hend]
  exact h.bind fun _ => hr.bind fun _ => .pure _

/-! ### statements -/

theorem expressionStatement_reads {i j : Nat} {place : String} {e : Expr}
    (h : Reads (expression (behind tokens i)) e (behind tokens j)) (hs : Sym ts j .semicolon) :
    Reads (expressionStatement place (behind tokens i)) (.node (.expression e) (span i (j + 1)))
      (behind tokens (j + 1)) := by
  have hj : i < j := lt_of_size_lt h.shorter
  rw [expressionStatement]
  refine h.bind fun _ => (hsp.expect hs).bind fun _ => ?_
  dsimp only
  rw [range_behind (by omega)]
  exact .pure _

/-- a statement that starts like an expression is one, a declaration of a function apart -/
theorem statement_expression {i : Nat} {stmt : Stmt} {c : Cursor} (hi : Opens ts i)
    (hd : ¬ (Word ts i .functionKw ∧ ∃ name, Name ts (i + 1) name))
    (h : Reads (expressionStatement "after expression" (behind tokens i)) stmt c) :
    Reads (statement (behind tokens i)) stmt c := by
  obtain ⟨k, hk, hopens⟩ := hi
  obtain ⟨_, htake⟩ := hsp.take hk
  rw [statement, htake]
  cases k with
  | number | string | ident => exact h
  | eof => cases hopens
  | symbol s => cases s <;> first | exact h | cases hopens
  | keyword w =>
    cases w with
    | functionKw =>
      dsimp only
      split
      · rename_i hpeek
        exact absurd ⟨hk, _, (hsp.peek (by simp)).mp hpeek⟩ hd
      · exact h
    | _ => first | exact h | cases hopens

theorem varDeclaration_bare {i : Nat} {name : String} (hn : Name ts (i + 1) name)
    (hs : Sym ts (i + 2) .semicolon) :
    Reads (varDeclaration i (behind tokens (i + 1))) (.node (.varDecl name none) (span i (i + 3)))
      (behind tokens (i + 3)) := by
  have hassign : ¬ Sym ts (i + 1 + 1) .assign := fun ha => nomatch kind_unique hs ha
  rw [varDeclaration]
  refine (hsp.expectName hn).bind fun _ => ?_
  dsimp only
  rw [hsp.eat_none hassign]
  refine (hsp.expect hs).bind fun _ => ?_
  dsimp only
  rw [rangeFrom_behind (by omega)]
  exact .pure _

theorem varDeclaration_init {i j : Nat} {name : String} {e : Expr} (hn : Name ts (i + 1) name)
    (ha : Sym ts (i + 2) .assign)
    (h : Reads (expression (behind tokens (i + 3))) e (behind tokens j))
    (hs : Sym ts j .semicolon) :
    Reads (varDeclaration i (behind tokens (i + 1)))
      (.node (.varDecl name (some e)) (span i (j + 1))) (behind tokens (j + 1)) := by
  have hj : i + 3 < j := lt_of_size_lt h.shorter
  obtain ⟨_, heat⟩ := hsp.eat ha
  rw [varDeclaration]
  refine (hsp.expectName hn).bind fun _ => ?_
  dsimp only
  rw [heat]
  refine h.bind fun _ => (hsp.expect hs).bind fun _ => ?_
  dsimp only
  rw [rangeFrom_behind (by omega)]
  exact .pure _

theorem statement_varDecl {i j : Nat} {stmt : Stmt} (hi : Declaration ts i j stmt)
    (h : Reads (varDeclaration i (behind tokens (i + 1))) stmt (behind tokens j)) :
    Reads (statement (behind tokens i)) stmt (behind tokens j) := by
  obtain ⟨w, hw, hword⟩ := hi.word
  obtain ⟨_, htake⟩ := hsp.take hword
  rw [statement, htake]
  simp only [List.mem_cons, List.not_mem_nil, or_false] at hw
  rcases hw with rfl | rfl | rfl <;> exact h.bind fun _ => .pure _

theorem forInit_varDecl {i j : Nat} {stmt : Stmt} (hi : Declaration ts i j stmt)
    (h : Reads (varDeclaration i (behind tokens (i + 1))) stmt (behind tokens j)) :
    Reads (forInit (behind tokens i)) (some stmt) (behind tokens j) := by
  obtain ⟨w, hw, hword⟩ := hi.word
  obtain ⟨_, htake⟩ := hsp.take hword
  rw [forInit, htake]
  simp only [List.mem_cons, List.not_mem_nil, or_false] at hw
  rcases hw with rfl | rfl | rfl <;> exact h.bind fun _ => .pure _

theorem forInit_none {i : Nat} (hs : Sym ts i .semicolon) :
    Reads (forInit (behind tokens i)) none (behind tokens (i + 1)) := by
  obtain ⟨_, htake⟩ := hsp.take hs
  rw [forInit, htake]
  exact .pure _

theorem forInit_expression {i : Nat} {stmt : Stmt} {c : Cursor} (hi : Opens ts i)
    (h : Reads (expressionStatement "after for initializer" (behind tokens i)) stmt c) :
    Reads (forInit (behind tokens i)) (some stmt) c := by
  obtain ⟨k, hk, hopens⟩ := hi
  obtain ⟨_, htake⟩ := hsp.take hk
  rw [forInit, htake]
  cases k with
  | number | string | ident => exact h.bind fun _ => .pure _
  | eof => cases hopens
  | symbol s => cases s <;> first | cases hopens; done | exact h.bind fun _ => .pure _
  | keyword w => cases w <;> first | cases hopens; done | exact h.bind fun _ => .pure _

theorem statement_function {i j : Nat} {name : String} {decl : FunctionDecl}
    (hw : Word ts i .functionKw) (hn : Name ts (i + 1) name)
    (h : Reads (functionRest i true (behind tokens (i + 1))) decl (behind tokens j)) :
    Reads (statement (behind tokens i)) (.node (.function decl) (span i j)) (behind tokens j) := by
  have hj : i + 1 < j := lt_of_size_lt h.shorter
  obtain ⟨_, htake⟩ := hsp.take hw
  rw [statement, htake]
  dsimp only
  rw [(hsp.peek (by simp)).mpr hn]
  refine h.bind fun _ => ?_
  dsimp only
  rw [range_behind (by omega)]
  exact .pure _

theorem statement_classDecl {i j : Nat} {name : String} {list : List FunctionDecl}
    (hw : Word ts i .classKw) (hn : Name ts (i + 1) name) (hl : Sym ts (i + 2) .lbrace)
    (h : Reads (methods (behind tokens (i + 3))) list (behind tokens j)) :
    Reads (statement (behind tokens i)) (.node (.classDecl name list) (span i j))
      (behind tokens j) := by
  have hj : i + 3 < j := lt_of_size_lt h.shorter
  obtain ⟨_, htake⟩ := hsp.take hw
  rw [statement, htake]
  refine (hsp.expectName hn).bind fun _ => (hsp.expect hl).bind fun _ => h.bind fun _ => ?_
  dsimp only
  rw [range_behind (by omega)]
  exact .pure _

theorem statement_ifOnly {i m j : Nat} {test : Expr} {thenBranch : Stmt}
    (hw : Word ts i .ifKw) (hl : Sym ts (i + 1) .lparen)
    (hc : Reads (expression (behind tokens (i + 2))) test (behind tokens m))
    (hr : Sym ts m .rparen)
    (ht : Reads (statement (behind tokens (m + 1))) thenBranch (behind tokens j))
    (he : ¬ Word ts j .elseKw) :
    Reads (statement (behind tokens i)) (.node (.ifElse test thenBranch none) (span i j))
      (behind tokens j) := by
  have hm : i + 2 < m := lt_of_size_lt hc.shorter
  have hj : m + 1 < j := lt_of_size_lt ht.shorter
  obtain ⟨_, htake⟩ := hsp.take hw
  rw [statement, htake]
  refine (hsp.expect hl).bind fun _ => hc.bind fun _ => (hsp.expect hr).bind fun _ =>
    ht.bind fun _ => ?_
  dsimp only
  rw [hsp.eatWord_none he]
  dsimp only
  rw [range_behind (by omega)]
  exact .pure _

theorem statement_ifElse {i m k j : Nat} {test : Expr} {thenBranch elseBranch : Stmt}
    (hw : Word ts i .ifKw) (hl : Sym ts (i + 1) .lparen)
    (hc : Reads (expression (behind tokens (i + 2))) test (behind tokens m))
    (hr : Sym ts m .rparen)
    (ht : Reads (statement (behind tokens (m + 1))) thenBranch (behind tokens k))
    (he : Word ts k .elseKw)
    (hs : Reads (statement (behind tokens (k + 1))) elseBranch (behind tokens j)) :
    Reads (statement (behind tokens i))
      (.node (.ifElse test thenBranch (some elseBranch)) (span i j)) (behind tokens j) := by
  have hm : i + 2 < m := lt_of_size_lt hc.shorter
  have hk : m + 1 < k := lt_of_size_lt ht.shorter
  have hj : k + 1 < j := lt_of_size_lt hs.shorter
  obtain ⟨_, htake⟩ := hsp.take hw
  obtain ⟨_, heat⟩ := hsp.eatWord he
  rw [statement, htake]
  refine (hsp.expect hl).bind fun _ => hc.bind fun _ => (hsp.expect hr).bind fun _ =>
    ht.bind fun _ => ?_
  dsimp only
  rw [heat]
  refine hs.bind fun _ => ?_
  dsimp only
  rw [range_behind (by omega)]
  exact .pure _

theorem statement_whileLoop {i m j : Nat} {test : Expr} {body : Stmt}
    (hw : Word ts i .whileKw) (hl : Sym ts (i + 1) .lparen)
    (hc : Reads (expression (behind tokens (i + 2))) test (behind tokens m))
    (hr : Sym ts m .rparen)
    (hb : Reads (statement (behind tokens (m + 1))) body (behind tokens j)) :
    Reads (statement (behind tokens i)) (.node (.whileLoop test body) (span i j))
      (behind tokens j) := by
  have hm : i + 2 < m := lt_of_size_lt hc.shorter
  have hj : m + 1 < j := lt_of_size_lt hb.shorter
  obtain ⟨_, htake⟩ := hsp.take hw
  rw [statement, htake]
  refine (hsp.expect hl).bind fun _ => hc.bind fun _ => (hsp.expect hr).bind fun _ =>
    hb.bind fun _ => ?_
  dsimp only
  rw [range_behind (by omega)]
  exact .pure _

theorem statement_forLoop {i k l m j : Nat} {init : Option Stmt} {test update : Option Expr}
    {body : Stmt} (hw : Word ts i .forKw) (hl : Sym ts (i + 1) .lparen)
    (hi : Reads (forInit (behind tokens (i + 2))) init (behind tokens k))
    (ht : Reads (clause .semicolon "after for condition" (behind tokens k)) test (behind tokens l))
    (hu : Reads (clause .rparen "after for clauses" (behind tokens l)) update (behind tokens m))
    (hb : Reads (statement (behind tokens m)) body (behind tokens j)) :
    Reads (statement (behind tokens i)) (.node (.forLoop init test update body) (span i j))
      (behind tokens j) := by
  have hk : i + 2 < k := lt_of_size_lt hi.shorter
  have hl' : k < l := lt_of_size_lt ht.shorter
  have hm : l < m := lt_of_size_lt hu.shorter
  have hj : m < j := lt_of_size_lt hb.shorter
  obtain ⟨_, htake⟩ := hsp.take hw
  rw [statement, htake]
  refine (hsp.expect hl).bind fun _ => hi.bind fun _ => ht.bind fun _ => hu.bind fun _ =>
    hb.bind fun _ => ?_
  dsimp only
  rw [range_behind (by omega)]
  exact .pure _

/-- the statements that are a word and a semicolon -/
theorem statement_word {i : Nat} (hs : Sym ts (i + 1) .semicolon) {w : Keyword} {form : StmtForm}
    (hw : Word ts i w)
    (hform : (w, form) ∈ [(Keyword.breakKw, StmtForm.breakLoop), (.continueKw, .continueLoop),
      (.debuggerKw, .debugger)]) :
    Reads (statement (behind tokens i)) (.node form (span i (i + 2))) (behind tokens (i + 2)) := by
  obtain ⟨_, htake⟩ := hsp.take hw
  rw [statement, htake]
  simp only [List.mem_cons, List.not_mem_nil, or_false, Prod.mk.injEq] at hform
  rcases hform with ⟨rfl, rfl⟩ | ⟨rfl, rfl⟩ | ⟨rfl, rfl⟩
  all_goals
    refine (hsp.expect hs).bind fun _ => ?_
    dsimp only
    rw [range_behind (by omega)]
    exact .pure _

theorem statement_returnValue {i j : Nat} {value : Option Expr} (hw : Word ts i .returnKw)
    (h : Reads (clause .semicolon "after return value" (behind tokens (i + 1))) value
      (behind tokens j)) :
    Reads (statement (behind tokens i)) (.node (.returnValue value) (span i j))
      (behind tokens j) := by
  have hj : i + 1 < j := lt_of_size_lt h.shorter
  obtain ⟨_, htake⟩ := hsp.take hw
  rw [statement, htake]
  refine h.bind fun _ => ?_
  dsimp only
  rw [range_behind (by omega)]
  exact .pure _

theorem statement_throwValue {i j : Nat} {e : Expr} (hw : Word ts i .throwKw)
    (h : Reads (expression (behind tokens (i + 1))) e (behind tokens j))
    (hs : Sym ts j .semicolon) :
    Reads (statement (behind tokens i)) (.node (.throwValue e) (span i (j + 1)))
      (behind tokens (j + 1)) := by
  have hj : i + 1 < j := lt_of_size_lt h.shorter
  obtain ⟨_, htake⟩ := hsp.take hw
  rw [statement, htake]
  refine h.bind fun _ => (hsp.expect hs).bind fun _ => ?_
  dsimp only
  rw [range_behind (by omega)]
  exact .pure _

theorem statement_tryCatch {i k m j : Nat} {body : List Stmt} {handler : Option CatchClause}
    {finalizer : Option (List Stmt)} (hw : Word ts i .tryKw)
    (hb : Reads (block (behind tokens (i + 1))) body (behind tokens k))
    (hc : Reads (catchClause (behind tokens k)) handler (behind tokens m))
    (hf : Reads (finallyClause (behind tokens m)) finalizer (behind tokens j))
    (hsome : handler.isSome ∨ finalizer.isSome) :
    Reads (statement (behind tokens i)) (.node (.tryCatch body handler finalizer) (span i j))
      (behind tokens j) := by
  have hj : i < j := by
    have hk := hb.shorter
    have hm := hc.shorter
    have hj := hf.shorter
    simp only [size_behind] at hk hm hj
    omega
  have hnone : ¬ (handler.isNone && finalizer.isNone) = true := by
    cases handler <;> cases finalizer <;> simp_all
  obtain ⟨_, htake⟩ := hsp.take hw
  rw [statement, htake]
  refine hb.bind fun _ => hc.bind fun _ => hf.bind fun _ => ?_
  dsimp only
  rw [if_neg hnone, range_behind hj]
  exact .pure _

theorem statement_block {i j : Nat} {body : List Stmt} (hi : Sym ts i .lbrace)
    (h : Reads (block (behind tokens i)) body (behind tokens j)) :
    Reads (statement (behind tokens i)) (.node (.block body) (span i j)) (behind tokens j) := by
  have hj : i < j := lt_of_size_lt h.shorter
  obtain ⟨_, htake⟩ := hsp.take hi
  rw [statement, htake]
  refine h.bind fun _ => ?_
  dsimp only
  rw [range_behind (by omega)]
  exact .pure _

theorem statement_empty {i : Nat} (hs : Sym ts i .semicolon) :
    Reads (statement (behind tokens i)) (.node .empty (span i (i + 1))) (behind tokens (i + 1)) := by
  obtain ⟨_, htake⟩ := hsp.take hs
  rw [statement, htake]
  dsimp only
  rw [range_behind (by omega)]
  exact .pure _

theorem catchClause_none {i : Nat} (hw : ¬ Word ts i .catchKw) :
    Reads (catchClause (behind tokens i)) none (behind tokens i) := by
  rw [catchClause, hsp.eatWord_none hw]
  exact .pure _

theorem catchClause_plain {i j : Nat} {body : List Stmt} (hw : Word ts i .catchKw)
    (hl : ¬ Sym ts (i + 1) .lparen)
    (hb : Reads (block (behind tokens (i + 1))) body (behind tokens j)) :
    Reads (catchClause (behind tokens i)) (some (.mk none body (span i j))) (behind tokens j) := by
  have hj : i + 1 < j := lt_of_size_lt hb.shorter
  obtain ⟨_, heat⟩ := hsp.eatWord hw
  rw [catchClause, heat]
  dsimp only
  rw [hsp.eat_none hl]
  refine hb.bind fun _ => ?_
  dsimp only
  rw [range_behind (by omega)]
  exact .pure _

theorem catchClause_binding {i j : Nat} {name : String} {body : List Stmt}
    (hw : Word ts i .catchKw) (hl : Sym ts (i + 1) .lparen) (hn : Name ts (i + 2) name)
    (hr : Sym ts (i + 3) .rparen)
    (hb : Reads (block (behind tokens (i + 4))) body (behind tokens j)) :
    Reads (catchClause (behind tokens i)) (some (.mk (some name) body (span i j)))
      (behind tokens j) := by
  have hj : i + 4 < j := lt_of_size_lt hb.shorter
  obtain ⟨_, heatWord⟩ := hsp.eatWord hw
  obtain ⟨_, heat⟩ := hsp.eat hl
  rw [catchClause, heatWord]
  dsimp only
  rw [heat]
  refine (hsp.expectName hn).bind fun _ => (hsp.expect hr).bind fun _ => hb.bind fun _ => ?_
  dsimp only
  rw [range_behind (by omega)]
  exact .pure _

theorem finallyClause_none {i : Nat} (hw : ¬ Word ts i .finallyKw) :
    Reads (finallyClause (behind tokens i)) none (behind tokens i) := by
  rw [finallyClause, hsp.eatWord_none hw]
  exact .pure _

theorem finallyClause_some {i j : Nat} {body : List Stmt} (hw : Word ts i .finallyKw)
    (hb : Reads (block (behind tokens (i + 1))) body (behind tokens j)) :
    Reads (finallyClause (behind tokens i)) (some body) (behind tokens j) := by
  obtain ⟨_, heat⟩ := hsp.eatWord hw
  rw [finallyClause, heat]
  exact hb.bind fun _ => .pure _

end

end Parse

end ScriptMachine
