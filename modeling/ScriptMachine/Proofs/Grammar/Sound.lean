import ScriptMachine.Proofs.Grammar.Phrases
import ScriptMachine.Proofs.Grammar.Reads

/-!
# What is read is a phrase

If a reading function succeeds, then the tokens between the two cursors are a phrase of its kind, and
the tree that was read is the tree of the phrase.  A loop is handed the phrase in front of the cursor
and makes it longer.

* `operator_sound`      an operator of a level has the strength of the level;
* `ExpressionsSound`    what is read of expressions, for all that is smaller than a bound;
* `expression_step`, `binary_step`, ...   one lemma for each function that reads them;
* `expression_sound`, `statement_sound`   the main statements;
* `program_sound`       whole token lists.
-/

set_option linter.unusedSectionVars false

namespace ScriptMachine.Parse

open Grammar Cursor

section
variable {tokens : List Token} {ts : List TokenKind} (hsp : Spells tokens ts)
include hsp

/-! ## parameters -/

theorem names_sound (i : Nat) (list : List String) (c : Cursor)
    (h : Reads (names (behind tokens i)) list c) :
    ∃ j, c = behind tokens j ∧ Names ts i j list := by
  rw [names] at h
  obtain ⟨name, c₁, h₁, rname, h⟩ := h.of_bind
  obtain ⟨hn, rfl⟩ := hsp.of_expectName rname
  dsimp only at h
  split at h
  · rename_i c₂ h₂ heat
    obtain ⟨hc, rfl⟩ := hsp.of_eat heat
    obtain ⟨more, c₃, h₃, rmore, h⟩ := h.of_bind
    obtain ⟨j, rfl, hmore⟩ := names_sound _ _ _ rmore
    obtain ⟨rfl, rfl⟩ := h.of_pure
    exact ⟨j, rfl, .more hn hc hmore⟩
  · obtain ⟨rfl, rfl⟩ := h.of_pure
    exact ⟨i + 1, rfl, .one hn⟩
termination_by (behind tokens i).size
decreasing_by omega

theorem parameters_sound {i : Nat} {params : List String} {c : Cursor}
    (h : Reads (parameters (behind tokens i)) params c) :
    ∃ j, c = behind tokens j ∧ Parameters ts i j params := by
  unfold parameters at h
  split at h
  · obtain ⟨_, c₁, h₁, rclose, h⟩ := h.of_bind
    obtain ⟨hr, rfl⟩ := hsp.of_expect rclose
    obtain ⟨rfl, rfl⟩ := h.of_pure
    exact ⟨i + 1, rfl, .none hr⟩
  · obtain ⟨list, c₁, h₁, rnames, h⟩ := h.of_bind
    obtain ⟨m, rfl, hnames⟩ := names_sound hsp _ _ _ rnames
    obtain ⟨_, c₂, h₂, rclose, h⟩ := h.of_bind
    obtain ⟨hr, rfl⟩ := hsp.of_expect rclose
    obtain ⟨rfl, rfl⟩ := h.of_pure
    exact ⟨m + 1, rfl, .some hnames hr⟩

/-! ## pieces of expressions -/

theorem operator_sound {i n : Nat} {level : Level} {tighter : List Level} {op : Operator}
    {c : Cursor} {hc : c.size < (behind tokens i).size}
    (hlevel : Level.all.drop n = level :: tighter)
    (h : (behind tokens i).operator? level = some ⟨op, c, hc⟩) :
    ∃ s form, Sym ts i s ∧ c = behind tokens (i + 1) ∧ Operates n s form
      ∧ ∀ l r, op.apply l r = .node (form l r) (l.range.join r.range) := by
  unfold Cursor.operator? at h
  split at h
  · rename_i s c₁ h₁ htake
    obtain ⟨hs, rfl⟩ := hsp.of_take htake (by simp)
    obtain ⟨op', hop, heq⟩ := Option.map_eq_some_iff.mp h
    cases heq
    obtain ⟨form, hform, happly⟩ := operates_of_level hlevel hop
    exact ⟨s, form, hs, rfl, hform, happly⟩
  · cases h

/-- a token that is an expression by itself -/
theorem leaf_sound {i : Nat} {k : TokenKind} {form : ExprForm} {e : Expr} {c c₁ : Cursor}
    {h₁ : c₁.size < (behind tokens i).size} (hk : k ≠ .eof)
    (htake : (behind tokens i).take? = some ⟨k, c₁, h₁⟩)
    (h : Reads (pure ⟨.node form (c₁.rangeFrom (behind tokens i).index), c₁, h₁⟩) e c)
    (hp : ts[i]? = some k → Primary ts i (i + 1) (.node form (span i (i + 1)))) :
    ∃ j, c = behind tokens j ∧ Primary ts i j e := by
  obtain ⟨hi, rfl⟩ := hsp.of_take htake hk
  obtain ⟨rfl, rfl⟩ := h.of_pure
  refine ⟨i + 1, rfl, ?_⟩
  rw [range_behind (by omega)]
  exact hp hi

/-- a word and the semicolon that ends its statement -/
theorem wordEnd_sound {i : Nat} {w : Keyword} {c₁ c : Cursor} {place : String} {u : Unit}
    {h₁ : c₁.size < (behind tokens i).size}
    (htake : (behind tokens i).take? = some ⟨.keyword w, c₁, h₁⟩)
    (h : Reads (c₁.expect .semicolon place) u c) :
    Word ts i w ∧ Sym ts (i + 1) .semicolon ∧ c = behind tokens (i + 2) := by
  obtain ⟨hw, rfl⟩ := hsp.of_take htake (by simp)
  obtain ⟨hs, rfl⟩ := hsp.of_expect h
  exact ⟨hw, hs, rfl⟩

end

/-! ## blocks and functions -/

/-- where fewer than `n` tokens are ahead, the statements that are read are phrases -/
def StatementsSound (tokens : List Token) (ts : List TokenKind) (n : Nat) : Prop :=
  ∀ i stmt c, (behind tokens i).size < n → Reads (statement (behind tokens i)) stmt c →
    ∃ dangling j, c = behind tokens j ∧ Statement ts dangling i j stmt
      ∧ (dangling = true → ¬ Word ts j .elseKw)

/-- what is read of expressions is phrases, for all reading functions whose measure is below `b` -/
structure ExpressionsSound (tokens : List Token) (ts : List TokenKind) (n b : Nat) : Prop where
  expression (i : Nat) (hi : (behind tokens i).size ≤ n) (e : Expr) (c : Cursor)
      (h : Reads (expression (behind tokens i)) e c)
      (hlt : (behind tokens i).size * 32 + 10 < b) :
    ∃ j, c = behind tokens j ∧ Expression ts i j e
  binary (k : Nat) (levels : List Level) (hlevels : Level.all.drop k = levels)
      (hk : k ≤ 6) (i : Nat) (hi : (behind tokens i).size ≤ n)
      (e : Expr) (c : Cursor) (h : Reads (binary levels (behind tokens i)) e c)
      (hlt : (behind tokens i).size * 32 + 3 + levels.length < b) :
    ∃ j, c = behind tokens j ∧ Joined ts k i j e
  binaryRest (k : Nat) (level : Level) (tighter : List Level)
      (hlevel : Level.all.drop k = level :: tighter) (i m : Nat) (left : Expr) (hm : i < m)
      (hi : (behind tokens m).size ≤ n) (hl : Joined ts k i m left) (e : Expr) (c : Cursor)
      (h : Reads (binaryRest level tighter left (behind tokens m)) e c)
      (hlt : (behind tokens m).size * 32 + 3 + tighter.length < b) :
    ∃ j, c = behind tokens j ∧ Joined ts k i j e
  unary (i : Nat) (hi : (behind tokens i).size ≤ n) (e : Expr) (c : Cursor)
      (h : Reads (unary (behind tokens i)) e c)
      (hlt : (behind tokens i).size * 32 + 2 < b) :
    ∃ j, c = behind tokens j ∧ Signed ts i j e
  accesses (i m : Nat) (first : Expr) (hm : i < m)
      (hi : (behind tokens m).size ≤ n) (hf : Chain ts i m first) (e : Expr) (c : Cursor)
      (h : Reads (accesses i first (behind tokens m)) e c)
      (hlt : (behind tokens m).size * 32 < b) :
    ∃ j, c = behind tokens j ∧ Chain ts i j e
  elements (close : Symbol) (place : String) (i : Nat)
      (hi : (behind tokens i).size ≤ n) (list : List Expr) (c : Cursor)
      (h : Reads (elements close place (behind tokens i)) list c)
      (hlt : (behind tokens i).size * 32 + 12 < b) :
    ∃ j, c = behind tokens j ∧ Listed ts close i j list
  expressions (i : Nat) (hi : (behind tokens i).size ≤ n) (list : List Expr)
      (c : Cursor) (h : Reads (expressions (behind tokens i)) list c)
      (hlt : (behind tokens i).size * 32 + 11 < b) :
    ∃ j, c = behind tokens j ∧ Several ts i j list
  primary (i : Nat) (hi : (behind tokens i).size ≤ n) (e : Expr) (c : Cursor)
      (h : Reads (primary (behind tokens i)) e c)
      (hlt : (behind tokens i).size * 32 + 1 < b) :
    ∃ j, c = behind tokens j ∧ Primary ts i j e

section
variable {tokens : List Token} {ts : List TokenKind} {n : Nat} (hsp : Spells tokens ts)
  (hst : StatementsSound tokens ts n)
include hsp hst

theorem blockRest_sound (i : Nat) (hi : (behind tokens i).size < n) (body : List Stmt)
    (c : Cursor) (h : Reads (blockRest (behind tokens i)) body c) :
    ∃ j, c = behind tokens (j + 1) ∧ Statements ts i j body ∧ Sym ts j .rbrace := by
  rw [blockRest] at h
  split at h
  · rename_i c₁ h₁ heat
    obtain ⟨hr, rfl⟩ := hsp.of_eat heat
    obtain ⟨rfl, rfl⟩ := h.of_pure
    exact ⟨i, rfl, .nil, hr⟩
  · dsimp only at h
    split at h
    · exact (Reads.not_error h).elim
    · obtain ⟨stmt, c₁, h₁, rs, h⟩ := h.of_bind
      obtain ⟨dangling, m, rfl, hs, _⟩ := hst _ _ _ hi rs
      obtain ⟨more, c₂, h₂, rm, h⟩ := h.of_bind
      obtain ⟨j, rfl, hm, hr⟩ := blockRest_sound _ (by omega) _ _ rm
      obtain ⟨rfl, rfl⟩ := h.of_pure
      exact ⟨j, rfl, .cons hs hm, hr⟩
termination_by (behind tokens i).size
decreasing_by omega

theorem block_sound {i : Nat} (hi : (behind tokens i).size ≤ n) {body : List Stmt} {c : Cursor}
    (h : Reads (block (behind tokens i)) body c) :
    ∃ j, c = behind tokens j ∧ Block ts i j body := by
  rw [block] at h
  obtain ⟨_, c₁, h₁, rl, h⟩ := h.of_bind
  obtain ⟨hl, rfl⟩ := hsp.of_expect rl
  obtain ⟨list, c₂, h₂, rb, h⟩ := h.of_bind
  obtain ⟨j, rfl, hb, hr⟩ := blockRest_sound hsp hst _ (by omega) _ _ rb
  obtain ⟨rfl, rfl⟩ := h.of_pure
  exact ⟨j + 1, rfl, .mk hl hb hr⟩

theorem functionRest_sound {start i : Nat} {required : Bool} (hstart : start ≤ i)
    (hi : (behind tokens i).size ≤ n) {decl : FunctionDecl} {c : Cursor}
    (h : Reads (functionRest start required (behind tokens i)) decl c) :
    ∃ j, c = behind tokens j
      ∧ ((∃ name, Name ts i name ∧ Callable ts start (some name) (i + 1) j decl)
        ∨ required = false ∧ Callable ts start none i j decl) := by
  rw [functionRest] at h
  split at h
  · rename_i name c₁ h₁ htake
    obtain ⟨hn, rfl⟩ := hsp.of_take htake (by simp)
    obtain ⟨_, c₂, h₂, rl, h⟩ := h.of_bind
    obtain ⟨hl, rfl⟩ := hsp.of_expect rl
    obtain ⟨params, c₃, h₃, rp, h⟩ := h.of_bind
    obtain ⟨m, rfl, hp⟩ := parameters_sound hsp rp
    have hm : i + 2 < m := lt_of_size_lt h₃
    obtain ⟨body, c₄, h₄, rb, h⟩ := h.of_bind
    obtain ⟨j, rfl, hb⟩ := block_sound hsp hst (by omega) rb
    have hj : m < j := lt_of_size_lt h₄
    obtain ⟨rfl, rfl⟩ := h.of_pure
    refine ⟨j, rfl, .inl ⟨name, hn, ?_⟩⟩
    rw [rangeFrom_behind (by omega)]
    exact .mk hl hp hb
  · split at h
    · exact (Reads.not_error h).elim
    · obtain ⟨_, c₁, h₁, rl, h⟩ := h.of_bind
      obtain ⟨hl, rfl⟩ := hsp.of_expect rl
      obtain ⟨params, c₂, h₂, rp, h⟩ := h.of_bind
      obtain ⟨m, rfl, hp⟩ := parameters_sound hsp rp
      have hm : i + 1 < m := lt_of_size_lt h₂
      obtain ⟨body, c₃, h₃, rb, h⟩ := h.of_bind
      obtain ⟨j, rfl, hb⟩ := block_sound hsp hst (by omega) rb
      have hj : m < j := lt_of_size_lt h₃
      obtain ⟨rfl, rfl⟩ := h.of_pure
      refine ⟨j, rfl, .inr ⟨by simpa using ‹¬ required = true›, ?_⟩⟩
      rw [rangeFrom_behind (by omega)]
      exact .mk hl hp hb

theorem methods_sound (i : Nat) (hi : (behind tokens i).size ≤ n)
    (list : List FunctionDecl) (c : Cursor)
    (h : Reads (methods (behind tokens i)) list c) :
    ∃ j, c = behind tokens (j + 1) ∧ Methods ts i j list ∧ Sym ts j .rbrace := by
  rw [methods] at h
  split at h
  · rename_i c₁ h₁ heat
    obtain ⟨hr, rfl⟩ := hsp.of_eat heat
    obtain ⟨rfl, rfl⟩ := h.of_pure
    exact ⟨i, rfl, .nil, hr⟩
  · dsimp only at h
    split at h
    · exact (Reads.not_error h).elim
    · obtain ⟨method, c₁, h₁, rd, h⟩ := h.of_bind
      obtain ⟨m, rfl, hd⟩ := functionRest_sound hsp hst (Nat.le_refl i) hi rd
      obtain ⟨more, c₂, h₂, rm, h⟩ := h.of_bind
      obtain ⟨j, rfl, hm, hr⟩ := methods_sound _ (by omega) _ _ rm
      obtain ⟨rfl, rfl⟩ := h.of_pure
      rcases hd with ⟨name, hn, hd⟩ | ⟨hfalse, _⟩
      · exact ⟨j, rfl, .cons hn hd hm, hr⟩
      · cases hfalse
termination_by (behind tokens i).size
decreasing_by omega

/-! ## expressions -/

theorem expression_step (i : Nat) (hi : (behind tokens i).size ≤ n) (e : Expr) (c : Cursor)
    (ih : ExpressionsSound tokens ts n ((behind tokens i).size * 32 + 10))
    (h : Reads (expression (behind tokens i)) e c) :
    ∃ j, c = behind tokens j ∧ Expression ts i j e := by
  rw [expression] at h
  obtain ⟨target, c₁, h₁, rt, h⟩ := h.of_bind
  obtain ⟨m, rfl, ht⟩ := ih.binary 0 Level.all rfl (by omega) i hi _ _ rt (by simp [Level.all])
  dsimp only at h
  split at h
  · rename_i c₂ h₂ heat
    obtain ⟨hs, rfl⟩ := hsp.of_eat heat
    obtain ⟨value, c₃, h₃, rv, h⟩ := h.of_bind
    obtain ⟨j, rfl, hv⟩ := ih.expression _ (by omega) _ _ rv (by omega)
    obtain ⟨rfl, rfl⟩ := h.of_pure
    refine ⟨j, rfl, ?_⟩
    rw [ht.range, hv.range, join_span (lt_of_size_lt h₁) (lt_of_size_lt h₃)]
    exact .assign ht hs hv
  · obtain ⟨rfl, rfl⟩ := h.of_pure
    exact ⟨m, rfl, .joined ht⟩

theorem binary_step (k : Nat) (levels : List Level) (hlevels : Level.all.drop k = levels)
    (hk : k ≤ 6) (i : Nat) (hi : (behind tokens i).size ≤ n)
    (e : Expr) (c : Cursor)
    (ih : ExpressionsSound tokens ts n ((behind tokens i).size * 32 + 3 + levels.length))
    (h : Reads (binary levels (behind tokens i)) e c) :
    ∃ j, c = behind tokens j ∧ Joined ts k i j e := by
  match levels, hlevels with
  | [], hlevels =>
    have hk6 : 6 ≤ k := List.drop_eq_nil_iff.mp hlevels
    obtain rfl : k = 6 := by omega
    rw [binary] at h
    obtain ⟨j, rfl, hs⟩ := ih.unary _ hi _ _ h (by omega)
    exact ⟨j, rfl, .signed hs⟩
  | level :: tighter, hlevels =>
    obtain ⟨htighter, hk6⟩ := drop_levels hlevels
    rw [binary] at h
    obtain ⟨left, c₁, h₁, rl, h⟩ := h.of_bind
    obtain ⟨m, rfl, hl⟩ := ih.binary (k + 1) tighter htighter hk6 _ hi _ _ rl
      (by rw [List.length_cons]; omega)
    obtain ⟨whole, c₂, h₂, rw, h⟩ := h.of_bind
    obtain ⟨j, rfl, hw⟩ := ih.binaryRest k level tighter hlevels i m left (lt_of_size_lt h₁) (by omega)
      hl.tighter _ _ rw (by rw [List.length_cons]; omega)
    obtain ⟨rfl, rfl⟩ := h.of_pure
    exact ⟨j, rfl, hw⟩

theorem binaryRest_step (k : Nat) (level : Level) (tighter : List Level)
    (hlevel : Level.all.drop k = level :: tighter) (i m : Nat) (left : Expr) (hm : i < m)
    (hi : (behind tokens m).size ≤ n) (hl : Joined ts k i m left) (e : Expr) (c : Cursor)
    (ih : ExpressionsSound tokens ts n ((behind tokens m).size * 32 + 3 + tighter.length))
    (h : Reads (binaryRest level tighter left (behind tokens m)) e c) :
    ∃ j, c = behind tokens j ∧ Joined ts k i j e := by
  obtain ⟨htighter, hk6⟩ := drop_levels hlevel
  rw [binaryRest] at h
  split at h
  · rename_i op c₁ h₁ hop
    obtain ⟨s, form, hs, rfl, hform, happly⟩ := operator_sound hsp hlevel hop
    obtain ⟨right, c₂, h₂, rr, h⟩ := h.of_bind
    obtain ⟨l, rfl, hr⟩ := ih.binary (k + 1) tighter htighter hk6 _ (by omega) _ _ rr (by omega)
    have hl' : m + 1 < l := lt_of_size_lt h₂
    have happ : op.apply left right = .node (form left right) (span i l) := by
      rw [happly, hl.range, hr.range, join_span hm hl']
    obtain ⟨whole, c₃, h₃, rw, h⟩ := h.of_bind
    obtain ⟨j, rfl, hw⟩ := ih.binaryRest k level tighter hlevel i l (op.apply left right)
      (by omega) (by omega) (happ ▸ hl.join hs hform hr) _ _ rw (by omega)
    obtain ⟨rfl, rfl⟩ := h.of_pure
    exact ⟨j, rfl, hw⟩
  · obtain ⟨rfl, rfl⟩ := h.of_pure
    exact ⟨m, rfl, hl⟩

theorem unary_step (i : Nat) (hi : (behind tokens i).size ≤ n) (e : Expr) (c : Cursor)
    (ih : ExpressionsSound tokens ts n ((behind tokens i).size * 32 + 2))
    (h : Reads (unary (behind tokens i)) e c) :
    ∃ j, c = behind tokens j ∧ Signed ts i j e := by
  rw [unary] at h
  split at h
  · rename_i c₁ h₁ htake
    obtain ⟨hs, rfl⟩ := hsp.of_take htake (by simp)
    obtain ⟨operand, c₂, h₂, ro, h⟩ := h.of_bind
    obtain ⟨j, rfl, ho⟩ := ih.unary _ (by omega) _ _ ro (by omega)
    obtain ⟨rfl, rfl⟩ := h.of_pure
    have hj : i + 1 < j := lt_of_size_lt h₂
    refine ⟨j, rfl, ?_⟩
    rw [range_behind (by omega)]
    exact .not hs ho
  · rename_i c₁ h₁ htake
    obtain ⟨hs, rfl⟩ := hsp.of_take htake (by simp)
    obtain ⟨operand, c₂, h₂, ro, h⟩ := h.of_bind
    obtain ⟨j, rfl, ho⟩ := ih.unary _ (by omega) _ _ ro (by omega)
    obtain ⟨rfl, rfl⟩ := h.of_pure
    have hj : i + 1 < j := lt_of_size_lt h₂
    refine ⟨j, rfl, ?_⟩
    rw [range_behind (by omega)]
    exact .neg hs ho
  · obtain ⟨first, c₁, h₁, rf, h⟩ := h.of_bind
    obtain ⟨m, rfl, hf⟩ := ih.primary _ hi _ _ rf (by omega)
    obtain ⟨whole, c₂, h₂, rw, h⟩ := h.of_bind
    obtain ⟨j, rfl, hw⟩ := ih.accesses i m first (lt_of_size_lt h₁) (by omega) (.primary hf) _ _
      rw (by omega)
    obtain ⟨rfl, rfl⟩ := h.of_pure
    exact ⟨j, rfl, .chain hw⟩

theorem accesses_step (i m : Nat) (first : Expr) (hm : i < m)
    (hi : (behind tokens m).size ≤ n) (hf : Chain ts i m first) (e : Expr) (c : Cursor)
    (ih : ExpressionsSound tokens ts n ((behind tokens m).size * 32))
    (h : Reads (accesses i first (behind tokens m)) e c) :
    ∃ j, c = behind tokens j ∧ Chain ts i j e := by
  rw [accesses] at h
  split at h
  · rename_i c₁ h₁ htake
    obtain ⟨hs, rfl⟩ := hsp.of_take htake (by simp)
    obtain ⟨args, c₂, h₂, ra, h⟩ := h.of_bind
    obtain ⟨k, rfl, ha⟩ := ih.elements _ _ _ (by omega) _ _ ra (by omega)
    have hk : m + 1 < k := lt_of_size_lt h₂
    dsimp only at h
    rw [rangeFrom_behind (by omega)] at h
    obtain ⟨whole, c₃, h₃, rw, h⟩ := h.of_bind
    obtain ⟨j, rfl, hw⟩ := ih.accesses i k _ (by omega) (by omega) (.call hf hs ha) _ _ rw (by omega)
    obtain ⟨rfl, rfl⟩ := h.of_pure
    exact ⟨j, rfl, hw⟩
  · rename_i c₁ h₁ htake
    obtain ⟨hs, rfl⟩ := hsp.of_take htake (by simp)
    obtain ⟨property, c₂, h₂, rn, h⟩ := h.of_bind
    obtain ⟨hn, rfl⟩ := hsp.of_expectName rn
    dsimp only at h
    rw [rangeFrom_behind (by omega)] at h
    obtain ⟨whole, c₃, h₃, rw, h⟩ := h.of_bind
    obtain ⟨j, rfl, hw⟩ := ih.accesses i (m + 1 + 1) _ (by omega) (by omega) (.member hf hs hn) _ _ rw (by omega)
    obtain ⟨rfl, rfl⟩ := h.of_pure
    exact ⟨j, rfl, hw⟩
  · rename_i c₁ h₁ htake
    obtain ⟨hs, rfl⟩ := hsp.of_take htake (by simp)
    obtain ⟨key, c₂, h₂, rk, h⟩ := h.of_bind
    obtain ⟨k, rfl, hk⟩ := ih.expression _ (by omega) _ _ rk (by omega)
    have hlt : m + 1 < k := lt_of_size_lt h₂
    obtain ⟨_, c₃, h₃, rr, h⟩ := h.of_bind
    obtain ⟨hr, rfl⟩ := hsp.of_expect rr
    dsimp only at h
    rw [rangeFrom_behind (by omega)] at h
    obtain ⟨whole, c₄, h₄, rw, h⟩ := h.of_bind
    obtain ⟨j, rfl, hw⟩ := ih.accesses i (k + 1) _ (by omega) (by omega) (.index hf hs hk hr) _ _ rw (by omega)
    obtain ⟨rfl, rfl⟩ := h.of_pure
    exact ⟨j, rfl, hw⟩
  · obtain ⟨rfl, rfl⟩ := h.of_pure
    exact ⟨m, rfl, hf⟩

theorem elements_step (close : Symbol) (place : String) (i : Nat)
    (hi : (behind tokens i).size ≤ n) (list : List Expr) (c : Cursor)
    (ih : ExpressionsSound tokens ts n ((behind tokens i).size * 32 + 12))
    (h : Reads (elements close place (behind tokens i)) list c) :
    ∃ j, c = behind tokens j ∧ Listed ts close i j list := by
  rw [elements] at h
  split at h
  · rename_i c₁ h₁ heat
    obtain ⟨hc, rfl⟩ := hsp.of_eat heat
    obtain ⟨rfl, rfl⟩ := h.of_pure
    exact ⟨i + 1, rfl, .none hc⟩
  · obtain ⟨es, c₁, h₁, re, h⟩ := h.of_bind
    obtain ⟨m, rfl, he⟩ := ih.expressions _ hi _ _ re (by omega)
    obtain ⟨_, c₂, h₂, rc, h⟩ := h.of_bind
    obtain ⟨hc, rfl⟩ := hsp.of_expect rc
    obtain ⟨rfl, rfl⟩ := h.of_pure
    exact ⟨m + 1, rfl, .some he hc⟩

theorem expressions_step (i : Nat) (hi : (behind tokens i).size ≤ n) (list : List Expr)
    (c : Cursor)
    (ih : ExpressionsSound tokens ts n ((behind tokens i).size * 32 + 11))
    (h : Reads (expressions (behind tokens i)) list c) :
    ∃ j, c = behind tokens j ∧ Several ts i j list := by
  rw [expressions] at h
  obtain ⟨e, c₁, h₁, re, h⟩ := h.of_bind
  obtain ⟨m, rfl, he⟩ := ih.expression _ hi _ _ re (by omega)
  dsimp only at h
  split at h
  · rename_i c₂ h₂ heat
    obtain ⟨hc, rfl⟩ := hsp.of_eat heat
    obtain ⟨more, c₃, h₃, rm, h⟩ := h.of_bind
    obtain ⟨j, rfl, hm⟩ := ih.expressions _ (by omega) _ _ rm (by omega)
    obtain ⟨rfl, rfl⟩ := h.of_pure
    exact ⟨j, rfl, .more he hc hm⟩
  · obtain ⟨rfl, rfl⟩ := h.of_pure
    exact ⟨m, rfl, .one he⟩

theorem primary_step (i : Nat) (hi : (behind tokens i).size ≤ n) (e : Expr) (c : Cursor)
    (ih : ExpressionsSound tokens ts n ((behind tokens i).size * 32 + 1))
    (h : Reads (primary (behind tokens i)) e c) :
    ∃ j, c = behind tokens j ∧ Primary ts i j e := by
  rw [primary] at h
  dsimp only at h
  split at h
  -- one token
  · rename_i htake
    exact leaf_sound hsp (by simp) htake h .number
  · rename_i htake
    exact leaf_sound hsp (by simp) htake h .string
  · rename_i htake
    exact leaf_sound hsp (by simp) htake h .name
  · rename_i htake
    exact leaf_sound hsp (by simp) htake h .true
  · rename_i htake
    exact leaf_sound hsp (by simp) htake h .false
  · rename_i htake
    exact leaf_sound hsp (by simp) htake h .null
  · rename_i htake
    exact leaf_sound hsp (by simp) htake h .undefined
  · rename_i htake
    exact leaf_sound hsp (by simp) htake h .this
  -- an expression in parentheses
  · rename_i c₁ h₁ htake
    obtain ⟨hl, rfl⟩ := hsp.of_take htake (by simp)
    obtain ⟨inner, c₂, h₂, ri, h⟩ := h.of_bind
    obtain ⟨j, rfl, hi⟩ := ih.expression _ (by omega) _ _ ri (by omega)
    have hj : i + 1 < j := lt_of_size_lt h₂
    obtain ⟨_, c₃, h₃, rr, h⟩ := h.of_bind
    obtain ⟨hr, rfl⟩ := hsp.of_expect rr
    obtain ⟨rfl, rfl⟩ := h.of_pure
    refine ⟨j + 1, rfl, ?_⟩
    rw [range_behind (by omega)]
    exact .parens hl hi hr
  -- an array
  · rename_i c₁ h₁ htake
    obtain ⟨hl, rfl⟩ := hsp.of_take htake (by simp)
    obtain ⟨list, c₂, h₂, rl, h⟩ := h.of_bind
    obtain ⟨j, rfl, hlist⟩ := ih.elements _ _ _ (by omega) _ _ rl (by omega)
    have hj : i + 1 < j := lt_of_size_lt h₂
    obtain ⟨rfl, rfl⟩ := h.of_pure
    refine ⟨j, rfl, ?_⟩
    rw [range_behind (by omega)]
    exact .array hl hlist
  -- a function, with a name or without
  · rename_i c₁ h₁ htake
    obtain ⟨hw, rfl⟩ := hsp.of_take htake (by simp)
    obtain ⟨decl, c₂, h₂, rd, h⟩ := h.of_bind
    obtain ⟨j, rfl, hd⟩ := functionRest_sound hsp hst (Nat.le_add_right i 1) (by omega) rd
    have hj : i + 1 < j := lt_of_size_lt h₂
    obtain ⟨rfl, rfl⟩ := h.of_pure
    refine ⟨j, rfl, ?_⟩
    rw [range_behind (by omega)]
    rcases hd with ⟨name, hn, hd⟩ | ⟨_, hd⟩
    · exact .named hw hn hd
    · exact .anonymous hw hd
  -- a new object
  · rename_i c₁ h₁ htake
    obtain ⟨hw, rfl⟩ := hsp.of_take htake (by simp)
    obtain ⟨className, c₂, h₂, rn, h⟩ := h.of_bind
    obtain ⟨hn, rfl⟩ := hsp.of_expectName rn
    dsimp only at h
    obtain ⟨_, c₃, h₃, rl, h⟩ := h.of_bind
    obtain ⟨hl, rfl⟩ := hsp.of_expect rl
    dsimp only at h
    obtain ⟨args, c₄, h₄, ra, h⟩ := h.of_bind
    obtain ⟨j, rfl, ha⟩ := ih.elements _ _ _ (by omega) _ _ ra (by omega)
    have hj : i + 3 < j := lt_of_size_lt h₄
    obtain ⟨rfl, rfl⟩ := h.of_pure
    refine ⟨j, rfl, ?_⟩
    rw [range_behind (by omega)]
    exact .new hw hn hl ha
  · exact h.not_error.elim

/-- on the measure: a reading function calls those of a smaller one -/
theorem expressionsSound (b : Nat) : ExpressionsSound tokens ts n b := by
  induction b using Nat.strongRecOn with
  | ind b ih =>
  exact {
    expression := fun i hi e c h hlt => expression_step hsp hst i hi e c (ih _ hlt) h
    binary := fun k levels hlevels hk i hi e c h hlt =>
      binary_step hsp hst k levels hlevels hk i hi e c (ih _ hlt) h
    binaryRest := fun k level tighter hlevel i m left hm hi hl e c h hlt =>
      binaryRest_step hsp hst k level tighter hlevel i m left hm hi hl e c (ih _ hlt) h
    unary := fun i hi e c h hlt => unary_step hsp hst i hi e c (ih _ hlt) h
    accesses := fun i m first hm hi hf e c h hlt =>
      accesses_step hsp hst i m first hm hi hf e c (ih _ hlt) h
    elements := fun close place i hi list c h hlt =>
      elements_step hsp hst close place i hi list c (ih _ hlt) h
    expressions := fun i hi list c h hlt => expressions_step hsp hst i hi list c (ih _ hlt) h
    primary := fun i hi e c h hlt => primary_step hsp hst i hi e c (ih _ hlt) h }

theorem expression_sound (i : Nat) (hi : (behind tokens i).size ≤ n) (e : Expr) (c : Cursor)
    (h : Reads (expression (behind tokens i)) e c) :
    ∃ j, c = behind tokens j ∧ Expression ts i j e :=
  (expressionsSound hsp hst _).expression i hi e c h (Nat.lt_succ_self _)

/-! ## parts of statements -/

theorem expressionStatement_sound {place : String} {i : Nat} (hi : (behind tokens i).size ≤ n)
    {stmt : Stmt} {c : Cursor}
    (h : Reads (expressionStatement place (behind tokens i)) stmt c) :
    ∃ j e, c = behind tokens (j + 1) ∧ Expression ts i j e ∧ Sym ts j .semicolon
      ∧ stmt = .node (.expression e) (span i (j + 1)) := by
  rw [expressionStatement] at h
  obtain ⟨e, c₁, h₁, re, h⟩ := h.of_bind
  obtain ⟨j, rfl, he⟩ := expression_sound hsp hst _ hi _ _ re
  have hj : i < j := lt_of_size_lt h₁
  obtain ⟨_, c₂, h₂, rs, h⟩ := h.of_bind
  obtain ⟨hs, rfl⟩ := hsp.of_expect rs
  obtain ⟨rfl, rfl⟩ := h.of_pure
  refine ⟨j, e, rfl, he, hs, ?_⟩
  rw [range_behind (by omega)]

theorem varDeclaration_sound {i : Nat} (hi : (behind tokens i).size ≤ n) {w : Keyword}
    (hw : w ∈ [Keyword.varKw, .letKw, .constKw]) {c₀ : Cursor}
    {h₀ : c₀.size < (behind tokens i).size}
    (htake : (behind tokens i).take? = some ⟨.keyword w, c₀, h₀⟩) {stmt : Stmt} {c : Cursor}
    (h : Reads (varDeclaration i c₀) stmt c) :
    ∃ j, c = behind tokens j ∧ Declaration ts i j stmt := by
  obtain ⟨hword, rfl⟩ := hsp.of_take htake (by simp)
  rw [varDeclaration] at h
  obtain ⟨name, c₁, h₁, rn, h⟩ := h.of_bind
  obtain ⟨hn, rfl⟩ := hsp.of_expectName rn
  dsimp only at h
  split at h
  · rename_i c₂ h₂ heat
    obtain ⟨ha, rfl⟩ := hsp.of_eat heat
    obtain ⟨e, c₃, h₃, re, h⟩ := h.of_bind
    obtain ⟨j, rfl, he⟩ := expression_sound hsp hst _ (by omega) _ _ re
    have hj : i + 3 < j := lt_of_size_lt h₃
    obtain ⟨_, c₄, h₄, rs, h⟩ := h.of_bind
    obtain ⟨hs, rfl⟩ := hsp.of_expect rs
    obtain ⟨rfl, rfl⟩ := h.of_pure
    refine ⟨j + 1, rfl, ?_⟩
    rw [rangeFrom_behind (by omega)]
    exact .init hw hword hn ha he hs
  · obtain ⟨_, c₂, h₂, rs, h⟩ := h.of_bind
    obtain ⟨hs, rfl⟩ := hsp.of_expect rs
    obtain ⟨rfl, rfl⟩ := h.of_pure
    refine ⟨i + 3, rfl, ?_⟩
    rw [rangeFrom_behind (by omega)]
    exact .bare hw hword hn hs

theorem forInit_sound {i : Nat} (hi : (behind tokens i).size ≤ n) {init : Option Stmt} {c : Cursor}
    (h : Reads (forInit (behind tokens i)) init c) :
    ∃ j, c = behind tokens j ∧ Initializer ts i j init := by
  rw [forInit] at h
  split at h
  · rename_i c₁ h₁ htake
    obtain ⟨hs, rfl⟩ := hsp.of_take htake (by simp)
    obtain ⟨rfl, rfl⟩ := h.of_pure
    exact ⟨i + 1, rfl, .none hs⟩
  · rename_i htake
    obtain ⟨stmt, c₁, h₁, rd, h⟩ := h.of_bind
    obtain ⟨j, rfl, hd⟩ := varDeclaration_sound hsp hst hi (by simp) htake rd
    obtain ⟨rfl, rfl⟩ := h.of_pure
    exact ⟨j, rfl, .varDecl hd⟩
  · rename_i htake
    obtain ⟨stmt, c₁, h₁, rd, h⟩ := h.of_bind
    obtain ⟨j, rfl, hd⟩ := varDeclaration_sound hsp hst hi (by simp) htake rd
    obtain ⟨rfl, rfl⟩ := h.of_pure
    exact ⟨j, rfl, .varDecl hd⟩
  · rename_i htake
    obtain ⟨stmt, c₁, h₁, rd, h⟩ := h.of_bind
    obtain ⟨j, rfl, hd⟩ := varDeclaration_sound hsp hst hi (by simp) htake rd
    obtain ⟨rfl, rfl⟩ := h.of_pure
    exact ⟨j, rfl, .varDecl hd⟩
  · obtain ⟨stmt, c₁, h₁, re, h⟩ := h.of_bind
    obtain ⟨j, e, rfl, he, hs, rfl⟩ := expressionStatement_sound hsp hst hi re
    obtain ⟨rfl, rfl⟩ := h.of_pure
    exact ⟨j + 1, rfl, .expression he hs⟩

theorem clause_sound {close : Symbol} {place : String} {i : Nat}
    (hi : (behind tokens i).size ≤ n) {value : Option Expr} {c : Cursor}
    (h : Reads (clause close place (behind tokens i)) value c) :
    ∃ j, c = behind tokens j ∧ Clause ts close i j value := by
  rw [clause] at h
  split at h
  · rename_i c₁ h₁ heat
    obtain ⟨hc, rfl⟩ := hsp.of_eat heat
    obtain ⟨rfl, rfl⟩ := h.of_pure
    exact ⟨i + 1, rfl, .none hc⟩
  · obtain ⟨e, c₁, h₁, re, h⟩ := h.of_bind
    obtain ⟨m, rfl, he⟩ := expression_sound hsp hst _ hi _ _ re
    obtain ⟨_, c₂, h₂, rc, h⟩ := h.of_bind
    obtain ⟨hc, rfl⟩ := hsp.of_expect rc
    obtain ⟨rfl, rfl⟩ := h.of_pure
    exact ⟨m + 1, rfl, .some he hc⟩

theorem catchClause_sound {i : Nat} (hi : (behind tokens i).size ≤ n)
    {handler : Option CatchClause} {c : Cursor}
    (h : Reads (catchClause (behind tokens i)) handler c) :
    ∃ j, c = behind tokens j ∧ Catch ts i j handler := by
  rw [catchClause] at h
  split at h
  · obtain ⟨rfl, rfl⟩ := h.of_pure
    exact ⟨i, rfl, .none⟩
  · rename_i c₁ h₁ heat
    obtain ⟨hw, rfl⟩ := hsp.of_eatWord heat
    split at h
    · rename_i c₂ h₂ heat
      obtain ⟨hl, rfl⟩ := hsp.of_eat heat
      obtain ⟨name, c₃, h₃, rn, h⟩ := h.of_bind
      obtain ⟨hn, rfl⟩ := hsp.of_expectName rn
      obtain ⟨_, c₄, h₄, rr, h⟩ := h.of_bind
      obtain ⟨hr, rfl⟩ := hsp.of_expect rr
      obtain ⟨body, c₅, h₅, rb, h⟩ := h.of_bind
      obtain ⟨j, rfl, hb⟩ := block_sound hsp hst (by omega) rb
      have hj : i + 4 < j := lt_of_size_lt h₅
      obtain ⟨rfl, rfl⟩ := h.of_pure
      refine ⟨j, rfl, ?_⟩
      rw [range_behind (by omega)]
      exact .binding hw hl hn hr hb
    · obtain ⟨body, c₂, h₂, rb, h⟩ := h.of_bind
      obtain ⟨j, rfl, hb⟩ := block_sound hsp hst (by omega) rb
      have hj : i + 1 < j := lt_of_size_lt h₂
      obtain ⟨rfl, rfl⟩ := h.of_pure
      refine ⟨j, rfl, ?_⟩
      rw [range_behind (by omega)]
      exact .plain hw hb

theorem finallyClause_sound {i : Nat} (hi : (behind tokens i).size ≤ n)
    {finalizer : Option (List Stmt)} {c : Cursor}
    (h : Reads (finallyClause (behind tokens i)) finalizer c) :
    ∃ j, c = behind tokens j ∧ Finally ts i j finalizer := by
  rw [finallyClause] at h
  split at h
  · obtain ⟨rfl, rfl⟩ := h.of_pure
    exact ⟨i, rfl, .none⟩
  · rename_i c₁ h₁ heat
    obtain ⟨hw, rfl⟩ := hsp.of_eatWord heat
    obtain ⟨body, c₂, h₂, rb, h⟩ := h.of_bind
    obtain ⟨j, rfl, hb⟩ := block_sound hsp hst (by omega) rb
    obtain ⟨rfl, rfl⟩ := h.of_pure
    exact ⟨j, rfl, .some hw hb⟩

end

/-! ## statements -/

section
variable {tokens : List Token} {ts : List TokenKind}

theorem statement_sound (hsp : Spells tokens ts) (i : Nat) (stmt : Stmt) (c : Cursor)
    (h : Reads (statement (behind tokens i)) stmt c) :
    ∃ dangling j, c = behind tokens j ∧ Statement ts dangling i j stmt
      ∧ (dangling = true → ¬ Word ts j .elseKw) := by
  have hst : StatementsSound tokens ts (behind tokens i).size :=
    fun i' stmt' c' _ h' => statement_sound hsp i' stmt' c' h'
  -- a statement that can take no `else` leaves the next one alone
  have hclosed {p : Prop} (h : false = true) : p := absurd h Bool.false_ne_true
  rw [statement] at h
  split at h
  -- the three words that declare a variable
  · rename_i htake
    obtain ⟨decl, c₁, h₁, rd, h⟩ := h.of_bind
    obtain ⟨j, rfl, hd⟩ := varDeclaration_sound hsp hst (Nat.le_refl _) (by simp) htake rd
    obtain ⟨rfl, rfl⟩ := h.of_pure
    exact ⟨false, j, rfl, .varDecl hd, hclosed⟩
  · rename_i htake
    obtain ⟨decl, c₁, h₁, rd, h⟩ := h.of_bind
    obtain ⟨j, rfl, hd⟩ := varDeclaration_sound hsp hst (Nat.le_refl _) (by simp) htake rd
    obtain ⟨rfl, rfl⟩ := h.of_pure
    exact ⟨false, j, rfl, .varDecl hd, hclosed⟩
  · rename_i htake
    obtain ⟨decl, c₁, h₁, rd, h⟩ := h.of_bind
    obtain ⟨j, rfl, hd⟩ := varDeclaration_sound hsp hst (Nat.le_refl _) (by simp) htake rd
    obtain ⟨rfl, rfl⟩ := h.of_pure
    exact ⟨false, j, rfl, .varDecl hd, hclosed⟩
  -- `function`: with a name behind it a declaration, else the start of an expression
  · rename_i c₁ h₁ htake
    obtain ⟨hw, rfl⟩ := hsp.of_take htake (by simp)
    split at h
    · rename_i name hpeek
      have hn : Name ts (i + 1) name := (hsp.peek (by simp)).mp hpeek
      obtain ⟨decl, c₂, h₂, rd, h⟩ := h.of_bind
      obtain ⟨j, rfl, hd⟩ := functionRest_sound hsp hst (Nat.le_add_right i 1) (by omega) rd
      have hj : i + 1 < j := lt_of_size_lt h₂
      obtain ⟨rfl, rfl⟩ := h.of_pure
      refine ⟨false, j, rfl, ?_, hclosed⟩
      rw [range_behind (by omega)]
      rcases hd with ⟨name', hn', hd⟩ | ⟨hfalse, _⟩
      · exact .function hw hn' hd
      · cases hfalse
    · rename_i hpeek
      obtain ⟨j, e, rfl, he, hs, rfl⟩ := expressionStatement_sound hsp hst (Nat.le_refl _) h
      refine ⟨false, j + 1, rfl, .expression ?_ he hs, hclosed⟩
      rintro ⟨_, name, hn⟩
      exact hpeek name ((hsp.peek (by simp)).mpr hn)
  -- `class`
  · rename_i c₁ h₁ htake
    obtain ⟨hw, rfl⟩ := hsp.of_take htake (by simp)
    obtain ⟨name, c₂, h₂, rn, h⟩ := h.of_bind
    obtain ⟨hn, rfl⟩ := hsp.of_expectName rn
    obtain ⟨_, c₃, h₃, rl, h⟩ := h.of_bind
    obtain ⟨hl, rfl⟩ := hsp.of_expect rl
    obtain ⟨list, c₄, h₄, rm, h⟩ := h.of_bind
    obtain ⟨j, rfl, hm, hr⟩ := methods_sound hsp hst _ (by omega) _ _ rm
    have hj : i + 3 < j + 1 := lt_of_size_lt h₄
    obtain ⟨rfl, rfl⟩ := h.of_pure
    refine ⟨false, j + 1, rfl, ?_, hclosed⟩
    rw [range_behind (by omega)]
    exact .classDecl hw hn hl hm hr
  -- `if`: an `else` behind a first branch that is dangling would have been taken by that branch
  · rename_i c₁ h₁ htake
    obtain ⟨hw, rfl⟩ := hsp.of_take htake (by simp)
    obtain ⟨_, c₂, h₂, rl, h⟩ := h.of_bind
    obtain ⟨hl, rfl⟩ := hsp.of_expect rl
    obtain ⟨test, c₃, h₃, rc, h⟩ := h.of_bind
    obtain ⟨m, rfl, hc⟩ := expression_sound hsp hst _ (by omega) _ _ rc
    have hm : i + 2 < m := lt_of_size_lt h₃
    obtain ⟨_, c₄, h₄, rr, h⟩ := h.of_bind
    obtain ⟨hr, rfl⟩ := hsp.of_expect rr
    obtain ⟨thenBranch, c₅, h₅, rt, h⟩ := h.of_bind
    obtain ⟨dangling, k, rfl, ht, hend⟩ := hst _ _ _ (by omega) rt
    have hk : m + 1 < k := lt_of_size_lt h₅
    dsimp only at h
    split at h
    · rename_i c₆ h₆ heat
      obtain ⟨he, rfl⟩ := hsp.of_eatWord heat
      obtain ⟨elseBranch, c₇, h₇, rs, h⟩ := h.of_bind
      obtain ⟨dangling', j, rfl, hs, hend'⟩ := hst _ _ _ (by omega) rs
      have hj : k + 1 < j := lt_of_size_lt h₇
      obtain ⟨rfl, rfl⟩ := h.of_pure
      refine ⟨dangling', j, rfl, ?_, hend'⟩
      rw [range_behind (by omega)]
      cases dangling with
      | false => exact .ifElse hw hl hc hr ht he hs
      | true => exact absurd he (hend rfl)
    · rename_i heat
      obtain ⟨rfl, rfl⟩ := h.of_pure
      refine ⟨true, k, rfl, ?_, fun _ => hsp.not_of_eatWord heat⟩
      rw [range_behind (by omega)]
      exact .ifOnly hw hl hc hr ht
  -- `while`
  · rename_i c₁ h₁ htake
    obtain ⟨hw, rfl⟩ := hsp.of_take htake (by simp)
    obtain ⟨_, c₂, h₂, rl, h⟩ := h.of_bind
    obtain ⟨hl, rfl⟩ := hsp.of_expect rl
    obtain ⟨test, c₃, h₃, rc, h⟩ := h.of_bind
    obtain ⟨m, rfl, hc⟩ := expression_sound hsp hst _ (by omega) _ _ rc
    have hm : i + 2 < m := lt_of_size_lt h₃
    obtain ⟨_, c₄, h₄, rr, h⟩ := h.of_bind
    obtain ⟨hr, rfl⟩ := hsp.of_expect rr
    obtain ⟨body, c₅, h₅, rb, h⟩ := h.of_bind
    obtain ⟨dangling, j, rfl, hb, hend⟩ := hst _ _ _ (by omega) rb
    have hj : m + 1 < j := lt_of_size_lt h₅
    obtain ⟨rfl, rfl⟩ := h.of_pure
    refine ⟨dangling, j, rfl, ?_, hend⟩
    rw [range_behind (by omega)]
    exact .whileLoop hw hl hc hr hb
  -- `for`
  · rename_i c₁ h₁ htake
    obtain ⟨hw, rfl⟩ := hsp.of_take htake (by simp)
    obtain ⟨_, c₂, h₂, rl, h⟩ := h.of_bind
    obtain ⟨hl, rfl⟩ := hsp.of_expect rl
    obtain ⟨init, c₃, h₃, ri, h⟩ := h.of_bind
    obtain ⟨k, rfl, hi⟩ := forInit_sound hsp hst (by omega) ri
    have hk : i + 2 < k := lt_of_size_lt h₃
    obtain ⟨test, c₄, h₄, rt, h⟩ := h.of_bind
    obtain ⟨l, rfl, ht⟩ := clause_sound hsp hst (by omega) rt
    have hl' : k < l := lt_of_size_lt h₄
    obtain ⟨update, c₅, h₅, ru, h⟩ := h.of_bind
    obtain ⟨m, rfl, hu⟩ := clause_sound hsp hst (by omega) ru
    have hm : l < m := lt_of_size_lt h₅
    obtain ⟨body, c₆, h₆, rb, h⟩ := h.of_bind
    obtain ⟨dangling, j, rfl, hb, hend⟩ := hst _ _ _ (by omega) rb
    have hj : m < j := lt_of_size_lt h₆
    obtain ⟨rfl, rfl⟩ := h.of_pure
    refine ⟨dangling, j, rfl, ?_, hend⟩
    rw [range_behind (by omega)]
    exact .forLoop hw hl hi ht hu hb
  -- `break` and `continue`
  · rename_i htake
    obtain ⟨_, c₁, h₁, rs, h⟩ := h.of_bind
    obtain ⟨hw, hs, rfl⟩ := wordEnd_sound hsp htake rs
    obtain ⟨rfl, rfl⟩ := h.of_pure
    refine ⟨false, i + 2, rfl, ?_, hclosed⟩
    rw [range_behind (by omega)]
    exact .breakLoop hw hs
  · rename_i htake
    obtain ⟨_, c₁, h₁, rs, h⟩ := h.of_bind
    obtain ⟨hw, hs, rfl⟩ := wordEnd_sound hsp htake rs
    obtain ⟨rfl, rfl⟩ := h.of_pure
    refine ⟨false, i + 2, rfl, ?_, hclosed⟩
    rw [range_behind (by omega)]
    exact .continueLoop hw hs
  -- `return` and `throw`
  · rename_i c₁ h₁ htake
    obtain ⟨hw, rfl⟩ := hsp.of_take htake (by simp)
    obtain ⟨value, c₂, h₂, rv, h⟩ := h.of_bind
    obtain ⟨j, rfl, hv⟩ := clause_sound hsp hst (by omega) rv
    have hj : i + 1 < j := lt_of_size_lt h₂
    obtain ⟨rfl, rfl⟩ := h.of_pure
    refine ⟨false, j, rfl, ?_, hclosed⟩
    rw [range_behind (by omega)]
    exact .returnValue hw hv
  · rename_i c₁ h₁ htake
    obtain ⟨hw, rfl⟩ := hsp.of_take htake (by simp)
    obtain ⟨value, c₂, h₂, rv, h⟩ := h.of_bind
    obtain ⟨j, rfl, hv⟩ := expression_sound hsp hst _ (by omega) _ _ rv
    have hj : i + 1 < j := lt_of_size_lt h₂
    obtain ⟨_, c₃, h₃, rs, h⟩ := h.of_bind
    obtain ⟨hs, rfl⟩ := hsp.of_expect rs
    obtain ⟨rfl, rfl⟩ := h.of_pure
    refine ⟨false, j + 1, rfl, ?_, hclosed⟩
    rw [range_behind (by omega)]
    exact .throwValue hw hv hs
  -- `try`
  · rename_i c₁ h₁ htake
    obtain ⟨hw, rfl⟩ := hsp.of_take htake (by simp)
    obtain ⟨body, c₂, h₂, rb, h⟩ := h.of_bind
    obtain ⟨k, rfl, hb⟩ := block_sound hsp hst (by omega) rb
    have hk : i + 1 < k := lt_of_size_lt h₂
    obtain ⟨handler, c₃, h₃, rc, h⟩ := h.of_bind
    obtain ⟨m, rfl, hc⟩ := catchClause_sound hsp hst (by omega) rc
    obtain ⟨finalizer, c₄, h₄, rf, h⟩ := h.of_bind
    obtain ⟨j, rfl, hf⟩ := finallyClause_sound hsp hst (by omega) rf
    dsimp only at h
    split at h
    · exact (Reads.not_error h).elim
    · rename_i hsome
      obtain ⟨rfl, rfl⟩ := h.of_pure
      refine ⟨false, j, rfl, ?_, hclosed⟩
      have hj : i < j := by
        simp only [size_behind] at h₂ h₃ h₄
        omega
      rw [range_behind hj]
      refine .tryCatch hw hb hc hf ?_
      cases handler with
      | some _ => exact .inl rfl
      | none =>
        cases finalizer with
        | some _ => exact .inr rfl
        | none => exact absurd rfl hsome
  -- `debugger`, blocks, and the statement that is only its semicolon
  · rename_i htake
    obtain ⟨_, c₁, h₁, rs, h⟩ := h.of_bind
    obtain ⟨hw, hs, rfl⟩ := wordEnd_sound hsp htake rs
    obtain ⟨rfl, rfl⟩ := h.of_pure
    refine ⟨false, i + 2, rfl, ?_, hclosed⟩
    rw [range_behind (by omega)]
    exact .debugger hw hs
  · obtain ⟨body, c₂, h₂, rb, h⟩ := h.of_bind
    obtain ⟨j, rfl, hb⟩ := block_sound hsp hst (Nat.le_refl _) rb
    obtain ⟨rfl, rfl⟩ := h.of_pure
    refine ⟨false, j, rfl, ?_, hclosed⟩
    rw [range_behind (lt_of_size_lt h₂)]
    exact .block hb
  · rename_i c₁ h₁ htake
    obtain ⟨hs, rfl⟩ := hsp.of_take htake (by simp)
    obtain ⟨rfl, rfl⟩ := h.of_pure
    refine ⟨false, i + 1, rfl, ?_, hclosed⟩
    rw [range_behind (by omega)]
    exact .empty hs
  -- an expression, which starts with none of these words
  · obtain ⟨j, e, rfl, he, hs, rfl⟩ := expressionStatement_sound hsp hst (Nat.le_refl _) h
    refine ⟨false, j + 1, rfl, .expression ?_ he hs, hclosed⟩
    rintro ⟨hw, _⟩
    obtain ⟨_, htake⟩ := hsp.take hw
    exact ‹∀ c₁ shorter, (behind tokens i).take? = some ⟨.keyword .functionKw, c₁, shorter⟩ → False›
      _ _ htake
termination_by (behind tokens i).size
decreasing_by omega

theorem program_sound (hsp : Spells tokens ts) (i : Nat) (hi : i ≤ ts.length) (body : List Stmt)
    (h : program (behind tokens i) = .ok body) : Statements ts i ts.length body := by
  rw [program] at h
  split at h
  · rename_i hend
    cases h
    rw [hsp.atEnd_iff, List.getElem?_eq_none_iff] at hend
    obtain rfl : i = ts.length := by omega
    exact .nil
  · cases hs : statement (behind tokens i) with
    | error e =>
      rw [hs] at h
      cases h
    | ok p =>
      obtain ⟨stmt, c₁, h₁⟩ := p
      obtain ⟨dangling, m, rfl, hstmt, _⟩ := statement_sound hsp i stmt c₁ ⟨h₁, hs⟩
      rw [hs] at h
      cases hm : program (behind tokens m) with
      | error e =>
        simp only [Bind.bind, Except.bind, hm] at h
        cases h
      | ok more =>
        simp only [Bind.bind, Except.bind, hm] at h
        cases h
        exact .cons hstmt (program_sound hsp m hstmt.le more hm)
termination_by (behind tokens i).size
decreasing_by omega

end

end ScriptMachine.Parse
