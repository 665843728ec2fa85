import ScriptMachine.Proofs.Grammar.Nodes
import ScriptMachine.Proofs.Grammar.Complete
import ScriptMachine.Proofs.Grammar.Ranges

/-!
# The ranges of a parsed program tile its tokens

* `Laid ts i j nodes`   nodes stand in order among the tokens from `i` up to `j`, each with all that is
                        below it in its place;
* `Laid.node`           a node around nodes that are laid out;
* `Expression.laid`, `Statement.laid`   the trees of phrases are laid out, one theorem for each rule set;
* `parseProgram_tiles`  the main statement, about whole programs.
-/

namespace ScriptMachine

namespace Grammar

open Node (Placed Every)

/-- The nodes stand one behind another among the tokens from `i` up to `j`, possibly with tokens
between them, and everything below them is in its place. -/
structure Laid (ts : List TokenKind) (i j : Nat) (nodes : List Node) : Prop where
  inside : ∀ n ∈ nodes, i ≤ n.range.first ∧ n.range.last < j
  sorted : nodes.Pairwise fun m n => m.range.last < n.range.first
  placed : ∀ n ∈ nodes, n.Every (Placed ts)

section
variable {ts : List TokenKind} {i j k m : Nat} {n : Node} {nodes nodes' : List Node}

namespace Laid

theorem nil : Laid ts i j [] := ⟨nofun, .nil, nofun⟩

theorem mono (h : Laid ts k m nodes) (hi : i ≤ k) (hj : m ≤ j) : Laid ts i j nodes := by
  refine ⟨fun n hn => ?_, h.sorted, h.placed⟩
  obtain ⟨hfirst, hlast⟩ := h.inside n hn
  omega

/-- nodes, and behind them others -/
theorem append (h : Laid ts i m nodes) (h' : Laid ts m j nodes') (hi : i ≤ m) (hj : m ≤ j) :
    Laid ts i j (nodes ++ nodes') := by
  refine ⟨?_, ?_, ?_⟩
  · intro n hn
    rcases List.mem_append.mp hn with hn | hn
    · have := h.inside n hn
      omega
    · have := h'.inside n hn
      omega
  · refine List.pairwise_append.mpr ⟨h.sorted, h'.sorted, ?_⟩
    intro a ha b hb
    have hfront := h.inside a ha
    have hback := h'.inside b hb
    omega
  · intro n hn
    rcases List.mem_append.mp hn with hn | hn
    · exact h.placed n hn
    · exact h'.placed n hn

theorem cons (h : Laid ts i m [n]) (h' : Laid ts m j nodes) (hi : i ≤ m) (hj : m ≤ j) :
    Laid ts i j (n :: nodes) := h.append h' hi hj

/-- A node that is a phrase, with nodes below it that are laid out inside. -/
theorem node (hrange : n.range = span i j) (hspans : Spans ts i j) (hphrase : n.Phrase ts i j)
    (hbelow : Laid ts i j n.children)
    (hblocks : ∀ body ∈ n.blocks, ∃ a b, i ≤ a ∧ b < j ∧ Block ts a (b + 1) body
      ∧ Tiles (a + 1) b (body.map Stmt.range)) : Laid ts i j [n] := by
  have hlt : i < j := hspans.1
  have hfirst : n.range.first = i := by rw [hrange]; rfl
  have hlast : n.range.last = j - 1 := by rw [hrange]; rfl
  refine ⟨?_, List.pairwise_singleton _ _, ?_⟩
  · intro n' hn'
    rw [List.mem_singleton.mp hn', hfirst, hlast]
    omega
  · intro n' hn'
    rw [List.mem_singleton.mp hn']
    refine .mk ⟨by omega, ?_, ?_, hbelow.sorted, ?_⟩ hbelow.placed
    · rw [hfirst, hlast, Nat.sub_add_cancel (by omega)]
      exact hphrase
    · intro c hc
      have := hbelow.inside c hc
      omega
    · intro body hbody
      obtain ⟨a, b, ha, hb, hblock, htiles⟩ := hblocks body hbody
      exact ⟨a, b, by omega, by omega, hblock, htiles⟩

/-- a node without braces of its own -/
theorem plain (hrange : n.range = span i j) (hspans : Spans ts i j) (hphrase : n.Phrase ts i j)
    (hbelow : Laid ts i j n.children) (hblocks : n.blocks = []) : Laid ts i j [n] :=
  node hrange hspans hphrase hbelow (by rw [hblocks]; exact nofun)

/-- what is below a node that is laid out -/
theorem children (h : Laid ts i j [n]) : Laid ts i j n.children := by
  have hn := h.placed n (List.mem_singleton.mpr rfl)
  have hin := h.inside n (List.mem_singleton.mpr rfl)
  refine ⟨?_, hn.self.sorted, fun c hc => hn.child hc⟩
  intro c hc
  have := hn.self.inside c hc
  omega

end Laid

end

/-! ## phrases -/

section
variable {ts : List TokenKind} {i j n : Nat}

theorem Joined.expression {e : Expr} (h : Joined ts n i j e) : Expression ts i j e := by
  induction n with
  | zero => exact .joined h
  | succ n ih => exact ih h.tighter

theorem Signed.expression {e : Expr} (h : Signed ts i j e) : Expression ts i j e :=
  (Joined.signed h).expression

theorem Chain.expression {e : Expr} (h : Chain ts i j e) : Expression ts i j e :=
  (Signed.chain h).expression

theorem Primary.expression {e : Expr} (h : Primary ts i j e) : Expression ts i j e :=
  (Chain.primary h).expression

theorem Declaration.range {stmt : Stmt} (h : Declaration ts i j stmt) : stmt.range = span i j := by
  cases h <;> rfl

theorem Statement.range {dangling : Bool} {stmt : Stmt} (h : Statement ts dangling i j stmt) :
    stmt.range = span i j := by
  cases h with
  | varDecl h => exact h.range
  | _ => rfl

theorem Statements.tiles {body : List Stmt} (h : Statements ts i j body) :
    Tiles i j (body.map Stmt.range) := by
  induction body generalizing i with
  | nil =>
    cases h
    exact .nil
  | cons stmt rest ih =>
    cases h with
    | cons h hr =>
      rename_i dangling m
      have hlt : i < m := h.within.1.1
      have hlast : stmt.range.last + 1 = m := by
        rw [h.range]
        show m - 1 + 1 = m
        omega
      have hfirst : stmt.range.first = i := by rw [h.range]; rfl
      show Tiles i j (stmt.range :: rest.map Stmt.range)
      rw [← hfirst]
      refine .cons (by omega) ?_
      rw [hlast]
      exact ih hr

end

/-! ## trees -/

section
variable {ts : List TokenKind}

/-- the statements of a block fill its braces -/
theorem Block.fills {i j k l : Nat} {body : List Stmt} (h : Block ts k l body) (hi : i ≤ k)
    (hj : l ≤ j) : ∃ a b, i ≤ a ∧ b < j ∧ Block ts a (b + 1) body
      ∧ Tiles (a + 1) b (body.map Stmt.range) := by
  cases h with
  | mk hl hs hr => exact ⟨k, _, hi, hj, .mk hl hs hr, hs.tiles⟩

/-- operators join what is laid out on both sides -/
theorem Operates.laid {n i j m : Nat} {s : Symbol} {form : Expr → Expr → ExprForm}
    (ho : Operates n s form) {left right : Expr} (hl : Laid ts i m [.expr left])
    (hr : Laid ts m j [.expr right]) (hi : i ≤ m) (hj : m ≤ j) :
    Laid ts i j (Node.ofExprForm (form left right)) := by
  have hboth := hl.cons hr hi hj
  cases ho <;> exact hboth

mutual

theorem Expression.laid {i j : Nat} {e : Expr} (h : Expression ts i j e) : Laid ts i j [.expr e] := by
  match h with
  | .joined h => exact h.laid
  | .assign ht hs hv =>
    have htarget := ht.within.1.1
    have hvalue := hv.within.1.1
    have hbelow := ht.laid.cons (hv.laid.mono (Nat.le_succ _) (Nat.le_refl j)) (by omega) (by omega)
    have hphrase := Expression.assign ht hs hv
    exact .plain rfl hphrase.within.1 hphrase hbelow rfl

theorem Joined.laid {n i j : Nat} {e : Expr} (h : Joined ts n i j e) : Laid ts i j [.expr e] := by
  match h with
  | .signed h => exact h.laid
  | .tighter h => exact h.laid
  | .join hl hs ho hr =>
    have hleft := hl.within.1.1
    have hright := hr.within.1.1
    have hbelow := ho.laid hl.laid (hr.laid.mono (Nat.le_succ _) (Nat.le_refl j)) (by omega) (by omega)
    have hphrase := Joined.join hl hs ho hr
    exact .plain rfl hphrase.within.1 hphrase.expression hbelow rfl

theorem Signed.laid {i j : Nat} {e : Expr} (h : Signed ts i j e) : Laid ts i j [.expr e] := by
  match h with
  | .chain h => exact h.laid
  | .not hs h =>
    have hbelow := h.laid.mono (Nat.le_succ i) (Nat.le_refl j)
    have hphrase := Signed.not hs h
    exact .plain rfl hphrase.within.1 hphrase.expression hbelow rfl
  | .neg hs h =>
    have hbelow := h.laid.mono (Nat.le_succ i) (Nat.le_refl j)
    have hphrase := Signed.neg hs h
    exact .plain rfl hphrase.within.1 hphrase.expression hbelow rfl

theorem Chain.laid {i j : Nat} {e : Expr} (h : Chain ts i j e) : Laid ts i j [.expr e] := by
  match h with
  | .primary h => exact h.laid
  | .call h hl ha =>
    have hcallee := h.within.1.1
    have hargs := ha.within.1.1
    have hbelow := h.laid.cons (ha.laid.mono (Nat.le_succ _) (Nat.le_refl j)) (by omega) (by omega)
    have hphrase := Chain.call h hl ha
    exact .plain rfl hphrase.within.1 hphrase.expression hbelow rfl
  | .member h hd hn =>
    have hbelow := h.laid.mono (Nat.le_refl i) (Nat.le_add_right _ 2)
    have hphrase := Chain.member h hd hn
    exact .plain rfl hphrase.within.1 hphrase.expression hbelow rfl
  | .index h hl hk hr =>
    have hobject := h.within.1.1
    have hkey := hk.within.1.1
    have hbelow := h.laid.cons (hk.laid.mono (Nat.le_succ _) (Nat.le_succ _)) (by omega) (by omega)
    have hphrase := Chain.index h hl hk hr
    exact .plain rfl hphrase.within.1 hphrase.expression hbelow rfl

theorem Primary.laid {i j : Nat} {e : Expr} (h : Primary ts i j e) : Laid ts i j [.expr e] := by
  have hspans := h.within.1
  have hphrase := h.expression
  match h with
  | .number _ | .string _ | .name _ | .true _ | .false _ | .null _ | .undefined _ | .this _ =>
    exact .plain rfl hspans hphrase .nil rfl
  | .parens hl h hr =>
    -- the node inside the parentheses is gone, what was below it is now below the wider one
    exact .plain rfl hspans hphrase (h.laid.children.mono (Nat.le_succ i) (Nat.le_succ _)) rfl
  | .array hl h => exact .plain rfl hspans hphrase (h.laid.mono (Nat.le_succ i) (Nat.le_refl j)) rfl
  | .anonymous hw h =>
    exact .plain rfl hspans hphrase (h.laid (Nat.le_succ i) (.inl ⟨hw, h⟩)) rfl
  | .named hw hn h =>
    exact .plain rfl hspans hphrase (h.laid (Nat.le_add_right i 2) (.inr (.inl ⟨_, hw, hn, h⟩))) rfl
  | .new hw hn hl ha =>
    exact .plain rfl hspans hphrase (ha.laid.mono (Nat.le_add_right i 3) (Nat.le_refl j)) rfl

theorem Listed.laid {close : Symbol} {i j : Nat} {es : List Expr} (h : Listed ts close i j es) :
    Laid ts i j (es.map .expr) := by
  match h with
  | .none _ => exact .nil
  | .some h _ => exact h.laid.mono (Nat.le_refl i) (Nat.le_succ _)

theorem Several.laid {i j : Nat} {es : List Expr} (h : Several ts i j es) :
    Laid ts i j (es.map .expr) := by
  match h with
  | .one h => exact h.laid
  | .more h hc hr =>
    have hfirst := h.within.1.1
    have hrest := hr.within.1.1
    exact h.laid.cons (hr.laid.mono (Nat.le_succ _) (Nat.le_refl j)) (by omega) (by omega)

theorem Clause.laid {close : Symbol} {i j : Nat} {value : Option Expr} (h : Clause ts close i j value) :
    Laid ts i j (value.toList.map .expr) := by
  match h with
  | .none _ => exact .nil
  | .some h _ => exact h.laid.mono (Nat.le_refl i) (Nat.le_succ _)

theorem Callable.laid {start : Nat} {name : Option String} {i j : Nat} {decl : FunctionDecl}
    (h : Callable ts start name i j decl) (hstart : start ≤ i)
    (hphrase : (Node.function decl).Phrase ts start j) : Laid ts start j [.function decl] := by
  have hspans := (h.within hstart).1
  match h with
  | .mk hl hp hb =>
    have hparams := hp.spans.1
    refine .node rfl hspans hphrase (hb.laid.mono (by omega) (Nat.le_refl j)) ?_
    intro body hbody
    rw [List.mem_singleton.mp hbody]
    exact hb.fills (by omega) (Nat.le_refl j)

theorem Methods.laid {i j : Nat} {methods : List FunctionDecl} (h : Methods ts i j methods) :
    Laid ts i j (methods.map .function) := by
  match h with
  | .nil => exact .nil
  | .cons hn h hr =>
    have hfirst := (h.within (Nat.le_succ i)).1.1
    exact (h.laid (Nat.le_succ i) (.inr (.inr ⟨_, hn, h⟩))).cons hr.laid (by omega) hr.within.1

theorem Block.laid {i j : Nat} {body : List Stmt} (h : Block ts i j body) :
    Laid ts i j (body.map .stmt) := by
  match h with
  | .mk hl h hr => exact h.laid.mono (Nat.le_succ i) (Nat.le_succ _)

theorem Statements.laid {i j : Nat} {body : List Stmt} (h : Statements ts i j body) :
    Laid ts i j (body.map .stmt) := by
  match h with
  | .nil => exact .nil
  | .cons h hr => exact h.laid.cons hr.laid (Nat.le_of_lt h.within.1.1) hr.within.1

theorem Statement.laid {dangling : Bool} {i j : Nat} {stmt : Stmt} (h : Statement ts dangling i j stmt) :
    Laid ts i j [.stmt stmt] := by
  have hspans := h.within.1
  have hphrase : (Node.stmt stmt).Phrase ts i j := .inl ⟨dangling, h⟩
  match h with
  | .varDecl h => exact h.laid
  | .function hw hn h =>
    exact .plain rfl hspans hphrase (h.laid (Nat.le_add_right i 2) (.inr (.inl ⟨_, hw, hn, h⟩))) rfl
  | .classDecl hw hn hl h hr =>
    exact .plain rfl hspans hphrase (h.laid.mono (Nat.le_add_right i 3) (Nat.le_succ _)) rfl
  | .ifOnly hw hl hc hr ht =>
    have htest := hc.within.1.1
    have hthen := ht.within.1.1
    have hbelow := (hc.laid.mono (Nat.le_add_right i 2) (Nat.le_refl _)).cons
      (ht.laid.mono (Nat.le_succ _) (Nat.le_refl j)) (by omega) (by omega)
    exact .plain rfl hspans hphrase hbelow rfl
  | .ifElse hw hl hc hr ht he hs =>
    have htest := hc.within.1.1
    have hthen := ht.within.1.1
    have helse := hs.within.1.1
    have hbranches := (ht.laid.mono (Nat.le_succ _) (Nat.le_refl _)).cons
      (hs.laid.mono (Nat.le_succ _) (Nat.le_refl j)) (by omega) (by omega)
    have hbelow := (hc.laid.mono (Nat.le_add_right i 2) (Nat.le_refl _)).cons hbranches
      (by omega) (by omega)
    exact .plain rfl hspans hphrase hbelow rfl
  | .whileLoop hw hl hc hr hb =>
    have htest := hc.within.1.1
    have hbody := hb.within.1.1
    have hbelow := (hc.laid.mono (Nat.le_add_right i 2) (Nat.le_refl _)).cons
      (hb.laid.mono (Nat.le_succ _) (Nat.le_refl j)) (by omega) (by omega)
    exact .plain rfl hspans hphrase hbelow rfl
  | .forLoop hw hl hi ht hu hb =>
    have hinit := hi.within.1.1
    have htest := ht.within.1.1
    have hupdate := hu.within.1.1
    have hbody := hb.within.1.1
    have hparts := ht.laid.append (hu.laid.append hb.laid (by omega) (by omega)) (by omega) (by omega)
    have hbelow := (hi.laid.mono (Nat.le_add_right i 2) (Nat.le_refl _)).append hparts
      (by omega) (by omega)
    exact .plain rfl hspans hphrase hbelow rfl
  | .breakLoop _ _ | .continueLoop _ _ | .debugger _ _ | .empty _ =>
    exact .plain rfl hspans hphrase .nil rfl
  | .returnValue hw h =>
    exact .plain rfl hspans hphrase (h.laid.mono (Nat.le_succ i) (Nat.le_refl j)) rfl
  | .throwValue hw h hs =>
    exact .plain rfl hspans hphrase (h.laid.mono (Nat.le_succ i) (Nat.le_succ _)) rfl
  | .tryCatch hw hb hc hf hsome =>
    have hbody := hb.within.1.1
    obtain ⟨hcaught, hclause⟩ := hc.laid
    obtain ⟨hfinal, hfinalizer, hfills⟩ := hf.laid
    have hbelow := (hb.laid.mono (Nat.le_succ i) (Nat.le_refl _)).append
      (hclause.append hfinalizer hcaught hfinal) (by omega) (by omega)
    refine .node rfl hspans hphrase hbelow ?_
    intro block hblock
    rcases List.mem_cons.mp hblock with rfl | hblock
    · exact hb.fills (Nat.le_succ i) (by omega)
    · obtain ⟨a, b, ha, hb, hrest⟩ := hfills block hblock
      exact ⟨a, b, by omega, hb, hrest⟩
  | .block h =>
    refine .node rfl hspans hphrase h.laid ?_
    intro block hblock
    rw [List.mem_singleton.mp hblock]
    exact h.fills (Nat.le_refl i) (Nat.le_refl j)
  | .expression _ h hs =>
    exact .plain rfl hspans hphrase (h.laid.mono (Nat.le_refl i) (Nat.le_succ _)) rfl

theorem Declaration.laid {i j : Nat} {stmt : Stmt} (h : Declaration ts i j stmt) :
    Laid ts i j [.stmt stmt] := by
  have hspans := h.within.1
  have hphrase : (Node.stmt stmt).Phrase ts i j := .inl ⟨false, .varDecl h⟩
  match h with
  | .bare _ _ _ _ => exact .plain rfl hspans hphrase .nil rfl
  | .init _ _ _ _ he _ =>
    exact .plain rfl hspans hphrase (he.laid.mono (Nat.le_add_right i 3) (Nat.le_succ _)) rfl

theorem Initializer.laid {i j : Nat} {init : Option Stmt} (h : Initializer ts i j init) :
    Laid ts i j (init.toList.map .stmt) := by
  match h with
  | .none _ => exact .nil
  | .varDecl h => exact h.laid
  | .expression h hs =>
    have hphrase := Initializer.expression h hs
    exact .plain rfl hphrase.within.1 (.inr hphrase)
      (h.laid.mono (Nat.le_refl i) (Nat.le_succ _)) rfl

theorem Catch.laid {i j : Nat} {clause : Option CatchClause} (h : Catch ts i j clause) :
    i ≤ j ∧ Laid ts i j (clause.toList.map .handler) := by
  match h with
  | .none => exact ⟨Nat.le_refl i, .nil⟩
  | .plain hw hb =>
    have hbody := hb.within.1
    refine ⟨by have := hbody.1; omega, .node rfl (hbody.before (Nat.le_succ i)) (.plain hw hb)
      (hb.laid.mono (Nat.le_succ i) (Nat.le_refl j)) ?_⟩
    intro block hblock
    rw [List.mem_singleton.mp hblock]
    exact hb.fills (Nat.le_succ i) (Nat.le_refl j)
  | .binding hw hl hn hr hb =>
    have hbody := hb.within.1
    refine ⟨by have := hbody.1; omega, .node rfl (hbody.before (Nat.le_add_right i 4))
      (.binding hw hl hn hr hb) (hb.laid.mono (Nat.le_add_right i 4) (Nat.le_refl j)) ?_⟩
    intro block hblock
    rw [List.mem_singleton.mp hblock]
    exact hb.fills (Nat.le_add_right i 4) (Nat.le_refl j)

theorem Finally.laid {i j : Nat} {finalizer : Option (List Stmt)} (h : Finally ts i j finalizer) :
    i ≤ j ∧ Laid ts i j ((finalizer.getD []).map .stmt)
      ∧ ∀ body ∈ finalizer.toList, ∃ a b, i ≤ a ∧ b < j ∧ Block ts a (b + 1) body
        ∧ Tiles (a + 1) b (body.map Stmt.range) := by
  match h with
  | .none => exact ⟨Nat.le_refl i, .nil, nofun⟩
  | .some hw hb =>
    have hbody := hb.within.1.1
    refine ⟨by omega, hb.laid.mono (Nat.le_succ i) (Nat.le_refl j), ?_⟩
    intro block hblock
    rw [List.mem_singleton.mp hblock]
    exact hb.fills (Nat.le_succ i) (Nat.le_refl j)

end

end

/-! ## programs -/

/-- tokens of which nothing but their kinds is told, with the end mark behind them -/
theorem spells_kinds {ts : List TokenKind} (honly : .eof ∉ ts) :
    Spells ((ts ++ [TokenKind.eof]).map fun kind => ⟨kind, "", {}, 0⟩) ts := by
  refine ⟨?_, honly⟩
  rw [List.map_map]
  exact List.map_id _

/-- **The ranges of a program tile its tokens.**  If a token list with one end mark, at its end, is
a program, then its statements stand one behind another and cover all tokens but the end mark, and
every node of the trees is in its place: its range is exactly what was read for it, the ranges below
it are inside, in order and apart, and the statements of a block cover all that is between its
braces. -/
theorem parseProgram_tiles {tokens : List Token} {ts : List TokenKind} {body : List Stmt}
    (hkinds : tokens.map Token.kind = ts ++ [.eof]) (honly : .eof ∉ ts)
    (h : parseProgram tokens = .ok body) :
    Tiles 0 ts.length (body.map Stmt.range)
      ∧ ∀ stmt ∈ body, (Node.stmt stmt).Every (Node.Placed ts) := by
  have hbody : Statements ts 0 ts.length body := (parseProgram_eq_ok_iff ⟨hkinds, honly⟩).mp h
  refine ⟨hbody.tiles, ?_⟩
  intro stmt hstmt
  exact hbody.laid.placed (.stmt stmt) (List.mem_map_of_mem hstmt)

/-- `{ (a); } ;` is a block of six tokens and an empty statement, and the parentheses belong to the
expression -/
theorem parseProgram_tiles_parentheses :
    ∃ body, parseProgram ([.symbol .lbrace, .symbol .lparen, .ident "a", .symbol .rparen,
          .symbol .semicolon, .symbol .rbrace, .symbol .semicolon, .eof].map
            fun kind => ⟨kind, "", {}, 0⟩) = .ok body
      ∧ body = [.node (.block [.node (.expression (.node (.variable "a") ⟨1, 3⟩)) ⟨1, 4⟩]) ⟨0, 5⟩,
        .node .empty ⟨6, 6⟩]
      ∧ Tiles 0 7 (body.map Stmt.range)
      ∧ ∀ stmt ∈ body, (Node.stmt stmt).Every (Node.Placed [.symbol .lbrace, .symbol .lparen,
          .ident "a", .symbol .rparen, .symbol .semicolon, .symbol .rbrace, .symbol .semicolon]) := by
  have honly : TokenKind.eof ∉ [TokenKind.symbol .lbrace, .symbol .lparen, .ident "a",
      .symbol .rparen, .symbol .semicolon, .symbol .rbrace, .symbol .semicolon] := by simp
  have hsp := spells_kinds honly
  have expression {ts : List TokenKind} {i j : Nat} {e : Expr} (h : Primary ts i j e) :
      Expression ts i j e :=
    .joined <| .tighter <| .tighter <| .tighter <| .tighter <| .tighter <| .tighter <| .signed <|
      .chain <| .primary h
  have hparse := (parseProgram_eq_ok_iff hsp).mpr <| .cons
    (.block (.mk rfl (.cons (.expression (fun h => nomatch h.1)
      (expression (.parens rfl (expression (.name rfl)) rfl)) rfl) .nil) rfl))
    (.cons (.empty rfl) .nil)
  exact ⟨_, hparse, rfl, parseProgram_tiles hsp.kinds honly hparse⟩

end Grammar

end ScriptMachine
