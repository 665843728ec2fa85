import ScriptMachine.Proofs.Lowering.Points
import ScriptMachine.Proofs.Spacing.Programs
import ScriptMachine.Proofs.Spacing.Slices

/-!
# Stepping points

* `Instruction.Starts ins stmt`      the instruction is where the statement starts;
* `Source.Shows range`               a range of tokens stands for a piece of the text;
* `compileSource_steppingPoints`     each statement that is compiled has one stepping point, and no
                                     other instruction is one.
-/

namespace ScriptMachine

/-- the instruction has the range of the statement and is its own -/
def Instruction.Starts (ins : Instruction) (stmt : Stmt) : Prop :=
  ins.range = some stmt.range ∧ ins.op.isPlumbing = false

/-- the instructions of a section where stepping stops -/
def Section.marked (s : Section) : List Instruction := s.code.toList.filter Instruction.startsStatement

/-- the text from the first byte of the first token to the last byte of the last one -/
def Source.Shows (source : Source) (range : TokenRange) : Prop :=
  range.first ≤ range.last ∧ range.last < source.tokens.size
    ∧ ∃ (t u : Token) (pre mid post : String), source.tokens[range.first]? = some t
      ∧ source.tokens[range.last]? = some u ∧ source.text = pre ++ mid ++ post
      ∧ pre.utf8ByteSize = t.start.offset ∧ (pre ++ mid).utf8ByteSize = u.stop
      ∧ source.slice? range = some mid

theorem Source.shows_of_within {text : String} {tokens : List Token} (h : tokenize text = .ok tokens)
    {range : TokenRange} (hr : range.Within tokens.length) :
    Source.Shows ⟨tokens.toArray, text⟩ range := by
  obtain ⟨t, u, pre, mid, post, ht, hu, hcut⟩ := slice?_of_tokenize h hr.1 hr.2
  refine ⟨hr.1, by simpa using hr.2, t, u, pre, mid, post, ?_, ?_, hcut⟩
  · rw [List.getElem?_toArray, ht]
  · rw [List.getElem?_toArray, hu]

/-- marked code as a section of a program -/
theorem Marked.section {n : Nat} {c : Code} {stmts : List Stmt} (h : Marked n c stmts) (name : String) :
    (∀ ins ∈ (Section.ofCode name c).code.toList, ∀ range, ins.range = some range → range.Within n)
      ∧ List.Forall₂ Instruction.Starts (Section.ofCode name c).marked stmts := by
  have hcode : (Section.ofCode name c).code.toList = c.map Emitted.instruction := rfl
  refine ⟨fun ins hins range hrange => ?_, ?_⟩
  · rw [hcode] at hins
    obtain ⟨e, he, rfl⟩ := List.mem_map.mp hins
    exact h.ranges e he range hrange
  · rw [Section.marked, hcode, List.filter_map]
    exact List.forall₂_map_left_iff.mpr h.marked

/-- all sections of a program -/
theorem Makes.sections {n : Nat} {b : Builder} {main : Code} {p : Points} (h : Makes n {} main b p)
    (source : Source) :
    (∀ s ∈ (b.toProgram main source).sections.toList, ∀ ins ∈ s.code.toList, ∀ range,
        ins.range = some range → range.Within n)
      ∧ List.Forall₂ (fun s stmts => List.Forall₂ Instruction.Starts s.marked stmts)
        (b.toProgram main source).sections.toList p.sections := by
  obtain ⟨hown, more, hmore, hinner⟩ := h
  have hsections : (b.toProgram main source).sections.toList
      = Section.ofCode mainName main :: b.functions.toList.map fun f => Section.ofCode f.name f.code := by
    simp [Builder.toProgram]
  rw [hsections, ← List.forall₂_and_left]
  refine .cons (hown.section _) (List.forall₂_map_left_iff.mpr ?_)
  have hcodes : b.functions.toList.map FunctionCode.code = more := hmore
  rw [← hcodes, List.forall₂_map_left_iff] at hinner
  exact hinner.imp fun f stmts hf => hf.section f.name

/-- the ranges of a tree are among the tokens that it was read from -/
theorem within_of_parseProgram {tokens : List Token} {ts : List TokenKind} {body : List Stmt}
    (hsp : Spells tokens ts) (h : parseProgram tokens = .ok body) : Stmt.AllWithin ts.length body :=
  ((Grammar.parseProgram_eq_ok_iff hsp).mp h).within.2

/-- the last token by itself -/
theorem within_endRange {source : Source} {range : TokenRange} (h : source.endRange? = some range) :
    range.Within source.tokens.size := by
  unfold Source.endRange? at h
  split at h
  · cases h
  · rename_i hsome
    rw [Array.isEmpty_iff_size_eq_zero] at hsome
    cases h
    exact ⟨Nat.le_refl _, Nat.sub_lt (Nat.pos_of_ne_zero hsome) Nat.one_pos⟩

/-- the first instruction of a statement -/
theorem startStatement_starts {form : StmtForm} (exits : List ExitScope) (range : TokenRange) {c : Code}
    (hfronts : c = [] ∨ Fronts c) :
    ∃ first rest, startStatement exits range c = first :: rest
      ∧ first.instruction.startsStatement = true ∧ first.instruction.Starts (.node form range) := by
  rcases hfronts with rfl | ⟨e, rest, rfl, -, hop⟩
  · exact ⟨_, _, rfl, rfl, rfl, rfl⟩
  · exact ⟨_, _, rfl, rfl, rfl, hop⟩

/-- what one run of the compiler on a statement makes -/
theorem Compile.statement_starts {ctx : Context} {form : StmtForm} {range : TokenRange} {b b' : Builder}
    {c : Code} (h : (Compile.statement ctx (.node form range)).run b = .ok (c, b')) :
    (∃ body inner, form = .block body ∧ (Compile.statements ctx body).run b = .ok (inner, b')
      ∧ c = Emitted.inside .enterScope range :: inner ++ [Emitted.inside .leaveScope range])
    ∨ ((∀ body, form ≠ .block body) ∧ ∃ first rest, c = first :: rest
      ∧ first.instruction.startsStatement = true ∧ first.instruction.Starts (.node form range)) := by
  by_cases hblock : ∃ body, form = .block body
  · obtain ⟨body, rfl⟩ := hblock
    rw [Compile.statement] at h
    obtain ⟨inner, b₁, hinner, h⟩ := Compile.bind_ok.mp h
    obtain ⟨rfl, rfl⟩ := Prod.mk.inj (Compile.pure_ok.mp h)
    exact .inl ⟨body, inner, rfl, hinner, rfl⟩
  · have hform : ∀ body, form ≠ .block body := fun body heq => hblock ⟨body, heq⟩
    rw [Compile.statement.eq_2 ctx form range hform] at h
    obtain ⟨c', b₁, hc', h⟩ := Compile.bind_ok.mp h
    obtain ⟨rfl, rfl⟩ := Prod.mk.inj (Compile.pure_ok.mp h)
    have hfronts := (Compile.formCode_of_ok _ _ _ _ _ _ hform hc').fronts
    exact .inr ⟨hform, startStatement_starts ctx.exits range hfronts⟩

/-- **Stepping points.**  In a program that compiles, the marked instructions of each section are those
of the statements that are compiled into it, one by one in the order of the code, the copies of a
finalizer included.  The code of a statement is not empty and starts with its marked instruction, and
only a block has none of its own.  Marked instructions are no plumbing.  Every range stands for its
piece of the text. -/
theorem compileSource_steppingPoints (text : String) (program : Program)
    (h : compileSource text = .ok program) :
    (∃ tokens body, readSource text = .ok (tokens, body)
      ∧ List.Forall₂ (fun s stmts => List.Forall₂ Instruction.Starts (Section.marked s) stmts)
          program.sections.toList (Stmt.allPoints [] body).sections)
    ∧ (∀ (ctx : Context) (form : StmtForm) (range : TokenRange) (b b' : Builder) (c : Code),
        (Compile.statement ctx (.node form range)).run b = .ok (c, b') →
        (∃ body inner, form = .block body ∧ (Compile.statements ctx body).run b = .ok (inner, b')
          ∧ c = .inside .enterScope range :: inner ++ [.inside .leaveScope range])
        ∨ ((∀ body, form ≠ .block body) ∧ ∃ first rest, c = first :: rest
          ∧ first.instruction.startsStatement = true ∧ first.instruction.Starts (.node form range)))
    ∧ ∀ s ∈ program.sections.toList, ∀ ins ∈ s.code.toList, ∀ range, ins.range = some range →
        program.source.Shows range := by
  obtain ⟨tokens, body, hread, hprogram⟩ := compileSource_ok h
  obtain ⟨htokens, hbody⟩ := readSource_eq_ok.mp hread
  obtain ⟨ts, hsp⟩ := tokenize_spells htokens
  obtain ⟨code, b, hcode, rfl⟩ := compileProgram_ok hprogram
  have hlength : tokens.length = ts.length + 1 := by
    simpa using congrArg List.length hsp.kinds
  have hmain : Makes tokens.length {} (mainCode code ⟨tokens.toArray, text⟩) b
      (Stmt.allPoints [] body) := by
    have hmakes := hcode.makes nofun (within_of_parseProgram hsp hbody)
    refine (hmakes.mono (by omega)).more ⟨.nil, fun e he range hrange => ?_⟩
    cases List.mem_singleton.mp he
    exact within_endRange hrange
  obtain ⟨hranges, hmarked⟩ := hmain.sections ⟨tokens.toArray, text⟩
  refine ⟨⟨tokens, body, hread, hmarked⟩, fun ctx form range b b' c => Compile.statement_starts,
    fun s hs ins hins range hrange => ?_⟩
  exact Source.shows_of_within htokens (hranges s hs ins hins range hrange)

/-- a function that returns out of a region, so that there are three copies of the finalizer -/
def returningThrough : String := "function f() \x7b try \x7b return f; \x7d finally \x7b f(); \x7d \x7d"

set_option maxRecDepth 4000 in
theorem compileSource_steppingPoints_returning :
    ∃ program, compileSource returningThrough = .ok program
      ∧ program.sections.toList.map (fun s => s.marked.map fun ins => ins.range.bind program.sourceFor?)
        = [[some returningThrough], [some "try \x7b return f; \x7d finally \x7b f(); \x7d",
            some "return f;", some "f();", some "f();", some "f();"]]
      ∧ ∃ tokens body, readSource returningThrough = .ok (tokens, body)
        ∧ List.Forall₂ (fun s stmts => List.Forall₂ Instruction.Starts (Section.marked s) stmts)
          program.sections.toList (Stmt.allPoints [] body).sections := by
  have hmarked : (compileSource returningThrough).map (fun p =>
        p.sections.toList.map fun s => s.marked.map fun ins => ins.range.bind p.sourceFor?)
      = .ok [[some returningThrough], [some "try \x7b return f; \x7d finally \x7b f(); \x7d",
          some "return f;", some "f();", some "f();", some "f();"]] := by cbv
  cases hok : compileSource returningThrough with
  | error e =>
    rw [hok] at hmarked
    cases hmarked
  | ok program =>
    rw [hok] at hmarked
    exact ⟨program, rfl, Except.ok.inj hmarked, (compileSource_steppingPoints _ program hok).1⟩

end ScriptMachine
