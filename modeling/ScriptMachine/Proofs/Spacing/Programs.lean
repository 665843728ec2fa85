import ScriptMachine.Proofs.Grammar.Complete
import ScriptMachine.Proofs.Lowering.FromRules
import ScriptMachine.Proofs.Machine.Sessions
import ScriptMachine.Proofs.Spacing.Tokens

/-!
# Layout does not change a program

* `tokenize_spells`         the tokens of a text have their end mark behind them and nowhere else;
* `parseProgram_of_kinds`   trees depend on the kinds of tokens only;
* `compileProgram_again`    code depends on the tree and the number of tokens only;
* `compileSource_layOut`    with other blanks between the tokens of a text, its program is the same.
-/

namespace ScriptMachine

open Text

/-! ## tokens and trees -/

theorem Scan.tokensFrom_spells (p : Position) (input : List Char) (tokens : List Token)
    (h : tokensFrom p input = .ok tokens) : ∃ ts, Spells tokens ts := by
  rcases tokensFrom_cases h with ⟨g, hg, rfl⟩ | ⟨g, c, rest, v, t, r, more, hg, hw, hmore, rfl⟩
  · exact ⟨[], rfl, nofun⟩
  · have hshorter : r.length < input.length := shorter_of_cuts hg hw
    obtain ⟨ts, hkinds, honly⟩ := tokensFrom_spells _ r more hmore
    refine ⟨v :: ts, by simp [hkinds], ?_⟩
    rw [List.mem_cons, not_or]
    exact ⟨(kind_ne_eof hw).symm, honly⟩
termination_by input.length
decreasing_by omega

theorem tokenize_spells {text : String} {tokens : List Token} (h : tokenize text = .ok tokens) :
    ∃ ts, Spells tokens ts := Scan.tokensFrom_spells _ _ _ h

theorem parseProgram_of_kinds {tokens tokens' : List Token} {ts : List TokenKind} {body : List Stmt}
    (hsp : Spells tokens ts) (hkinds : tokens'.map Token.kind = tokens.map Token.kind)
    (h : parseProgram tokens = .ok body) : parseProgram tokens' = .ok body := by
  have hsp' : Spells tokens' ts := ⟨hkinds.trans hsp.kinds, hsp.only⟩
  rw [Grammar.parseProgram_eq_ok_iff hsp] at h
  exact (Grammar.parseProgram_eq_ok_iff hsp').mpr h

/-! ## programs -/

theorem compileProgram_again {body : List Stmt} {source source' : Source} {program : Program}
    (h : compileProgram body source = .ok program)
    (hsize : source'.tokens.size = source.tokens.size) :
    compileProgram body source' = .ok { program with source := source' } := by
  obtain ⟨code, b, hrun, rfl⟩ := compileProgram_run h
  have hend : source'.endRange? = source.endRange? := by
    simp only [Source.endRange?, Array.isEmpty_iff_size_eq_zero, hsize]
  have hrun' : (Compile.statements { source := source' } body).run {} = .ok (code, b) :=
    Compile.statements_withSource hrun source'
  unfold compileProgram
  rw [hrun']
  show Except.ok (b.toProgram (mainCode code source') source') = _
  rw [mainCode, hend]
  rfl

theorem readSource_eq_ok {text : String} {tokens : List Token} {body : List Stmt} :
    readSource text = .ok (tokens, body) ↔ tokenize text = .ok tokens ∧ parseProgram tokens = .ok body := by
  unfold readSource
  cases htokens : tokenize text with
  | error e =>
    constructor
    · nofun
    · rintro ⟨heq, _⟩
      cases heq
  | ok tokens' =>
    cases hbody : parseProgram tokens' with
    | error e =>
      constructor
      · intro h
        simp [Bind.bind, Except.bind, Except.mapError, hbody] at h
      · rintro ⟨heq, hparse⟩
        cases heq
        rw [hbody] at hparse
        cases hparse
    | ok body' =>
      constructor
      · intro h
        simp [Bind.bind, Except.bind, Except.mapError, hbody, Pure.pure, Except.pure] at h
        obtain ⟨rfl, rfl⟩ := h
        exact ⟨rfl, hbody⟩
      · rintro ⟨heq, hparse⟩
        cases heq
        rw [hbody] at hparse
        cases hparse
        simp [Bind.bind, Except.bind, Except.mapError, hbody, Pure.pure, Except.pure]

/-- **Layout does not change a program.**  A text that compiles is a layout of its tokens, and every
layout of them with blanks only compiles too, where no gap between two tokens is empty.  The tokens have
the same kinds and texts, and but for the source it is the same program: the same constants, sections
with their instructions, ranges and marks, functions and classes. -/
theorem compileSource_layOut (text : String) (program : Program)
    (h : compileSource text = .ok program) :
    (∃ gaps : List String, gaps.length = program.source.tokens.size
      ∧ text = layOut gaps program.source.tokens.toList)
      ∧ ∀ gaps : List String, gaps.length = program.source.tokens.size →
        (∀ gap ∈ gaps, ∀ c ∈ gap.toList, isBlank c = true) →
        (∀ gap ∈ gaps.tail.dropLast, gap ≠ "") →
        ∃ tokens, compileSource (layOut gaps program.source.tokens.toList)
            = .ok { program with source := ⟨tokens, layOut gaps program.source.tokens.toList⟩ }
          ∧ tokens.map Token.kind = program.source.tokens.map Token.kind
          ∧ tokens.map Token.lexeme = program.source.tokens.map Token.lexeme := by
  obtain ⟨tokens, body, hread, hprogram⟩ := compileSource_ok h
  obtain ⟨htokens, hbody⟩ := readSource_eq_ok.mp hread
  obtain ⟨ts, hsp⟩ := tokenize_spells htokens
  have hsource : program.source = ⟨tokens.toArray, text⟩ := by
    obtain ⟨code, b, _, rfl⟩ := compileProgram_run hprogram
    rfl
  rw [hsource]
  refine ⟨by simpa using tokenize_eq_layOut htokens, fun gaps hlen hblank hsep => ?_⟩
  obtain ⟨tokens', htokens', hkinds, hlexemes⟩ :=
    tokenize_layOut htokens (by simpa using hlen) hblank hsep
  have hbody' := parseProgram_of_kinds hsp hkinds hbody
  have hsize : tokens'.toArray.size = tokens.toArray.size := by
    simpa using congrArg List.length hkinds
  refine ⟨tokens'.toArray, ?_, by simp [hkinds], by simp [hlexemes]⟩
  have hread' := readSource_eq_ok.mpr ⟨htokens', hbody'⟩
  unfold compileSource
  rw [hread']
  show (compileProgram body ⟨tokens'.toArray, layOut gaps tokens⟩).mapError SourceError.compile = _
  rw [compileProgram_again hprogram hsize]
  rfl

set_option maxRecDepth 4000 in
/-- a text with comments and none of the blanks that it could have, and a string that is no comment -/
theorem compileSource_layOut_crowded :
    ∃ program tokens, compileSource "s=\"// a\"/**/+s;//end" = .ok program
      ∧ compileSource "s = \n\"// a\" +\ts ; "
        = .ok { program with source := ⟨tokens, "s = \n\"// a\" +\ts ; "⟩ }
      ∧ tokens.map Token.lexeme = program.source.tokens.map Token.lexeme := by
  have htext : (compileSource "s=\"// a\"/**/+s;//end").map (fun p =>
        (p.source.tokens.size, layOut ["", " ", " \n", " ", "\t", " ", " "] p.source.tokens.toList))
      = .ok (7, "s = \n\"// a\" +\ts ; ") := by cbv
  cases hok : compileSource "s=\"// a\"/**/+s;//end" with
  | error e =>
    rw [hok] at htext
    cases htext
  | ok program =>
    rw [hok] at htext
    obtain ⟨hsize, hlayOut⟩ := Prod.mk.inj (Except.ok.inj htext)
    have hblank : ∀ gap ∈ ["", " ", " \n", " ", "\t", " ", " "], ∀ c ∈ gap.toList,
        isBlank c = true := by
      simp
      decide
    obtain ⟨tokens, hcompiles, -, hlexemes⟩ := (compileSource_layOut _ program hok).2
      ["", " ", " \n", " ", "\t", " ", " "] hsize.symm hblank (by decide)
    rw [hlayOut] at hcompiles
    exact ⟨program, tokens, rfl, hcompiles, hlexemes⟩

end ScriptMachine
