import ScriptMachine.Proofs.Spacing.Words

/-!
# Tokens with other gaps between them

* `gap_again`           blanks in front of a word are skipped, and nothing else is;
* `tokensFrom_cases`    a text is a gap, and then the end or a word and more text;
* `layOut gaps tokens`  the texts of tokens, each with a text of its own in front;
* `tokenize_eq_layOut`  every text with tokens is such a layout of them;
* `tokenize_layOut`     with other blanks in front of the tokens, the same tokens are read.
-/

namespace ScriptMachine

open Text

namespace Scan

/-! ## gaps -/

theorem gap_blank (p : Position) {c : Char} {rest : List Char} (hc : isBlank c = true) :
    gap p (c :: rest) = (gap (p.next c) rest).map (Piece.cons c) := by
  rw [gap, if_pos hc]
  · rintro _ rfl
    exact absurd hc (by decide)
  · rintro _ rfl
    exact absurd hc (by decide)

theorem gap_nil (p : Position) : gap p [] = .ok (Piece.none () []) := by rw [gap]

theorem gap_word (p : Position) {c : Char} {rest : List Char} (hc : isBlank c = false)
    (hslash : c = '/' → Apart rest) : gap p (c :: rest) = .ok (Piece.none () (c :: rest)) := by
  rw [gap, if_neg (by simp [hc])]
  · rintro _ rfl heq
    exact ne_of_isBlank (hslash rfl _ _ heq) (by decide) rfl
  · rintro _ rfl heq
    exact ne_of_isBlank (hslash rfl _ _ heq) (by decide) rfl

/-- blanks are skipped up to what is not skipped -/
theorem gap_again (p : Position) {g s : List Char} (hg : ∀ c ∈ g, isBlank c = true)
    (hs : ∀ q, gap q s = .ok (Piece.none () s)) : Cuts (gap p (g ++ s)) () g s := by
  induction g generalizing p with
  | nil =>
    rw [List.nil_append, hs]
    exact ⟨_, rfl, rfl, rfl, rfl⟩
  | cons b g ih =>
    rw [List.cons_append, gap_blank p (hg b (by simp))]
    exact (Cuts.map_iff id [b] (by exact fun _ => ⟨rfl, rfl, rfl⟩)).mpr
      ⟨(), g, rfl, rfl, ih (p.next b) fun c hc => hg c (by simp [hc])⟩

/-! ## tokens -/

/-- the end of the input is the last token, and there is always one -/
theorem tokensFrom_end {p : Position} {input g : List Char} (hg : Cuts (gap p input) () g []) :
    tokensFrom p input = .ok [⟨.eof, "", p.after g, (p.after g).offset⟩] := by
  obtain ⟨skipped, hgap, -, rfl, hrest⟩ := hg
  rw [tokensFrom, hgap]
  dsimp only
  split
  · rfl
  · rename_i heq
    rw [hrest] at heq
    cases heq

theorem tokensFrom_word {p : Position} {input g rest t r : List Char} {c : Char} {v : TokenKind}
    (hg : Cuts (gap p input) () g (c :: rest)) (hw : Cuts (word (p.after g) c rest) v t r) :
    tokensFrom p input = (tokensFrom ((p.after g).after (c :: t)) r).map
      (⟨v, String.ofList (c :: t), p.after g, ((p.after g).after (c :: t)).offset⟩ :: ·) := by
  obtain ⟨skipped, hgap, -, rfl, hrest⟩ := hg
  obtain ⟨piece, hword, rfl, rfl, rfl⟩ := hw
  rw [tokensFrom, hgap]
  dsimp only
  split
  · rename_i heq
    rw [hrest] at heq
    cases heq
  · rename_i heq
    rw [hrest] at heq
    cases heq
    rw [hword]

theorem tokensFrom_error {p : Position} {input g rest : List Char} {c : Char} {e : LexError}
    (hg : Cuts (gap p input) () g (c :: rest)) (hw : word (p.after g) c rest = .error e) :
    tokensFrom p input = .error e := by
  obtain ⟨skipped, hgap, -, rfl, hrest⟩ := hg
  rw [tokensFrom, hgap]
  dsimp only
  split
  · rename_i heq
    rw [hrest] at heq
    cases heq
  · rename_i heq
    rw [hrest] at heq
    cases heq
    rw [hw]

/-- how a text gives its tokens: a gap, and then the end or a word and more tokens -/
theorem tokensFrom_cases {p : Position} {input : List Char} {tokens : List Token}
    (h : tokensFrom p input = .ok tokens) :
    (∃ g, Cuts (gap p input) () g [] ∧ tokens = [⟨.eof, "", p.after g, (p.after g).offset⟩])
      ∨ ∃ g c rest v t r more, Cuts (gap p input) () g (c :: rest)
        ∧ Cuts (word (p.after g) c rest) v t r
        ∧ tokensFrom ((p.after g).after (c :: t)) r = .ok more
        ∧ tokens = ⟨v, String.ofList (c :: t), p.after g, ((p.after g).after (c :: t)).offset⟩
          :: more := by
  cases hgap : gap p input with
  | error e =>
    rw [tokensFrom, hgap] at h
    cases h
  | ok skipped =>
    cases hrest : skipped.rest with
    | nil =>
      have hg : Cuts (gap p input) () skipped.taken [] := ⟨skipped, hgap, rfl, rfl, hrest⟩
      rw [tokensFrom_end hg] at h
      cases h
      exact .inl ⟨skipped.taken, ⟨skipped, rfl, rfl, rfl, hrest⟩, rfl⟩
    | cons c rest =>
      have hg : Cuts (gap p input) () skipped.taken (c :: rest) :=
        ⟨skipped, hgap, rfl, rfl, hrest⟩
      cases hword : word (p.after skipped.taken) c rest with
      | error e =>
        rw [tokensFrom_error hg hword] at h
        cases h
      | ok piece =>
        have hw : Cuts (word (p.after skipped.taken) c rest) piece.value piece.taken piece.rest :=
          ⟨piece, hword, rfl, rfl, rfl⟩
        rw [tokensFrom_word hg hw] at h
        cases hmore : tokensFrom ((p.after skipped.taken).after (c :: piece.taken)) piece.rest with
        | error e =>
          rw [hmore] at h
          cases h
        | ok more =>
          rw [hmore] at h
          cases h
          rw [← hgap]
          exact .inr ⟨_, c, rest, _, _, _, more, hg, hw, hmore, rfl⟩

/-- no word is the end of the input -/
theorem kind_ne_eof {start : Position} {c : Char} {input t r : List Char} {v : TokenKind}
    (h : Cuts (word start c input) v t r) : v ≠ .eof := by
  unfold word at h
  split at h
  · obtain ⟨_, _, rfl, -, -⟩ := (Cuts.map_iff (fun value => .string (String.ofList value)) []
      (by exact fun _ => ⟨rfl, rfl, rfl⟩)).mp h
    simp
  · split at h
    · obtain ⟨_, _, rfl, -, -⟩ :=
        (Cuts.map_iff TokenKind.number [] (by exact fun _ => ⟨rfl, rfl, rfl⟩)).mp h
      simp
    · split at h
      · obtain ⟨_, heq, rfl, -, -⟩ := h
        cases heq
        dsimp only [Piece.map, nameKind]
        split <;> simp
      · split at h
        · obtain ⟨_, heq, rfl, -, -⟩ := h
          cases heq
          simp [Piece.map]
        · exact h.not_error.elim

end Scan

/-! ## layouts -/

/-- the texts of tokens one after another, each with a gap in front -/
def layOut : List String → List Token → String
  | gap :: gaps, token :: tokens => gap ++ token.lexeme ++ layOut gaps tokens
  | _, _ => ""

theorem toList_layOut (gap : String) (gaps : List String) (token : Token) (tokens : List Token) :
    (layOut (gap :: gaps) (token :: tokens)).toList
      = gap.toList ++ (token.lexeme.toList ++ (layOut gaps tokens).toList) := by
  rw [layOut, String.toList_append, String.toList_append, List.append_assoc]

namespace Scan

theorem shorter_of_cuts {p start : Position} {input g rest t r : List Char} {c : Char}
    {v : TokenKind} (hg : Cuts (gap p input) () g (c :: rest)) (hw : Cuts (word start c rest) v t r) :
    r.length < input.length := by
  obtain ⟨skipped, -, -, -, hrest⟩ := hg
  obtain ⟨piece, -, -, -, rfl⟩ := hw
  have h₁ := piece.rest_le
  have h₂ := skipped.rest_le
  rw [hrest, List.length_cons] at h₂
  omega

theorem exists_layOut (p : Position) (input : List Char) (tokens : List Token)
    (h : tokensFrom p input = .ok tokens) :
    ∃ gaps : List String, gaps.length = tokens.length ∧ (layOut gaps tokens).toList = input := by
  rcases tokensFrom_cases h with ⟨g, hg, rfl⟩ | ⟨g, c, rest, v, t, r, more, hg, hw, hmore, rfl⟩
  · obtain ⟨skipped, -, -, rfl, hrest⟩ := hg
    refine ⟨[String.ofList skipped.taken], rfl, ?_⟩
    have hwhole := skipped.whole
    rw [hrest] at hwhole
    simpa [toList_layOut, layOut] using hwhole
  · have hshorter : r.length < input.length := shorter_of_cuts hg hw
    obtain ⟨skipped, -, -, rfl, hrest⟩ := hg
    obtain ⟨piece, -, rfl, rfl, rfl⟩ := hw
    obtain ⟨gaps, hgaps, htext⟩ := exists_layOut _ piece.rest more hmore
    refine ⟨String.ofList skipped.taken :: gaps, by simp [hgaps], ?_⟩
    have hwhole := skipped.whole
    rw [hrest, ← piece.whole] at hwhole
    simpa [toList_layOut, htext] using hwhole
termination_by input.length
decreasing_by omega

/-- the last token has no text -/
theorem lexeme_of_single {p : Position} {input : List Char} {token : Token}
    (h : tokensFrom p input = .ok [token]) : token.lexeme = "" := by
  rcases tokensFrom_cases h with ⟨_, _, heq⟩ | ⟨_, _, _, _, _, r, more, _, _, hmore, heq⟩
  · cases heq
    rfl
  · cases heq
    rcases tokensFrom_cases hmore with ⟨_, _, heq⟩ | ⟨_, _, _, _, _, _, _, _, _, _, heq⟩ <;> cases heq

/-- a layout of some tokens is empty or starts with a blank -/
theorem apart_layOut {p : Position} {input : List Char} {tokens : List Token}
    (h : tokensFrom p input = .ok tokens) {gaps : List String}
    (hlen : gaps.length = tokens.length)
    (hblank : ∀ gap ∈ gaps, ∀ c ∈ gap.toList, isBlank c = true)
    (hsep : ∀ gap ∈ gaps.dropLast, gap ≠ "") : Apart (layOut gaps tokens).toList := by
  match gaps, tokens, hlen with
  | [], [], _ =>
    intro c rest heq
    simp [layOut] at heq
  | gap :: gaps, token :: more, hlen =>
    intro c rest heq
    cases hgap : gap.toList with
    | cons b g =>
      rw [toList_layOut, hgap, List.cons_append] at heq
      cases heq
      exact hblank gap (by simp) c (by simp [hgap])
    | nil =>
      have hempty : gap = "" := String.toList_eq_nil_iff.mp hgap
      cases gaps with
      | cons gap' gaps' => exact absurd hempty (hsep gap (by simp))
      | nil =>
        cases more with
        | cons _ _ => simp at hlen
        | nil =>
          rw [toList_layOut, hgap, lexeme_of_single h] at heq
          simp [layOut] at heq

/-- The gaps between tokens can be filled with any blanks, at least one between two tokens. -/
theorem tokensFrom_layOut (p : Position) (input : List Char) (tokens : List Token)
    (h : tokensFrom p input = .ok tokens) (gaps : List String)
    (hlen : gaps.length = tokens.length)
    (hblank : ∀ gap ∈ gaps, ∀ c ∈ gap.toList, isBlank c = true)
    (hsep : ∀ gap ∈ gaps.tail.dropLast, gap ≠ "") (q : Position) :
    ∃ tokens', tokensFrom q (layOut gaps tokens).toList = .ok tokens'
      ∧ tokens'.map Token.kind = tokens.map Token.kind
      ∧ tokens'.map Token.lexeme = tokens.map Token.lexeme := by
  rcases tokensFrom_cases h with ⟨g, hg, rfl⟩ | ⟨g, c, rest, v, t, r, more, hg, hw, hmore, rfl⟩
  · match gaps, hlen with
    | [gap], _ =>
      have hgap := gap_again q (hblank gap (by simp)) gap_nil
      rw [toList_layOut]
      exact ⟨_, tokensFrom_end hgap, rfl, rfl⟩
  · match gaps, hlen with
    | gap :: gaps, hlen =>
      have hlen' : gaps.length = more.length := by simpa using hlen
      have hblank' : ∀ gap ∈ gaps, ∀ c ∈ gap.toList, isBlank c = true :=
        fun gap' hgap' => hblank gap' (by simp [hgap'])
      have hsep' : ∀ gap ∈ gaps.tail.dropLast, gap ≠ "" := by
        intro gap' hgap'
        rw [← List.tail_dropLast] at hgap'
        exact hsep gap' (List.mem_of_mem_tail hgap')
      have hshorter : r.length < input.length := shorter_of_cuts hg hw
      have hapart := apart_layOut hmore hlen' hblank' hsep
      have hstop : ∀ q', Scan.gap q' (c :: (t ++ (layOut gaps more).toList))
          = .ok (Piece.none () (c :: (t ++ (layOut gaps more).toList))) := by
        refine fun q' => gap_word q' (not_isBlank_of_word hw) fun hslash => ?_
        subst hslash
        rw [taken_slash hw, List.nil_append]
        exact hapart
      have hgap := gap_again q (hblank gap (by simp)) hstop
      have hword := word_again hw (q.after gap.toList) hapart
      obtain ⟨tokens', htokens, hkinds, hlexemes⟩ := tokensFrom_layOut _ r more hmore gaps hlen'
        hblank' hsep' ((q.after gap.toList).after (c :: t))
      rw [toList_layOut, String.toList_ofList, List.cons_append, tokensFrom_word hgap hword, htokens]
      refine ⟨_, rfl, ?_, ?_⟩
      · rw [List.map_cons, List.map_cons, hkinds]
      · rw [List.map_cons, List.map_cons, hlexemes]
termination_by input.length
decreasing_by omega

end Scan

/-- a text with tokens is a layout of them -/
theorem tokenize_eq_layOut {text : String} {tokens : List Token} (h : tokenize text = .ok tokens) :
    ∃ gaps : List String, gaps.length = tokens.length ∧ text = layOut gaps tokens := by
  obtain ⟨gaps, hlen, heq⟩ := Scan.exists_layOut _ _ _ h
  exact ⟨gaps, hlen, (String.toList_injective heq).symm⟩

theorem tokenize_layOut {text : String} {tokens : List Token} (h : tokenize text = .ok tokens)
    {gaps : List String} (hlen : gaps.length = tokens.length)
    (hblank : ∀ gap ∈ gaps, ∀ c ∈ gap.toList, isBlank c = true)
    (hsep : ∀ gap ∈ gaps.tail.dropLast, gap ≠ "") :
    ∃ tokens', tokenize (layOut gaps tokens) = .ok tokens'
      ∧ tokens'.map Token.kind = tokens.map Token.kind
      ∧ tokens'.map Token.lexeme = tokens.map Token.lexeme :=
  Scan.tokensFrom_layOut _ _ _ h gaps hlen hblank hsep _

end ScriptMachine
