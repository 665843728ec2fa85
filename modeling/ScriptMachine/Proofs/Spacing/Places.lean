import Mathlib
import ScriptMachine.Proofs.Spacing.Tokens

/-!
# Tokens reproduce their text

The characters of a text are gaps and tokens in turn.  While the text is read, lines, columns and bytes
are counted along.  The counts are those of the text that was read, so the places that tokens are told
to have are where they are.

* `byteSlice? text first last`  the text between two byte offsets, if there are characters between them;
* `Trivia gap rest`             blanks and whole comments, in front of more text;
* `Position.behind text`        the place behind a text;
* `TokenRow`                    tokens with gaps between them, to the end of the text;
* `Scan.tokensFrom_row`         the run lemma: whatever is read is such a row;
* `tokenizeSlicing`             reads tokens and cuts their texts out of the source by their bytes;
* `tokenize_reproduces`         the main statement.
-/

namespace ScriptMachine

open Text
open String (utf8Len utf8Len_nil utf8Len_cons utf8Len_append)

/-! ## slices -/

/-- The text between two byte offsets.  There is none if an offset is outside of the text or inside of
a character, or if the first one is behind the last one. -/
def byteSlice? (text : String) (first last : Nat) : Option String := do
  let p ← text.pos? ⟨first⟩
  let q ← text.pos? ⟨last⟩
  let slice ← text.slice? p q
  return slice.copy

theorem pos?_offset {text : String} (p : text.Pos) : text.pos? p.offset = some p := by
  have hvalid : p.offset.isValidForSlice text.toSlice = true :=
    String.Pos.Raw.isValidForSlice_eq_true_iff.mpr p.isValid.toSlice
  unfold String.pos? String.Slice.pos?
  rw [dif_pos hvalid]
  rfl

theorem byteSlice?_of_splits {text pre mid post : String} {p q : text.Pos}
    (hp : p.Splits pre (mid ++ post)) (hq : q.Splits (pre ++ mid) post) :
    byteSlice? text pre.utf8ByteSize (pre ++ mid).utf8ByteSize = some mid := by
  have hfirst := pos?_offset p
  have hlast := pos?_offset q
  rw [hp.offset_eq_rawEndPos] at hfirst
  rw [hq.offset_eq_rawEndPos] at hlast
  obtain ⟨hle, hcopy⟩ := String.copy_slice_eq_iff_splits.mpr ⟨pre, post, hp, hq⟩
  unfold byteSlice?
  rw [show text.pos? ⟨pre.utf8ByteSize⟩ = some p from hfirst,
    show text.pos? ⟨(pre ++ mid).utf8ByteSize⟩ = some q from hlast]
  simp only [Option.bind_eq_bind, Option.bind_some, String.slice?, dif_pos hle]
  exact congrArg some hcopy

/-- a text is cut where its parts meet -/
theorem byteSlice?_append (pre mid post : String) :
    byteSlice? (pre ++ mid ++ post) pre.utf8ByteSize (pre ++ mid).utf8ByteSize = some mid :=
  byteSlice?_of_splits (String.Pos.splits_ofEqAppend String.append_assoc)
    (String.Pos.splits_ofEqAppend rfl)

/-! ## gaps -/

/-- Blanks and comments in front of `rest`.  A line comment is whole if it reaches up to the end of its
line, and a block comment if its first closing is its end. -/
inductive Trivia : List Char → List Char → Prop
  | nil : Trivia [] rest
  | blank (hc : isBlank c = true) (h : Trivia gap rest) : Trivia (c :: gap) rest
  | line (hbody : '\n' ∉ body) (hend : gap ++ rest = [] ∨ (gap ++ rest).head? = some '\n')
      (h : Trivia gap rest) :
    Trivia ('/' :: '/' :: (body ++ gap)) rest
  | block (hbody : ¬ ['*', '/'] <:+: body) (h : Trivia gap rest) :
    Trivia ('/' :: '*' :: (body ++ '*' :: '/' :: gap)) rest

namespace Scan

theorem blockComment?_taken {input : List Char} {comment : Piece Unit input}
    (h : blockComment? input = some comment) :
    ∃ body, comment.taken = body ++ ['*', '/'] ∧ ¬ ['*', '/'] <:+: body := by
  induction input using blockComment?.induct with
  | case1 => cases h
  | case2 rest =>
    cases h
    exact ⟨[], rfl, by decide⟩
  | case3 c rest hclose ih =>
    rw [blockComment?] at h
    · obtain ⟨more, hmore, rfl⟩ := Option.map_eq_some_iff.mp h
      obtain ⟨body, hbody, hinfix⟩ := ih hmore
      refine ⟨c :: body, congrArg (c :: ·) hbody, ?_⟩
      intro hclosing
      rcases List.infix_cons_iff.mp hclosing with hprefix | hinner
      · obtain ⟨post, hpost⟩ := hprefix
        obtain ⟨rfl, rfl⟩ := List.cons.inj hpost
        have hwhole := more.whole
        rw [hbody] at hwhole
        exact hclose _ rfl hwhole.symm
      · exact hinfix hinner
    · exact hclose

theorem lineComment_whole (input : List Char) :
    '\n' ∉ (lineComment input).taken
      ∧ ((lineComment input).rest = [] ∨ (lineComment input).rest.head? = some '\n') := by
  show '\n' ∉ input.takeWhile (· ≠ '\n')
    ∧ (input.dropWhile (· ≠ '\n') = [] ∨ (input.dropWhile (· ≠ '\n')).head? = some '\n')
  constructor
  · intro hmem
    simpa using List.all_eq_true.mp List.all_takeWhile _ hmem
  · cases hrest : input.dropWhile (· ≠ '\n') with
    | nil => exact .inl rfl
    | cons c rest =>
      have hc := List.head?_dropWhile_not (· ≠ '\n') input
      rw [hrest] at hc
      right
      simpa using hc

theorem Cuts.whole {α : Type} {input : List Char} {r : Except LexError (Piece α input)} {v : α}
    {t s : List Char} (h : Cuts r v t s) : t ++ s = input := by
  obtain ⟨p, -, -, rfl, rfl⟩ := h
  exact p.whole

/-- what is skipped is blanks and whole comments -/
theorem trivia_of_gap {p : Position} {input g s : List Char} (h : Cuts (gap p input) () g s) :
    Trivia g s := by
  induction p, input using gap.induct generalizing g with
  | case1 p =>
    rw [gap] at h
    obtain ⟨_, heq, -, rfl, rfl⟩ := h
    cases heq
    exact .nil
  | case2 p rest comment =>
    rename_i ih
    rw [gap] at h
    obtain ⟨_, g', -, rfl, hmore⟩ := (Cuts.map_iff id ('/' :: '/' :: comment.taken)
      (by exact fun _ => ⟨rfl, rfl, rfl⟩)).mp h
    obtain ⟨hbody, hend⟩ := lineComment_whole rest
    rw [← hmore.whole] at hend
    exact .line hbody hend (ih hmore)
  | case3 p rest hnone =>
    rw [gap, hnone] at h
    exact h.not_error.elim
  | case4 p rest comment hsome ih =>
    rw [gap, hsome] at h
    obtain ⟨_, g', -, rfl, hmore⟩ := (Cuts.map_iff id ('/' :: '*' :: comment.taken)
      (by exact fun _ => ⟨rfl, rfl, rfl⟩)).mp h
    obtain ⟨body, htaken, hbody⟩ := blockComment?_taken hsome
    rw [htaken, List.cons_append, List.cons_append, List.append_assoc]
    exact .block hbody (ih hmore)
  | case5 p c rest hline hblock hblank ih =>
    rw [gap_blank p hblank] at h
    obtain ⟨_, g', -, rfl, hmore⟩ := (Cuts.map_iff id [c]
      (by exact fun _ => ⟨rfl, rfl, rfl⟩)).mp h
    exact .blank hblank (ih hmore)
  | case6 p c rest hline hblock hblank =>
    rw [gap, if_neg hblank] at h
    · obtain ⟨_, heq, -, rfl, rfl⟩ := h
      cases heq
      exact .nil
    · exact hline
    · exact hblock

end Scan

/-! ## places -/

/-- the place behind a text that starts at the beginning of a source -/
def Position.behind (text : String) : Position where
  line := 1 + text.toList.count '\n'
  column := 1 + (text.toList.reverse.takeWhile (· ≠ '\n')).length
  offset := text.utf8ByteSize

theorem Position.offset_after (p : Position) (cs : List Char) :
    (p.after cs).offset = p.offset + utf8Len cs := by
  induction cs generalizing p with
  | nil => rfl
  | cons c cs ih =>
    have hnext : (p.next c).offset = p.offset + c.utf8Size := by
      unfold Position.next
      split <;> rfl
    rw [Position.after_cons, ih, hnext, utf8Len_cons]
    omega

theorem Position.offset_after_start (cs : List Char) :
    (({} : Position).after cs).offset = utf8Len cs := by
  rw [Position.offset_after]
  exact Nat.zero_add _

/-- counting along a text comes to the place behind it -/
theorem Position.after_eq_behind (cs : List Char) :
    ({} : Position).after cs = .behind (String.ofList cs) := by
  induction cs using List.reverseRecOn with
  | nil => rfl
  | append_singleton cs c ih =>
    rw [Position.after_append, ih]
    show (Position.behind (String.ofList cs)).next c = _
    unfold Position.next Position.behind
    by_cases hc : c = '\n'
    · simp [hc, Nat.add_assoc, show "\n".utf8ByteSize = '\n'.utf8Size from rfl]
    · simp [hc, Nat.add_assoc]

/-! ## rows of tokens -/

/-- The tokens of the rest of a text, behind its `front`.  Each stands behind a gap and has its text,
its places and a kind of its own; the end mark stands behind the last gap. -/
inductive TokenRow : List Char → List Char → List Token → Prop
  | eof (hgap : Trivia gap []) :
    TokenRow front gap [⟨.eof, "", ({} : Position).after (front ++ gap), utf8Len (front ++ gap)⟩]
  | word (hgap : Trivia gap (word ++ rest)) (hword : word ≠ []) (hkind : kind ≠ .eof)
      (h : TokenRow (front ++ gap ++ word) rest more) :
    TokenRow front (gap ++ (word ++ rest))
      (⟨kind, String.ofList word, ({} : Position).after (front ++ gap),
        utf8Len (front ++ gap ++ word)⟩ :: more)

/-- whatever is read behind some text is a row -/
theorem Scan.tokensFrom_row (front input : List Char) (tokens : List Token)
    (h : tokensFrom (({} : Position).after front) input = .ok tokens) :
    TokenRow front input tokens := by
  rcases tokensFrom_cases h with ⟨g, hg, rfl⟩ | ⟨g, c, rest, v, t, r, more, hg, hw, hmore, rfl⟩
  · rw [← hg.whole, List.append_nil, ← Position.after_append, Position.offset_after_start]
    exact .eof (trivia_of_gap hg)
  · have hshorter : r.length < input.length := shorter_of_cuts hg hw
    have htrivia := trivia_of_gap hg
    rw [← Position.after_append {} front g, ← Position.after_append {} (front ++ g)] at hmore ⊢
    rw [← hg.whole, Position.offset_after_start]
    rw [← hw.whole] at htrivia ⊢
    exact .word htrivia (List.cons_ne_nil c t) (kind_ne_eof hw) (tokensFrom_row _ r more hmore)
termination_by input.length
decreasing_by omega

/-- Behind `offset` bytes of the text there is a gap and then the token, which knows its place. -/
def Token.Follows (text : String) (offset : Nat) (token : Token) : Prop :=
  ∃ before gap after : String, text = before ++ gap ++ token.lexeme ++ after
    ∧ before.utf8ByteSize = offset ∧ Trivia gap.toList (token.lexeme ++ after).toList
    ∧ token.start = .behind (before ++ gap)
    ∧ token.stop = (before ++ gap ++ token.lexeme).utf8ByteSize

theorem Token.Follows.slice {text : String} {offset : Nat} {token : Token}
    (h : token.Follows text offset) : byteSlice? text token.start.offset token.stop = some token.lexeme := by
  obtain ⟨before, gap, after, htext, -, -, hstart, hstop⟩ := h
  rw [htext, hstart, hstop]
  exact byteSlice?_append (before ++ gap) token.lexeme after

namespace TokenRow

variable {front input gap word rest : List Char} {tokens : List Token}

/-- the first token behind a gap -/
theorem follows_first (kind : TokenKind) (hgap : Trivia gap (word ++ rest)) :
    Token.Follows (String.ofList (front ++ (gap ++ (word ++ rest)))) (utf8Len front)
      ⟨kind, String.ofList word, ({} : Position).after (front ++ gap), utf8Len (front ++ gap ++ word)⟩ := by
  refine ⟨String.ofList front, String.ofList gap, String.ofList rest, ?_,
    String.utf8ByteSize_ofList front, ?_, ?_, ?_⟩
  · simp only [String.ofList_append, String.append_assoc]
  · simpa only [← String.ofList_append, String.toList_ofList] using hgap
  · rw [Position.after_eq_behind, String.ofList_append]
  · simp only [← String.ofList_append, String.utf8ByteSize_ofList]

/-- every token follows on the one before it -/
theorem follows (h : TokenRow front input tokens) :
    ∀ pair ∈ (utf8Len front :: tokens.map Token.stop).zip tokens,
      pair.2.Follows (String.ofList (front ++ input)) pair.1 := by
  induction h with
  | @eof gap front hgap =>
    intro pair hpair
    cases List.mem_singleton.mp hpair
    have hend : Trivia gap ([] ++ []) := hgap
    simpa using @follows_first front _ _ _ .eof hend
  | word hgap hword hkind h ih =>
    intro pair hpair
    rcases List.mem_cons.mp hpair with rfl | hpair
    · exact follows_first _ hgap
    · have hmore := ih pair hpair
      rwa [List.append_assoc, List.append_assoc] at hmore

theorem follows_mem (h : TokenRow front input tokens) :
    ∀ t ∈ tokens, ∃ offset, t.Follows (String.ofList (front ++ input)) offset := by
  intro t ht
  have hsecond : ((utf8Len front :: tokens.map Token.stop).zip tokens).map Prod.snd = tokens :=
    List.map_snd_zip (by simp)
  rw [← hsecond] at ht
  obtain ⟨pair, hpair, rfl⟩ := List.mem_map.mp ht
  exact ⟨pair.1, h.follows pair hpair⟩

/-- the tokens are in order and apart -/
theorem sorted (h : TokenRow front input tokens) :
    (∀ t ∈ tokens, utf8Len front ≤ t.start.offset)
      ∧ tokens.Pairwise fun t u => t.stop ≤ u.start.offset := by
  induction h with
  | eof hgap =>
    refine ⟨fun t ht => ?_, List.pairwise_singleton _ _⟩
    cases List.mem_singleton.mp ht
    rw [Position.offset_after_start, utf8Len_append]
    exact Nat.le_add_right _ _
  | word hgap hword hkind h ih =>
    refine ⟨fun t ht => ?_, List.pairwise_cons.mpr ih⟩
    rcases List.mem_cons.mp ht with rfl | ht
    · rw [Position.offset_after_start, utf8Len_append]
      exact Nat.le_add_right _ _
    · have hmore := ih.1 t ht
      rw [utf8Len_append, utf8Len_append] at hmore
      omega

/-- the end mark is the last token, and only the last one -/
theorem ends (h : TokenRow front input tokens) :
    ∃ (words : List Token) (last : Token), tokens = words ++ [last] ∧ last.kind = .eof
      ∧ last.start.offset = utf8Len (front ++ input) ∧ last.stop = utf8Len (front ++ input)
      ∧ ∀ t ∈ words, t.kind ≠ .eof ∧ t.lexeme ≠ "" ∧ t.start.offset < t.stop := by
  induction h with
  | eof hgap => exact ⟨[], _, rfl, rfl, Position.offset_after_start _, rfl, nofun⟩
  | @word gap word _ _ front _ hgap hword hkind h ih =>
    obtain ⟨words, last, rfl, heof, hstart, hstop, hwords⟩ := ih
    rw [List.append_assoc, List.append_assoc] at hstart hstop
    refine ⟨_ :: words, last, rfl, heof, hstart, hstop, fun t ht => ?_⟩
    rcases List.mem_cons.mp ht with rfl | ht
    · refine ⟨hkind, String.ofList_eq_empty_iff.not.mpr hword, ?_⟩
      rw [Position.offset_after_start, utf8Len_append _ word]
      exact Nat.lt_add_of_pos_right (Nat.pos_of_ne_zero (String.utf8Len_eq_zero.not.mpr hword))
    · exact hwords t ht

end TokenRow

/-! ## cutting texts out of the source -/

/-- The tokens of a text, where the text of each is cut out of the source by the numbers of its bytes.
There is no result if that fails. -/
def Scan.slicingFrom (text : String) (p : Position) (input : List Char) :
    Option (Except LexError (List Token)) :=
  match gap p input with
  | .error e => some (.error e)
  | .ok skipped =>
    let start := p.after skipped.taken
    match h : skipped.rest with
    | [] => some (.ok [⟨.eof, "", start, start.offset⟩])
    | c :: rest =>
      match word start c rest with
      | .error e => some (.error e)
      | .ok piece =>
        let stop := start.after (c :: piece.taken)
        have : piece.rest.length < input.length := by
          have h₁ := piece.rest_le
          have h₂ := skipped.rest_le
          rw [h, List.length_cons] at h₂
          omega
        match byteSlice? text start.offset stop.offset with
        | none => none
        | some lexeme =>
          (slicingFrom text stop piece.rest).map fun more =>
            more.map (⟨piece.value, lexeme, start, stop.offset⟩ :: ·)
termination_by input.length
decreasing_by omega

/-- reads the tokens of a source text and cuts their texts out of it -/
def tokenizeSlicing (source : String) : Option (Except LexError (List Token)) :=
  Scan.slicingFrom source {} source.toList

namespace Scan

section
variable {text : String} {p : Position} {input g rest t r : List Char} {c : Char} {v : TokenKind}
  {e : LexError}

theorem slicingFrom_end (hg : Cuts (gap p input) () g []) :
    slicingFrom text p input = some (tokensFrom p input) := by
  rw [tokensFrom_end hg]
  obtain ⟨skipped, hgap, -, rfl, hrest⟩ := hg
  rw [slicingFrom, hgap]
  dsimp only
  split
  · rfl
  · rename_i heq
    rw [hrest] at heq
    cases heq

theorem slicingFrom_error (hg : Cuts (gap p input) () g (c :: rest))
    (hw : word (p.after g) c rest = .error e) :
    slicingFrom text p input = some (tokensFrom p input) := by
  rw [tokensFrom_error hg hw]
  obtain ⟨skipped, hgap, -, rfl, hrest⟩ := hg
  rw [slicingFrom, hgap]
  dsimp only
  split
  · rename_i heq
    rw [hrest] at heq
    cases heq
  · rename_i heq
    rw [hrest] at heq
    cases heq
    rw [hw]

/-- If the word behind the gap is cut out by its places, then all depends on the tokens behind it. -/
theorem slicingFrom_word (hg : Cuts (gap p input) () g (c :: rest))
    (hw : Cuts (word (p.after g) c rest) v t r)
    (hcut : byteSlice? text (p.after g).offset ((p.after g).after (c :: t)).offset
      = some (String.ofList (c :: t)))
    (hmore : slicingFrom text ((p.after g).after (c :: t)) r
      = some (tokensFrom ((p.after g).after (c :: t)) r)) :
    slicingFrom text p input = some (tokensFrom p input) := by
  rw [tokensFrom_word hg hw]
  obtain ⟨skipped, hgap, -, rfl, hrest⟩ := hg
  obtain ⟨piece, hword, rfl, rfl, rfl⟩ := hw
  rw [slicingFrom, hgap]
  dsimp only
  split
  · rename_i heq
    rw [hrest] at heq
    cases heq
  · rename_i heq
    rw [hrest] at heq
    cases heq
    rw [hword]
    dsimp only
    rw [hcut, hmore]
    rfl

end

/-- a word behind a gap is cut out by its places -/
theorem byteSlice?_word (front g word rest : List Char) :
    byteSlice? (String.ofList (front ++ (g ++ (word ++ rest)))) (({} : Position).after (front ++ g)).offset
      (({} : Position).after (front ++ g ++ word)).offset = some (String.ofList word) := by
  have hcut := byteSlice?_append (String.ofList (front ++ g)) (String.ofList word) (String.ofList rest)
  rw [← String.ofList_append, ← String.ofList_append, String.utf8ByteSize_ofList,
    String.utf8ByteSize_ofList, List.append_assoc (front ++ g), List.append_assoc front] at hcut
  rwa [Position.offset_after_start, Position.offset_after_start]

/-- no cut fails -/
theorem slicingFrom_eq (front input : List Char) :
    slicingFrom (String.ofList (front ++ input)) (({} : Position).after front) input
      = some (tokensFrom (({} : Position).after front) input) := by
  cases hgap : gap (({} : Position).after front) input with
  | error e => rw [slicingFrom, tokensFrom, hgap]
  | ok skipped =>
    cases hrest : skipped.rest with
    | nil => exact slicingFrom_end ⟨skipped, hgap, rfl, rfl, hrest⟩
    | cons c rest =>
      have hg : Cuts (gap (({} : Position).after front) input) () skipped.taken (c :: rest) :=
        ⟨skipped, hgap, rfl, rfl, hrest⟩
      cases hword : word ((({} : Position).after front).after skipped.taken) c rest with
      | error e => exact slicingFrom_error hg hword
      | ok piece =>
        have hw : Cuts (word ((({} : Position).after front).after skipped.taken) c rest)
            piece.value piece.taken piece.rest := ⟨piece, hword, rfl, rfl, rfl⟩
        have hshorter : piece.rest.length < input.length := shorter_of_cuts hg hw
        have hinput : front ++ (skipped.taken ++ (c :: piece.taken ++ piece.rest)) = front ++ input := by
          rw [List.cons_append, hw.whole, hg.whole]
        have hcut := byteSlice?_word front skipped.taken (c :: piece.taken) piece.rest
        have hmore := slicingFrom_eq (front ++ skipped.taken ++ (c :: piece.taken)) piece.rest
        rw [List.append_assoc _ _ piece.rest, List.append_assoc front] at hmore
        rw [hinput, Position.after_append {} (front ++ _), Position.after_append {} front] at hcut hmore
        exact slicingFrom_word hg hw hcut hmore
termination_by input.length
decreasing_by omega

end Scan

/-- **Tokens reproduce their text.**  Whatever the text, no cut by byte offsets fails.  If the text has
tokens, then the end mark is the last one and stands where the text ends, and no other is an end mark or
empty.  The text of a token is the slice between its offsets.  Tokens are in order and apart, with
nothing but blanks and whole comments between them, and the line, column and offset of each are those
of the place behind all that comes before it. -/
theorem tokenize_reproduces (text : String) :
    tokenizeSlicing text = some (tokenize text)
      ∧ ∀ tokens, tokenize text = .ok tokens →
        (∃ words last, tokens = words ++ [last] ∧ last.kind = .eof
          ∧ last.start.offset = text.utf8ByteSize ∧ last.stop = text.utf8ByteSize
          ∧ ∀ t ∈ words, t.kind ≠ .eof ∧ t.lexeme ≠ "" ∧ t.start.offset < t.stop)
        ∧ (∀ t ∈ tokens, byteSlice? text t.start.offset t.stop = some t.lexeme)
        ∧ (tokens.Pairwise fun t u => t.stop ≤ u.start.offset)
        ∧ ∀ pair ∈ (0 :: tokens.map Token.stop).zip tokens, pair.2.Follows text pair.1 := by
  constructor
  · have heq := Scan.slicingFrom_eq [] text.toList
    rwa [List.nil_append, String.ofList_toList] at heq
  · intro tokens h
    have hrow : TokenRow [] text.toList tokens := Scan.tokensFrom_row [] text.toList tokens h
    have hfollows := hrow.follows
    have hends := hrow.ends
    rw [List.nil_append, ← String.utf8ByteSize_ofList, String.ofList_toList] at hends
    rw [List.nil_append, utf8Len_nil, String.ofList_toList] at hfollows
    refine ⟨hends, fun t ht => ?_, hrow.sorted.2, hfollows⟩
    obtain ⟨offset, hfollows⟩ := hrow.follows_mem t ht
    rw [List.nil_append, String.ofList_toList] at hfollows
    exact hfollows.slice

set_option maxRecDepth 4000 in
/-- characters of several bytes in a name, in a comment and in a string, and a newline in a comment -/
theorem tokenize_reproduces_multibyte :
    ∃ tokens, tokenize "é=/*→\n*/'ß'//" = .ok tokens
      ∧ tokens.map (fun t => (t.lexeme, t.start, t.stop))
        = [("é", ⟨1, 1, 0⟩, 2), ("=", ⟨1, 2, 2⟩, 3), ("'ß'", ⟨2, 3, 11⟩, 15), ("", ⟨2, 8, 17⟩, 17)]
      ∧ ∀ t ∈ tokens, byteSlice? "é=/*→\n*/'ß'//" t.start.offset t.stop = some t.lexeme := by
  have htext : (tokenize "é=/*→\n*/'ß'//").map (·.map fun t => (t.lexeme, t.start, t.stop))
      = .ok [("é", ⟨1, 1, 0⟩, 2), ("=", ⟨1, 2, 2⟩, 3), ("'ß'", ⟨2, 3, 11⟩, 15),
        ("", ⟨2, 8, 17⟩, 17)] := by cbv
  cases hok : tokenize "é=/*→\n*/'ß'//" with
  | error e =>
    rw [hok] at htext
    cases htext
  | ok tokens =>
    rw [hok] at htext
    exact ⟨tokens, rfl, Except.ok.inj htext, ((tokenize_reproduces _).2 tokens hok).2.1⟩

end ScriptMachine
