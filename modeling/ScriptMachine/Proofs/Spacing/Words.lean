import ScriptMachine.Token.Scan

/-!
# Words in front of a blank

A word takes as many characters as it can.  In front of a blank or at the end of a text it is the same
word that it was where it was read: no blank goes on with a word, and none makes a comment of `/`.

* `CodeRanges.disjoint`   ranges that are apart have no character in common;
* `Cuts r value taken rest`   a reading function succeeds and cuts the text in two;
* `Apart s`               the text `s` is empty or starts with a blank;
* `stringBody_again`, `number_again`, `symbol_again`   the kinds of words;
* `word_again`            all words.
-/

namespace ScriptMachine

/-! ## blanks -/

namespace Text

theorem CodeRanges.exists_of_covers {ranges : List (Nat × Nat)} {n : Nat}
    (h : CodeRanges.covers ranges n = true) : ∃ r ∈ ranges, r.1 ≤ n ∧ n ≤ r.2 := by
  induction ranges with
  | nil => cases h
  | cons r rest ih =>
    rw [CodeRanges.covers] at h
    split at h
    · cases h
    · rename_i hlo
      split at h
      · rename_i hhi
        exact ⟨r, by simp, by omega, hhi⟩
      · obtain ⟨r', hmem, hr'⟩ := ih h
        exact ⟨r', by simp [hmem], hr'⟩

theorem CodeRanges.disjoint {a b : CodeRanges} {c : Char}
    (h : ∀ r ∈ a.ranges, ∀ r' ∈ b.ranges, r.2 < r'.1 ∨ r'.2 < r.1) (ha : a.contains c = true) :
    b.contains c = false := by
  rw [Bool.eq_false_iff]
  intro hb
  obtain ⟨r, hr, hlo, hhi⟩ := exists_of_covers ha
  obtain ⟨r', hr', hlo', hhi'⟩ := exists_of_covers hb
  have := h r hr r' hr'
  omega

variable {c : Char}

theorem not_isLetter_of_isBlank (h : isBlank c = true) : isLetter c = false :=
  CodeRanges.disjoint (by decide +kernel) h

theorem not_isNumeral_of_isBlank (h : isBlank c = true) : isNumeral c = false :=
  CodeRanges.disjoint (by decide +kernel) h

/-- the ASCII characters that are not blank stand between the blanks -/
theorem bounds_of_isBlank (h : isBlank c = true) : c.toNat ≤ 0x20 ∨ 0x85 ≤ c.toNat := by
  obtain ⟨r, hr, hlo, hhi⟩ := CodeRanges.exists_of_covers h
  have hbounds : ∀ r ∈ blankRanges.ranges, r.2 ≤ 0x20 ∨ 0x85 ≤ r.1 := by decide
  have := hbounds r hr
  omega

theorem ne_of_isBlank {d : Char} (h : isBlank c = true) (hd : isBlank d = false) : c ≠ d := by
  rintro rfl
  rw [h] at hd
  cases hd

end Text

open Text

theorem not_isHexDigit_of_isBlank {c : Char} (h : isBlank c = true) : isHexDigit c = false := by
  have hbounds := bounds_of_isBlank h
  rw [Bool.eq_false_iff]
  intro hdigit
  simp only [isHexDigit, isDecimalDigit, Bool.or_eq_true, Bool.and_eq_true, decide_eq_true_eq,
    Char.le_def, UInt32.le_iff_toNat_le] at hdigit
  simp only [Char.toNat] at hbounds
  have h0 : ('0' : Char).val.toNat = 0x30 := rfl
  have h9 : ('9' : Char).val.toNat = 0x39 := rfl
  have ha : ('a' : Char).val.toNat = 0x61 := rfl
  have hf : ('f' : Char).val.toNat = 0x66 := rfl
  have hA : ('A' : Char).val.toNat = 0x41 := rfl
  have hF : ('F' : Char).val.toNat = 0x46 := rfl
  omega

theorem not_isDecimalDigit_of_isBlank {c : Char} (h : isBlank c = true) :
    isDecimalDigit c = false := by
  have hhex := not_isHexDigit_of_isBlank h
  rw [isHexDigit, Bool.or_eq_false_iff, Bool.or_eq_false_iff] at hhex
  exact hhex.1.1

namespace Scan

theorem not_isNamePart_of_isBlank {c : Char} (h : isBlank c = true) : isNamePart c = false := by
  rw [isNamePart, not_isLetter_of_isBlank h, not_isNumeral_of_isBlank h,
    decide_eq_false (ne_of_isBlank h (by decide)), decide_eq_false (ne_of_isBlank h (by decide))]
  rfl

/-! ## cuts -/

/-- a reading function succeeds with a value, having cut the text in two -/
def Cuts {α : Type} {input : List Char} (r : Except LexError (Piece α input)) (value : α)
    (taken rest : List Char) : Prop :=
  ∃ p, r = .ok p ∧ p.value = value ∧ p.taken = taken ∧ p.rest = rest

/-- the text is empty or starts with a blank -/
def Apart (s : List Char) : Prop := ∀ c rest, s = c :: rest → isBlank c = true

namespace Cuts

variable {α β : Type} {input input' : List Char} {r : Except LexError (Piece α input)} {v : α} {w : β}
  {t s : List Char}

/-- another value, with more characters in front -/
theorem map_iff {g : Piece α input → Piece β input'} (f : α → β) (front : List Char)
    (hg : ∀ p, (g p).value = f p.value ∧ (g p).taken = front ++ p.taken ∧ (g p).rest = p.rest) :
    Cuts (r.map g) w t s ↔ ∃ v t', w = f v ∧ t = front ++ t' ∧ Cuts r v t' s := by
  cases r with
  | error e =>
    constructor
    · rintro ⟨_, heq, _⟩
      cases heq
    · rintro ⟨_, _, _, _, _, heq, _⟩
      cases heq
  | ok p =>
    obtain ⟨hvalue, htaken, hrest⟩ := hg p
    constructor
    · rintro ⟨_, heq, rfl, rfl, rfl⟩
      cases heq
      exact ⟨p.value, p.taken, hvalue, htaken, p, rfl, rfl, rfl, hrest.symm⟩
    · rintro ⟨_, _, rfl, rfl, _, heq, rfl, rfl, rfl⟩
      cases heq
      exact ⟨g p, rfl, hvalue, htaken, hrest⟩

theorem not_error {e : LexError} (h : Cuts (.error e : Except LexError (Piece α input)) v t s) :
    False := by
  obtain ⟨_, heq, _⟩ := h
  cases heq

end Cuts

/-! ## strings -/

/-- a string ends with its quote, whatever stands behind it -/
theorem stringBody_again (quote : Char) (start p : Position) (input : List Char)
    {v t r : List Char} (h : Cuts (stringBody quote start p input) v t r) (start' p' : Position)
    (s : List Char) : Cuts (stringBody quote start' p' (t ++ s)) v t s := by
  match input, h with
  | [], h => exact h.not_error.elim
  | c :: rest, h =>
    unfold stringBody at h
    split at h
    · rename_i hquote
      obtain ⟨_, heq, rfl, rfl, rfl⟩ := h
      cases heq
      show Cuts (stringBody quote start' p' (c :: s)) [] [c] s
      unfold stringBody
      exact ⟨_, if_pos hquote, rfl, rfl, rfl⟩
    · rename_i hquote
      split at h
      · rename_i hslash
        match rest, h with
        | [], h => exact h.not_error.elim
        | e :: rest, h =>
          dsimp only at h
          split at h
          · exact h.not_error.elim
          · rename_i value hvalue
            obtain ⟨v, t, rfl, rfl, hbody⟩ :=
              (Cuts.map_iff (value :: ·) [c, e] (by exact fun _ => ⟨rfl, rfl, rfl⟩)).mp h
            have hagain := stringBody_again quote start _ rest hbody start' ((p'.next c).next e) s
            show Cuts (stringBody quote start' p' (c :: e :: (t ++ s))) _ _ s
            rw [stringBody.eq_def]
            simp only [if_neg hquote, if_pos hslash, hvalue]
            exact (Cuts.map_iff (value :: ·) [c, e] (by exact fun _ => ⟨rfl, rfl, rfl⟩)).mpr
              ⟨v, t, rfl, rfl, hagain⟩
      · rename_i hslash
        split at h
        · exact h.not_error.elim
        · rename_i hline
          obtain ⟨v, t, rfl, rfl, hbody⟩ :=
            (Cuts.map_iff (c :: ·) [c] (by exact fun _ => ⟨rfl, rfl, rfl⟩)).mp h
          have hagain := stringBody_again quote start _ rest hbody start' (p'.next c) s
          show Cuts (stringBody quote start' p' (c :: (t ++ s))) _ _ s
          rw [stringBody.eq_def]
          simp only [if_neg hquote, if_neg hslash, if_neg hline]
          exact (Cuts.map_iff (c :: ·) [c] (by exact fun _ => ⟨rfl, rfl, rfl⟩)).mpr
            ⟨v, t, rfl, rfl, hagain⟩

/-! ## runs of characters -/

theorem Apart.fails {test : Char → Bool} {s : List Char} (hs : Apart s)
    (htest : ∀ c, isBlank c = true → test c = false) (c : Char) (rest : List Char)
    (h : s = c :: rest) : test c = false := htest c (hs c rest h)

/-- a run of characters that pass a test ends at the first one that fails it -/
theorem span_again {test : Char → Bool} {t s : List Char} (ht : ∀ c ∈ t, test c = true)
    (hs : ∀ c rest, s = c :: rest → test c = false) :
    Piece.span test (t ++ s) = ⟨(), t, s, rfl⟩ := by
  have hstop : s.takeWhile test = [] ∧ s.dropWhile test = s := by
    cases s with
    | nil => exact ⟨rfl, rfl⟩
    | cons c rest =>
      have hc : ¬ test c = true := by simp [hs c rest rfl]
      exact ⟨List.takeWhile_cons_of_neg hc, List.dropWhile_cons_of_neg hc⟩
  have htaken : (t ++ s).takeWhile test = t := by
    rw [List.takeWhile_append_of_pos ht, hstop.1, List.append_nil]
  have hrest : (t ++ s).dropWhile test = s := by
    rw [List.dropWhile_append_of_pos ht, hstop.2]
  simp only [Piece.span, htaken, hrest]

theorem of_mem_span (test : Char → Bool) (input : List Char) :
    ∀ c ∈ (Piece.span test input).taken, test c = true :=
  List.all_eq_true.mp List.all_takeWhile

/-! ## numbers -/

theorem hexNumber_again {start : Position} {input : List Char} {v : Float} {t r s : List Char}
    (h : Cuts (hexNumber start input) v t r) (start' : Position) (hs : Apart s) :
    Cuts (hexNumber start' (t ++ s)) v t s := by
  unfold hexNumber at h
  dsimp only at h
  split at h
  · exact h.not_error.elim
  · rename_i hne
    split at h
    · rename_i hlt
      obtain ⟨_, heq, rfl, rfl, rfl⟩ := h
      cases heq
      show Cuts (hexNumber start' ((Piece.span isHexDigit input).taken ++ s)) _ _ s
      unfold hexNumber
      rw [span_again (of_mem_span _ _) (hs.fails fun _ => not_isHexDigit_of_isBlank)]
      dsimp only
      rw [if_neg hne, if_pos hlt]
      exact ⟨_, rfl, rfl, rfl, rfl⟩
    · exact h.not_error.elim

/-- a point and the digits behind it, at least one -/
def fraction (input : List Char) : Piece (List Char) input :=
  match input with
  | '.' :: d :: rest =>
    if isDecimalDigit d then
      let digits := Piece.span isDecimalDigit (d :: rest)
      (digits.map fun _ => digits.taken).cons '.'
    else Piece.none [] ('.' :: d :: rest)
  | rest => Piece.none [] rest

theorem decimalNumber_eq (c : Char) (input : List Char) :
    decimalNumber c input
      = ((Piece.span isDecimalDigit input).append
          (fraction (Piece.span isDecimalDigit input).rest)).map fun digits =>
        decimalToFloat (natOfDigits 10 (c :: (Piece.span isDecimalDigit input).taken ++ digits))
          (-digits.length) := rfl

theorem fraction_cases (input : List Char) :
    (fraction input).taken = [] ∧ (fraction input).value = []
      ∨ ∃ d digits, (∀ c ∈ d :: digits, isDecimalDigit c = true)
        ∧ (fraction input).taken = '.' :: d :: digits ∧ (fraction input).value = d :: digits := by
  unfold fraction
  split
  · rename_i d rest
    split
    · rename_i hd
      have hspan : (Piece.span isDecimalDigit (d :: rest)).taken
          = d :: rest.takeWhile isDecimalDigit := List.takeWhile_cons_of_pos hd
      refine .inr ⟨d, rest.takeWhile isDecimalDigit, ?_, ?_, ?_⟩
      · rw [← hspan]
        exact of_mem_span _ _
      · show '.' :: (Piece.span isDecimalDigit (d :: rest)).taken = _
        rw [hspan]
      · exact hspan
    · exact .inl ⟨rfl, rfl⟩
  · exact .inl ⟨rfl, rfl⟩

theorem fraction_apart {s : List Char} (hs : Apart s) : fraction s = Piece.none [] s := by
  unfold fraction
  split
  · exact absurd rfl (ne_of_isBlank (hs '.' _ rfl) (by decide))
  · rfl

theorem fraction_digits {d : Char} {digits s : List Char}
    (hd : ∀ c ∈ d :: digits, isDecimalDigit c = true) (hs : Apart s) :
    fraction ('.' :: d :: (digits ++ s)) = ⟨d :: digits, '.' :: d :: digits, s, rfl⟩ := by
  have hspan : Piece.span isDecimalDigit (d :: (digits ++ s)) = ⟨(), d :: digits, s, rfl⟩ :=
    span_again hd (hs.fails fun _ => not_isDecimalDigit_of_isBlank)
  rw [fraction, if_pos (hd d (by simp)), hspan]
  rfl

theorem decimalNumber_cuts (c : Char) {whole rest : List Char}
    (hwhole : ∀ d ∈ whole, isDecimalDigit d = true)
    (hrest : ∀ d more, rest = d :: more → isDecimalDigit d = false) :
    Cuts (.ok (decimalNumber c (whole ++ rest)))
      (decimalToFloat (natOfDigits 10 (c :: whole ++ (fraction rest).value))
        (-(fraction rest).value.length))
      (whole ++ (fraction rest).taken) (fraction rest).rest := by
  rw [decimalNumber_eq, span_again hwhole hrest]
  exact ⟨_, rfl, rfl, rfl, rfl⟩

theorem decimalNumber_again (c : Char) (input : List Char) {s : List Char} (hs : Apart s) :
    Cuts (.ok (decimalNumber c ((decimalNumber c input).taken ++ s))) (decimalNumber c input).value
      (decimalNumber c input).taken s := by
  have htaken : (decimalNumber c input).taken = (Piece.span isDecimalDigit input).taken
      ++ (fraction (Piece.span isDecimalDigit input).rest).taken := rfl
  have hvalue : (decimalNumber c input).value
      = decimalToFloat (natOfDigits 10 (c :: (Piece.span isDecimalDigit input).taken
        ++ (fraction (Piece.span isDecimalDigit input).rest).value))
        (-(fraction (Piece.span isDecimalDigit input).rest).value.length) := rfl
  rw [htaken, hvalue]
  rcases fraction_cases (Piece.span isDecimalDigit input).rest with
    ⟨ht, hv⟩ | ⟨d, digits, hd, ht, hv⟩
  · have hcuts := decimalNumber_cuts c (of_mem_span _ input)
      (hs.fails fun _ => not_isDecimalDigit_of_isBlank)
    rw [fraction_apart hs] at hcuts
    rw [ht, hv, List.append_nil]
    simpa [Piece.none] using hcuts
  · have hpoint : ∀ e more, '.' :: d :: (digits ++ s) = e :: more → isDecimalDigit e = false := by
      intro e more heq
      cases heq
      decide
    have hcuts := decimalNumber_cuts c (of_mem_span _ input) hpoint
    rw [fraction_digits hd hs] at hcuts
    rw [ht, hv, List.append_assoc]
    exact hcuts

/-- a decimal number does not go on with the letter of a hexadecimal one -/
theorem decimalNumber_head (c : Char) (input : List Char) {s : List Char} (hs : Apart s) {x : Char}
    {more : List Char} (h : (decimalNumber c input).taken ++ s = x :: more) :
    isDecimalDigit x = true ∨ x = '.' ∨ isBlank x = true := by
  have htaken : (decimalNumber c input).taken = (Piece.span isDecimalDigit input).taken
      ++ (fraction (Piece.span isDecimalDigit input).rest).taken := rfl
  rw [htaken, List.append_assoc] at h
  cases hdigits : (Piece.span isDecimalDigit input).taken with
  | cons d digits =>
    rw [hdigits] at h
    cases h
    exact .inl (of_mem_span isDecimalDigit input x (by simp [hdigits]))
  | nil =>
    rw [hdigits, List.nil_append] at h
    rcases fraction_cases (Piece.span isDecimalDigit input).rest with
      ⟨ht, _⟩ | ⟨d, digits, _, ht, _⟩
    · rw [ht, List.nil_append] at h
      exact .inr (.inr (hs x more h))
    · rw [ht] at h
      cases h
      exact .inr (.inl rfl)

theorem number_decimal (start : Position) (c : Char) {input : List Char}
    (hlower : ∀ more, input ≠ 'x' :: more) (hupper : ∀ more, input ≠ 'X' :: more) :
    number start c input = .ok (decimalNumber c input) := by
  unfold number
  split
  · exact absurd rfl (hlower _)
  · exact absurd rfl (hupper _)
  · rfl

theorem number_again {start : Position} {c : Char} {input : List Char} {v : Float}
    {t r s : List Char} (h : Cuts (number start c input) v t r) (start' : Position)
    (hs : Apart s) : Cuts (number start' c (t ++ s)) v t s := by
  unfold number at h
  split at h
  · obtain ⟨v, t, rfl, rfl, hhex⟩ :=
      (Cuts.map_iff id ['x'] (by exact fun _ => ⟨rfl, rfl, rfl⟩)).mp h
    exact (Cuts.map_iff id ['x'] (by exact fun _ => ⟨rfl, rfl, rfl⟩)).mpr
      ⟨v, t, rfl, rfl, hexNumber_again hhex start' hs⟩
  · obtain ⟨v, t, rfl, rfl, hhex⟩ :=
      (Cuts.map_iff id ['X'] (by exact fun _ => ⟨rfl, rfl, rfl⟩)).mp h
    exact (Cuts.map_iff id ['X'] (by exact fun _ => ⟨rfl, rfl, rfl⟩)).mpr
      ⟨v, t, rfl, rfl, hexNumber_again hhex start' hs⟩
  · obtain ⟨_, heq, rfl, rfl, rfl⟩ := h
    cases heq
    have hletter : ∀ x, isDecimalDigit x = false → x ≠ '.' → isBlank x = false →
        ∀ more, (decimalNumber c input).taken ++ s ≠ x :: more := by
      intro x hdigit hpoint hblank more heq
      rcases decimalNumber_head c input hs heq with hx | hx | hx
      · simp [hdigit] at hx
      · exact hpoint hx
      · simp [hblank] at hx
    rw [number_decimal start' c (hletter 'x' (by decide) (by decide) (by decide))
      (hletter 'X' (by decide) (by decide) (by decide))]
    exact decimalNumber_again c input hs

/-! ## symbols -/

/-- no blank makes a longer symbol -/
theorem symbol_apart {s : List Char} (hs : Apart s) :
    symbol? '=' s = some (Piece.none .assign s) ∧ symbol? '!' s = some (Piece.none .bang s)
      ∧ symbol? '<' s = some (Piece.none .lt s) ∧ symbol? '>' s = some (Piece.none .gt s) := by
  have hne : ∀ rest, s = '=' :: rest → False := fun rest heq =>
    absurd rfl (ne_of_isBlank (hs '=' rest heq) (by decide))
  refine ⟨?_, ?_, ?_, ?_⟩
  all_goals
    rw [symbol?]
    exact hne

theorem symbol_again {c : Char} {input : List Char} {p : Piece Symbol input}
    (h : symbol? c input = some p) {s : List Char} (hs : Apart s) :
    symbol? c (p.taken ++ s) = some ⟨p.value, p.taken, s, rfl⟩ := by
  obtain ⟨hassign, hbang, hlt, hgt⟩ := symbol_apart hs
  unfold symbol? at h
  split at h <;> cases h <;> first | rfl | assumption

/-! ## words -/

theorem word_again {start : Position} {c : Char} {input : List Char} {v : TokenKind}
    {t r s : List Char} (h : Cuts (word start c input) v t r) (start' : Position)
    (hs : Apart s) : Cuts (word start' c (t ++ s)) v t s := by
  unfold word at h ⊢
  split at h
  · rename_i hquote
    obtain ⟨v, t, rfl, rfl, hbody⟩ :=
      (Cuts.map_iff (fun value => .string (String.ofList value)) []
        (by exact fun _ => ⟨rfl, rfl, rfl⟩)).mp h
    rw [if_pos hquote]
    exact (Cuts.map_iff (fun value => .string (String.ofList value)) []
      (by exact fun _ => ⟨rfl, rfl, rfl⟩)).mpr
        ⟨v, t, rfl, rfl, stringBody_again _ _ _ _ hbody start' _ s⟩
  · rename_i hquote
    rw [if_neg hquote]
    split at h
    · rename_i hdigit
      obtain ⟨v, t, rfl, rfl, hnumber⟩ :=
        (Cuts.map_iff TokenKind.number [] (by exact fun _ => ⟨rfl, rfl, rfl⟩)).mp h
      rw [if_pos hdigit]
      exact (Cuts.map_iff TokenKind.number [] (by exact fun _ => ⟨rfl, rfl, rfl⟩)).mpr
        ⟨v, t, rfl, rfl, number_again hnumber start' hs⟩
    · rename_i hdigit
      rw [if_neg hdigit]
      split at h
      · rename_i hname
        obtain ⟨_, heq, rfl, rfl, rfl⟩ := h
        cases heq
        rw [if_pos hname]
        dsimp only [Piece.map]
        rw [span_again (of_mem_span _ _) (hs.fails fun _ => not_isNamePart_of_isBlank)]
        exact ⟨_, rfl, rfl, rfl, rfl⟩
      · rename_i hname
        rw [if_neg hname]
        split at h
        · rename_i piece hsymbol
          obtain ⟨_, heq, rfl, rfl, rfl⟩ := h
          cases heq
          dsimp only [Piece.map]
          rw [symbol_again hsymbol hs]
          exact ⟨_, rfl, rfl, rfl, rfl⟩
        · exact h.not_error.elim

/-- no word starts with a blank -/
theorem not_isBlank_of_word {start : Position} {c : Char} {input : List Char} {v : TokenKind}
    {t r : List Char} (h : Cuts (word start c input) v t r) : isBlank c = false := by
  rw [Bool.eq_false_iff]
  intro hc
  have hquote : ¬ (c = '"' ∨ c = '\x27') := by
    rintro (hq | hq)
    · exact ne_of_isBlank hc (by decide) hq
    · exact ne_of_isBlank hc (by decide) hq
  have hname : isNameStart c = false := by
    rw [isNameStart, not_isLetter_of_isBlank hc, decide_eq_false (ne_of_isBlank hc (by decide)),
      decide_eq_false (ne_of_isBlank hc (by decide))]
    rfl
  have hsymbol : symbol? c input = none := by
    unfold symbol?
    split <;> first | rfl | exact absurd hc (by decide)
  simp only [word, if_neg hquote, not_isDecimalDigit_of_isBlank hc, hname, hsymbol,
    Bool.false_eq_true, if_false] at h
  exact h.not_error

/-- the word that starts with `/` is the symbol alone -/
theorem taken_slash {start : Position} {input : List Char} {v : TokenKind} {t r : List Char}
    (h : Cuts (word start '/' input) v t r) : t = [] := by
  obtain ⟨_, heq, rfl, rfl, rfl⟩ := h
  cases heq
  rfl

end Scan

end ScriptMachine
