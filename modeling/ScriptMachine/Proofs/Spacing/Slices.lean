import ScriptMachine.Program
import ScriptMachine.Proofs.Spacing.Places

/-!
# Where tokens stand in a text

* `Token.Lies text token`   the token is where it says, between two characters of the text;
* `tokenize_lies`           so are all tokens of a text, one behind another;
* `slice?_of_tokenize`      the text of a range of tokens.
-/

namespace ScriptMachine

open String (utf8Len utf8Len_nil utf8Len_cons utf8Len_append)

/-- the text is cut where the token starts and where it stops -/
def Token.Lies (text : List Char) (token : Token) : Prop :=
  ∃ pre mid post, text = pre ++ mid ++ post ∧ utf8Len pre = token.start.offset
    ∧ utf8Len (pre ++ mid) = token.stop

theorem Token.Lies.le {text : List Char} {token : Token} (h : token.Lies text) :
    token.start.offset ≤ token.stop := by
  obtain ⟨pre, mid, post, -, hstart, hstop⟩ := h
  rw [← hstart, ← hstop, utf8Len_append]
  exact Nat.le_add_right _ _

/-- a token that knows its place is there -/
theorem Token.Follows.lies {text : String} {offset : Nat} {token : Token}
    (h : token.Follows text offset) : token.Lies text.toList := by
  obtain ⟨before, gap, after, rfl, -, -, hstart, hstop⟩ := h
  refine ⟨(before ++ gap).toList, token.lexeme.toList, after.toList, ?_, ?_, ?_⟩
  · simp only [String.toList_append]
  · rw [hstart, ← String.utf8ByteSize_ofList, String.ofList_toList]
    rfl
  · rw [hstop, ← String.toList_append, ← String.utf8ByteSize_ofList, String.ofList_toList]

/-! ## slices -/

/-- a text cut out by the numbers of its bytes -/
theorem Source.bytes_eq (pre mid post : List Char) (offset : Nat) :
    bytes (offset + utf8Len pre) (offset + utf8Len (pre ++ mid)) offset (pre ++ mid ++ post) = mid := by
  induction pre generalizing offset with
  | cons c pre ih =>
    have hc := c.utf8Size_pos
    rw [List.cons_append, List.cons_append, bytes, utf8Len_cons, utf8Len_cons, if_neg (by omega),
      if_pos (by omega)]
    refine Eq.trans ?_ (ih (offset + c.utf8Size))
    congr 1 <;> omega
  | nil =>
    rw [utf8Len_nil, Nat.add_zero, List.nil_append]
    -- the cut starts here and keeps its start, while the offset moves on
    suffices h : ∀ first ≤ offset, bytes first (offset + utf8Len mid) offset (mid ++ post) = mid from
      h offset (Nat.le_refl _)
    intro first hfirst
    induction mid generalizing offset with
    | nil =>
      cases post with
      | nil => rfl
      | cons c post =>
        rw [utf8Len_nil, List.nil_append, bytes, if_pos (by omega)]
    | cons c mid ih =>
      have hc := c.utf8Size_pos
      rw [List.cons_append, bytes, utf8Len_cons, if_neg (by omega), if_neg (by omega)]
      congr 1
      rw [show offset + (utf8Len mid + c.utf8Size) = offset + c.utf8Size + utf8Len mid by omega]
      exact ih _ (by omega)

/-- of two cuts through a text one is behind the other -/
theorem exists_between {pre post pre' post' : List Char} (h : pre ++ post = pre' ++ post')
    (hle : utf8Len pre ≤ utf8Len pre') : ∃ mid, pre' = pre ++ mid := by
  rcases List.append_eq_append_iff.mp h with ⟨mid, hmid, -⟩ | ⟨mid, hmid, -⟩
  · exact ⟨mid, hmid⟩
  · rw [hmid, utf8Len_append] at hle
    have hnil : mid = [] := String.utf8Len_eq_zero.mp (by omega)
    exact ⟨[], by rw [hmid, hnil, List.append_nil, List.append_nil]⟩

theorem tokenize_lies {text : String} {tokens : List Token} (h : tokenize text = .ok tokens) :
    (∀ t ∈ tokens, t.Lies text.toList) ∧ tokens.Pairwise fun t u => t.stop ≤ u.start.offset := by
  have hrow : TokenRow [] text.toList tokens := Scan.tokensFrom_row [] text.toList tokens h
  refine ⟨fun t ht => ?_, hrow.sorted.2⟩
  obtain ⟨offset, hfollows⟩ := hrow.follows_mem t ht
  rw [List.nil_append, String.ofList_toList] at hfollows
  exact hfollows.lies

/-- **The text of a range.**  A range of tokens stands for the text from the first byte of its first
token to the last byte of its last one. -/
theorem slice?_of_tokenize {text : String} {tokens : List Token} (h : tokenize text = .ok tokens)
    {range : TokenRange} (hrange : range.first ≤ range.last) (hlast : range.last < tokens.length) :
    ∃ (t u : Token) (pre mid post : String), tokens[range.first]? = some t ∧ tokens[range.last]? = some u
      ∧ text = pre ++ mid ++ post ∧ pre.utf8ByteSize = t.start.offset
      ∧ (pre ++ mid).utf8ByteSize = u.stop ∧ Source.slice? ⟨tokens.toArray, text⟩ range = some mid := by
  obtain ⟨hlies, hsorted⟩ := tokenize_lies h
  have hfirst : range.first < tokens.length := Nat.lt_of_le_of_lt hrange hlast
  have ht := hlies _ (List.getElem_mem hfirst)
  have hu := hlies _ (List.getElem_mem hlast)
  have hle : tokens[range.first].start.offset ≤ tokens[range.last].stop := by
    rcases Nat.eq_or_lt_of_le hrange with heq | hlt
    · simp only [heq]
      exact hu.le
    · exact ht.le.trans ((List.pairwise_iff_getElem.mp hsorted _ _ hfirst hlast hlt).trans hu.le)
  obtain ⟨pre, m, post', htext, hstart, -⟩ := ht
  obtain ⟨pre', m', post, htext', -, hstop⟩ := hu
  have hsame : pre ++ (m ++ post') = pre' ++ m' ++ post := by
    rw [← List.append_assoc, ← htext, htext']
  have hbytes : utf8Len pre ≤ utf8Len (pre' ++ m') := by
    rw [hstart, hstop]
    exact hle
  obtain ⟨mid, hmid⟩ := exists_between hsame hbytes
  rw [hmid] at htext' hstop
  refine ⟨_, _, String.ofList pre, String.ofList mid, String.ofList post,
    List.getElem?_eq_getElem hfirst, List.getElem?_eq_getElem hlast, ?_, ?_, ?_, ?_⟩
  · rw [← String.ofList_append, ← String.ofList_append, ← htext', String.ofList_toList]
  · rw [String.utf8ByteSize_ofList, hstart]
  · rw [← String.ofList_append, String.utf8ByteSize_ofList, hstop]
  · have hcut := Source.bytes_eq pre mid post 0
    rw [Nat.zero_add, Nat.zero_add, hstart, hstop, ← htext'] at hcut
    unfold Source.slice?
    simp only [List.getElem?_toArray, List.getElem?_eq_getElem hfirst, List.getElem?_eq_getElem hlast,
      Option.bind_eq_bind, Option.bind_some, Nat.max_eq_left hle, hcut]

end ScriptMachine
