import ScriptMachine.Proofs.Grammar
import ScriptMachine.SyntaxTree.Parse

/-!
# Reading a token list that ends where it should

* `Reads r v c`         a reading function succeeds with `v` and goes on at `c`;
* `Spells tokens ts`    tokens of the kinds `ts`, and the mark for the end of the input behind them;
* `Cursor.behind`       the cursor behind some tokens of a list;
* `Spells.take`, `Spells.eat`, `Spells.expect`, ...   the steps of a cursor by the kinds ahead of it,
                        each together with what follows if it succeeds.
-/

namespace ScriptMachine

open Grammar

/-! ## success -/

/-- a reading function succeeds with a value and goes on at a cursor -/
def Reads {α : Type} {n : Nat} (r : Except ParseError (Parsed α n)) (v : α) (c : Cursor) : Prop :=
  ∃ h, r = .ok ⟨v, c, h⟩

namespace Reads

variable {α β : Type} {n m : Nat} {x : Except ParseError (Parsed α n)}
  {f : Parsed α n → Except ParseError (Parsed β m)} {a : α} {v : β} {c c₁ : Cursor}

theorem shorter (h : Reads x a c) : c.size < n := h.1

theorem pure (h : c.size < m) : Reads (Pure.pure ⟨v, c, h⟩) v c := ⟨h, rfl⟩

theorem of_pure {h : c₁.size < m} {w : β} (hp : Reads (Pure.pure ⟨w, c₁, h⟩) v c) :
    w = v ∧ c₁ = c := by
  obtain ⟨_, heq⟩ := hp
  cases heq
  exact ⟨rfl, rfl⟩

theorem bind (hx : Reads x a c₁) (hf : ∀ h, Reads (f ⟨a, c₁, h⟩) v c) : Reads (x >>= f) v c := by
  obtain ⟨h, rfl⟩ := hx
  exact hf h

theorem of_bind (h : Reads (x >>= f) v c) :
    ∃ a c₁ h₁, Reads x a c₁ ∧ Reads (f ⟨a, c₁, h₁⟩) v c := by
  cases x with
  | error e =>
    obtain ⟨_, heq⟩ := h
    cases heq
  | ok p => exact ⟨p.value, p.next, p.shorter, ⟨p.shorter, rfl⟩, h⟩

theorem not_error {e : ParseError} (h : Reads (.error e : Except ParseError (Parsed α n)) a c) :
    False := by
  obtain ⟨_, heq⟩ := h
  cases heq

end Reads

/-! ## places in a token list -/

/-- The tokens have the kinds `ts`, and the mark for the end of the input, which is not among them,
stands behind. -/
structure Spells (tokens : List Token) (ts : List TokenKind) : Prop where
  kinds : tokens.map Token.kind = ts ++ [.eof]
  only : .eof ∉ ts

/-- the cursor behind the first `i` tokens -/
def Cursor.behind (tokens : List Token) (i : Nat) : Cursor := ⟨i, tokens.drop i, tokens.getLast?⟩

namespace Cursor

variable {tokens : List Token} {i j : Nat} {k : TokenKind} {c : Cursor}

theorem size_behind : (behind tokens i).size = tokens.length - i := List.length_drop

theorem lt_of_size_lt (h : (behind tokens j).size < (behind tokens i).size) : i < j := by
  rw [size_behind, size_behind] at h
  omega

theorem rangeFrom_behind (h : i < j) : (behind tokens j).rangeFrom i = span i j := by
  show (⟨i, max (j - 1) i⟩ : TokenRange) = ⟨i, j - 1⟩
  rw [Nat.max_eq_left (by omega)]

theorem range_behind (h : i < j) :
    (behind tokens j).rangeFrom (behind tokens i).index = span i j := rangeFrom_behind h

theorem peek?_behind : (behind tokens i).peek? = (tokens.map Token.kind)[i]? := by
  show (tokens.drop i).head?.map Token.kind = _
  rw [List.head?_drop, List.getElem?_map]

theorem take?_behind (h : (tokens.map Token.kind)[i]? = some k) :
    ∃ hc, (behind tokens i).take? = some ⟨k, behind tokens (i + 1), hc⟩ := by
  rw [List.getElem?_map] at h
  obtain ⟨token, htoken, rfl⟩ := Option.map_eq_some_iff.mp h
  have hdrop : tokens.drop i = token :: tokens.drop (i + 1) := by
    obtain ⟨hlt, rfl⟩ := List.getElem?_eq_some_iff.mp htoken
    exact List.drop_eq_getElem_cons hlt
  have hlt : (behind tokens (i + 1)).size < (behind tokens i).size := by
    show (tokens.drop (i + 1)).length < (tokens.drop i).length
    rw [hdrop, List.length_cons]
    omega
  refine ⟨hlt, ?_⟩
  unfold take?
  split
  · rename_i heq
    rw [show (behind tokens i).ahead = tokens.drop i from rfl, hdrop] at heq
    cases heq
  · rename_i heq
    rw [show (behind tokens i).ahead = tokens.drop i from rfl, hdrop] at heq
    cases heq
    rfl

theorem of_take? {hc : c.size < (behind tokens i).size}
    (h : (behind tokens i).take? = some ⟨k, c, hc⟩) :
    (tokens.map Token.kind)[i]? = some k ∧ c = behind tokens (i + 1) := by
  cases hk : (tokens.map Token.kind)[i]? with
  | none =>
    have hdrop : tokens.drop i = [] := by
      rw [List.getElem?_eq_none_iff, List.length_map] at hk
      exact List.drop_eq_nil_of_le hk
    unfold take? at h
    split at h
    · cases h
    · rename_i heq
      rw [show (behind tokens i).ahead = tokens.drop i from rfl, hdrop] at heq
      cases heq
  | some k' =>
    obtain ⟨_, htake⟩ := take?_behind hk
    rw [htake] at h
    cases h
    exact ⟨rfl, rfl⟩

end Cursor

/-! ## steps -/

namespace Spells

open Cursor

variable {tokens : List Token} {ts : List TokenKind} {i : Nat} {k : TokenKind} {s : Symbol}
  {w : Keyword} {name place : String} {c : Cursor} {n : Nat}

theorem getElem?_kinds (h : Spells tokens ts) (hk : k ≠ .eof) :
    (tokens.map Token.kind)[i]? = some k ↔ ts[i]? = some k := by
  rw [h.kinds, List.getElem?_append]
  split
  · rfl
  · rename_i hlt
    have hnone : ts[i]? = none := List.getElem?_eq_none_iff.mpr (by omega)
    rw [hnone]
    cases hsub : i - ts.length with
    | zero =>
      show some TokenKind.eof = some k ↔ _
      simp [hk.symm]
    | succ d => simp

theorem ne_eof (h : Spells tokens ts) (hk : ts[i]? = some k) : k ≠ .eof := by
  rintro rfl
  exact h.only (List.mem_of_getElem? hk)

theorem take (h : Spells tokens ts) (hk : ts[i]? = some k) :
    ∃ hc, (behind tokens i).take? = some ⟨k, behind tokens (i + 1), hc⟩ :=
  take?_behind ((h.getElem?_kinds (h.ne_eof hk)).mpr hk)

theorem of_take (h : Spells tokens ts) {hc : c.size < (behind tokens i).size}
    (ht : (behind tokens i).take? = some ⟨k, c, hc⟩) (hk : k ≠ .eof) :
    ts[i]? = some k ∧ c = behind tokens (i + 1) := by
  obtain ⟨hkind, hcursor⟩ := of_take? ht
  exact ⟨(h.getElem?_kinds hk).mp hkind, hcursor⟩

theorem eat (h : Spells tokens ts) (hs : Sym ts i s) :
    ∃ hc, (behind tokens i).eat? s = some ⟨(), behind tokens (i + 1), hc⟩ := by
  obtain ⟨hc, htake⟩ := h.take hs
  refine ⟨hc, ?_⟩
  unfold eat?
  rw [htake]
  exact if_pos rfl

theorem of_eat (h : Spells tokens ts) {u : Unit} {hc : c.size < (behind tokens i).size}
    (he : (behind tokens i).eat? s = some ⟨u, c, hc⟩) : Sym ts i s ∧ c = behind tokens (i + 1) := by
  unfold eat? at he
  split at he
  · rename_i t _ _ htake
    split at he
    · rename_i hts
      cases he
      rw [← hts]
      exact h.of_take htake (by simp)
    · cases he
  · cases he

theorem eat_none (h : Spells tokens ts) (hs : ¬ Sym ts i s) : (behind tokens i).eat? s = none := by
  cases he : (behind tokens i).eat? s with
  | none => rfl
  | some p => exact absurd (h.of_eat he).1 hs

theorem eatWord (h : Spells tokens ts) (hw : Word ts i w) :
    ∃ hc, (behind tokens i).eatWord? w = some ⟨(), behind tokens (i + 1), hc⟩ := by
  obtain ⟨hc, htake⟩ := h.take hw
  refine ⟨hc, ?_⟩
  unfold eatWord?
  rw [htake]
  exact if_pos rfl

theorem of_eatWord (h : Spells tokens ts) {u : Unit} {hc : c.size < (behind tokens i).size}
    (he : (behind tokens i).eatWord? w = some ⟨u, c, hc⟩) :
    Word ts i w ∧ c = behind tokens (i + 1) := by
  unfold eatWord? at he
  split at he
  · rename_i t _ _ htake
    split at he
    · rename_i hts
      cases he
      rw [← hts]
      exact h.of_take htake (by simp)
    · cases he
  · cases he

theorem not_of_eatWord (h : Spells tokens ts) (he : (behind tokens i).eatWord? w = none) :
    ¬ Word ts i w := by
  intro hw
  obtain ⟨_, heat⟩ := h.eatWord hw
  rw [heat] at he
  cases he

theorem eatWord_none (h : Spells tokens ts) (hw : ¬ Word ts i w) :
    (behind tokens i).eatWord? w = none := by
  cases he : (behind tokens i).eatWord? w with
  | none => rfl
  | some p => exact absurd (h.of_eatWord he).1 hw

theorem expect (h : Spells tokens ts) (hs : Sym ts i s) :
    Reads ((behind tokens i).expect s place) () (behind tokens (i + 1)) := by
  obtain ⟨hc, heat⟩ := h.eat hs
  refine ⟨hc, ?_⟩
  unfold Cursor.expect
  rw [heat]

theorem of_expect (h : Spells tokens ts) {u : Unit}
    (he : Reads ((behind tokens i).expect s place) u c) : Sym ts i s ∧ c = behind tokens (i + 1) := by
  obtain ⟨_, heq⟩ := he
  unfold Cursor.expect at heq
  split at heq
  · rename_i heat
    cases heq
    exact h.of_eat heat
  · cases heq

theorem expectName (h : Spells tokens ts) (hn : Name ts i name) :
    Reads ((behind tokens i).expectName place) name (behind tokens (i + 1)) := by
  obtain ⟨hc, htake⟩ := h.take hn
  refine ⟨hc, ?_⟩
  unfold Cursor.expectName
  rw [htake]

theorem of_expectName (h : Spells tokens ts)
    (he : Reads ((behind tokens i).expectName place) name c) :
    Name ts i name ∧ c = behind tokens (i + 1) := by
  obtain ⟨_, heq⟩ := he
  unfold Cursor.expectName at heq
  split at heq
  · rename_i htake
    cases heq
    exact h.of_take htake (by simp)
  · cases heq

theorem peek (h : Spells tokens ts) (hk : k ≠ .eof) :
    (behind tokens i).peek? = some k ↔ ts[i]? = some k := by
  rw [peek?_behind, h.getElem?_kinds hk]

theorem atSymbol_iff (h : Spells tokens ts) :
    (behind tokens i).atSymbol s = true ↔ Sym ts i s := by
  unfold atSymbol
  constructor
  · intro hs
    split at hs
    · rename_i t hp
      rw [h.peek (by simp)] at hp
      rw [← of_decide_eq_true hs]
      exact hp
    · cases hs
  · intro hs
    rw [(h.peek (by simp)).mpr hs]
    exact decide_eq_true rfl

theorem atEnd_iff (h : Spells tokens ts) : (behind tokens i).atEnd = true ↔ ts[i]? = none := by
  unfold atEnd
  cases hk : ts[i]? with
  | some k =>
    have hne := h.ne_eof hk
    rw [(h.peek hne).mpr hk]
    cases k <;> first | exact absurd rfl hne | simp
  | none =>
    cases hp : (behind tokens i).peek? with
    | none => simp
    | some k =>
      cases k with
      | eof => simp
      | _ =>
        rw [h.peek (by simp), hk] at hp
        cases hp

end Spells

end ScriptMachine
