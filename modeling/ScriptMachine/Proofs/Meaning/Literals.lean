import Mathlib
import ScriptMachine.Program

/-!
# Literals among the constants

A literal that is equal to an earlier one shares its place among the constants.  Equal numbers are
the same number, but for the two zeros, of which no literal spells the negative one.

* `Binary64.parts`          sign, exponent and mantissa of a number;
* `Binary64.eq_of_beq`      equal numbers that are not the negative zero are the same;
* `Value.eq_of_same`        the same for all values;
* `internConstant_get`      a value is found at its place among the constants.
-/

namespace ScriptMachine

namespace Binary64

open Float.Model (UnpackedFloat Format)
open Float.Model.UnpackedFloat

/-- equal numbers are the same when they are taken apart, but for the signs of zeros -/
theorem unpack_eq_of_beq {x y : UnpackedFloat} (h : x.beq y = true) :
    x = y ∨ ∃ s s', x = .zero s ∧ y = .zero s' := by
  have hc : x.compare y = some .eq := eq_of_beq h
  match x, y with
  | .notANumber, _ => cases hc
  | .infinity _, .notANumber | .zero _, .notANumber | .finite _ _ _ _, .notANumber => cases hc
  | .infinity .positive, .infinity .positive => exact .inl rfl
  | .infinity .negative, .infinity .negative => exact .inl rfl
  | .infinity .positive, .infinity .negative => cases hc
  | .infinity .negative, .infinity .positive => cases hc
  | .infinity .positive, .zero _ | .infinity .negative, .zero _ => cases hc
  | .infinity .positive, .finite _ _ _ _ | .infinity .negative, .finite _ _ _ _ => cases hc
  | .zero _, .infinity .positive | .zero _, .infinity .negative => cases hc
  | .finite _ _ _ _, .infinity .positive | .finite _ _ _ _, .infinity .negative => cases hc
  | .zero s, .zero s' => exact .inr ⟨s, s', rfl, rfl⟩
  | .zero _, .finite .positive _ _ _ | .zero _, .finite .negative _ _ _ => cases hc
  | .finite .positive _ _ _, .zero _ | .finite .negative _ _ _, .zero _ => cases hc
  | .finite .positive _ _ _, .finite .negative _ _ _ => cases hc
  | .finite .negative _ _ _, .finite .positive _ _ _ => cases hc
  | .finite .positive m e _, .finite .positive m' e' _ =>
    have ho : (compare e e').then (compare m m') = .eq := Option.some.inj hc
    rw [Ordering.then_eq_eq] at ho
    obtain rfl := Std.LawfulEqOrd.eq_of_compare ho.1
    obtain rfl := Std.LawfulEqOrd.eq_of_compare ho.2
    exact .inl rfl
  | .finite .negative m e _, .finite .negative m' e' _ =>
    have ho : ((compare e e').then (compare m m')).swap = .eq := Option.some.inj hc
    rw [Ordering.swap_eq_eq, Ordering.then_eq_eq] at ho
    obtain rfl := Std.LawfulEqOrd.eq_of_compare ho.1
    obtain rfl := Std.LawfulEqOrd.eq_of_compare ho.2
    exact .inl rfl


section
variable (b : BitVec Format.binary64.numBits)

theorem toNat_unpackMantissa : (unpackMantissa b).toNat = b.toNat % 2 ^ 52 := by
  simp [unpackMantissa, BitVec.extractLsb, BitVec.extractLsb']

theorem toNat_unpackExponent : (unpackExponent b).toNat = b.toNat / 2 ^ 52 % 2 ^ 11 := by
  simp [unpackExponent, BitVec.extractLsb, BitVec.extractLsb', Nat.shiftRight_eq_div_pow]

theorem toNat_unpackSign : (unpackSign b).toNat = b.toNat / 2 ^ 63 := by
  have hlt : b.toNat < 2 ^ 64 := b.isLt
  simp [unpackSign, BitVec.extractLsb, BitVec.extractLsb', Nat.shiftRight_eq_div_pow]
  omega

end

/-- the three parts of a number make up its bits -/
theorem eq_of_parts {b b' : BitVec Format.binary64.numBits}
    (hs : unpackSign b = unpackSign b') (he : unpackExponent b = unpackExponent b')
    (hm : unpackMantissa b = unpackMantissa b') : b = b' := by
  have hlt : b.toNat < 2 ^ 64 := b.isLt
  have hlt' : b'.toNat < 2 ^ 64 := b'.isLt
  have hs := congrArg BitVec.toNat hs
  have he := congrArg BitVec.toNat he
  have hm := congrArg BitVec.toNat hm
  rw [toNat_unpackSign, toNat_unpackSign] at hs
  rw [toNat_unpackExponent, toNat_unpackExponent] at he
  rw [toNat_unpackMantissa, toNat_unpackMantissa] at hm
  apply BitVec.eq_of_toNat_eq
  omega

theorem sign_inj {v v' : BitVec 1} (h : Sign.ofBitVec v = Sign.ofBitVec v') : v = v' := by
  have hback : ∀ u : BitVec 1, (Sign.ofBitVec u).toBitVec = u := by decide
  rw [← hback v, h, hback v']

/-- the sign, the exponent and the mantissa that a number is written with -/
def parts : UnpackedFloat → Sign × Int × Nat
  | .infinity s => (s, 2047, 0)
  | .notANumber => (.positive, 2047, 1)
  | .zero s => (s, 0, 0)
  | .finite s m e _ => if m < 2 ^ 52 then (s, 0, m) else (s, e + 1075, m - 2 ^ 52)

theorem parts_unpack (b : BitVec Format.binary64.numBits)
    (hnan : unpack Format.binary64 b ≠ .notANumber) :
    parts (unpack Format.binary64 b)
      = (.ofBitVec (unpackSign b), ((unpackExponent b).toNat : Int), (unpackMantissa b).toNat) := by
  have hlt : (unpackMantissa b).toNat < 2 ^ 52 := (unpackMantissa b).isLt
  revert hnan
  unfold unpack
  dsimp only
  split
  · rename_i he
    split
    · rename_i hm
      intro _
      rw [he, hm]
      rfl
    · exact fun hnan => absurd rfl hnan
  · intro _
    split
    · rename_i he
      split
      · rename_i hm
        rw [he, hm]
        rfl
      · show (if (unpackMantissa b).toNat < 2 ^ 52 then _ else _ : Sign × Int × Nat) = _
        rw [if_pos hlt, he]
        rfl
    · have hman : (1#1 ++ unpackMantissa b).toNat = 2 ^ 52 + (unpackMantissa b).toNat := by
        rw [BitVec.toNat_append, ← Nat.shiftLeft_add_eq_or_of_lt hlt]
        rfl
      have hexp : ((unpackExponent b).toNat : Int)
          - ((Format.binary64.exponentBias : Int) + (52 : Nat)) + 1075 = (unpackExponent b).toNat := by
        have hbias : (Format.binary64.exponentBias : Int) = 1023 := by decide
        omega
      show (if (1#1 ++ unpackMantissa b).toNat < 2 ^ 52 then _ else _ : Sign × Int × Nat) = _
      rw [hman, if_neg (by omega), Nat.add_sub_cancel_left]
      exact Prod.ext rfl (Prod.ext hexp rfl)

/-- what is a number has one representation -/
theorem eq_of_unpack {b b' : BitVec Format.binary64.numBits}
    (h : unpack Format.binary64 b = unpack Format.binary64 b')
    (hnan : unpack Format.binary64 b ≠ .notANumber) : b = b' := by
  have hparts := congrArg parts h
  rw [parts_unpack b hnan, parts_unpack b' (h ▸ hnan), Prod.mk.injEq, Prod.mk.injEq] at hparts
  obtain ⟨hs, he, hm⟩ := hparts
  exact eq_of_parts (sign_inj hs) (BitVec.eq_of_toNat_eq (Int.ofNat.inj he)) (BitVec.eq_of_toNat_eq hm)

theorem eq_of_toBits {x y : Float} (h : x.toModel.toBits = y.toModel.toBits) : x = y := by
  obtain ⟨⟨bits, _⟩⟩ := x
  obtain ⟨⟨bits', _⟩⟩ := y
  cases h
  rfl

/-- Equal numbers are the same one, but for the two zeros. -/
theorem eq_of_beq {x y : Float} (h : (x == y) = true) (hx : x ≠ -0) (hy : y ≠ -0) : x = y := by
  have hbits {z : Float} {s : Sign} (hz : z.toModel.unpack = .zero s) (hne : z ≠ -0) :
      z.toModel.unpack = (0 : Float).toModel.unpack := by
    cases s with
    | positive => exact hz
    | negative =>
      refine absurd (eq_of_toBits (UInt64.toBitVec_inj.mp (eq_of_unpack ?_ ?_))) hne
      · exact hz
      · show z.toModel.unpack ≠ _
        rw [hz]
        nofun
  have hunpack : x.toModel.unpack = y.toModel.unpack := by
    rcases unpack_eq_of_beq h with heq | ⟨s, s', hx', hy'⟩
    · exact heq
    · rw [hbits hx' hx, hbits hy' hy]
  refine eq_of_toBits (UInt64.toBitVec_inj.mp (eq_of_unpack hunpack ?_))
  intro hnan
  have hnan : x.toModel.unpack = .notANumber := hnan
  have hself : x.toModel.unpack.beq y.toModel.unpack = true := h
  rw [hnan] at hself
  cases hself

end Binary64

theorem Value.eq_of_same {v w : Value} (h : v.same w = true) (hv : v ≠ .number (-0))
    (hw : w ≠ .number (-0)) : v = w := by
  cases v with
  | number x =>
    cases w with
    | number y =>
      exact congrArg Value.number (Binary64.eq_of_beq h (fun hx => hv (congrArg Value.number hx))
        (fun hy => hw (congrArg Value.number hy)))
    | _ => cases h
  | undefined | null =>
    cases w with
    | undefined | null => first | rfl | cases h
    | _ => cases h
  | bool x => cases w with
    | bool y => exact congrArg Value.bool (eq_of_beq h)
    | _ => cases h
  | string x => cases w with
    | string y => exact congrArg Value.string (eq_of_beq h)
    | _ => cases h
  | function x => cases w with
    | function y => exact congrArg Value.function (eq_of_beq h)
    | _ => cases h
  | native x => cases w with
    | native y => exact congrArg Value.native (eq_of_beq h)
    | _ => cases h
  | object x => cases w with
    | object y => exact congrArg Value.object (eq_of_beq h)
    | _ => cases h
  | array x => cases w with
    | array y => exact congrArg Value.array (eq_of_beq h)
    | _ => cases h

theorem internConstant_get {constants : Array Value} {v : Value}
    (hconst : ∀ w ∈ constants, w ≠ .number (-0)) (hv : v ≠ .number (-0)) :
    (internConstant constants v).2[(internConstant constants v).1]? = some v := by
  unfold internConstant
  split
  · rename_i i hfind
    obtain ⟨hlt, hsame, -⟩ := Array.findIdx?_eq_some_iff_getElem.mp hfind
    have heq := Value.eq_of_same hsame hv (hconst _ (Array.getElem_mem hlt))
    show constants[i]? = some v
    rw [Array.getElem?_eq_getElem hlt, ← heq]
  · exact Array.getElem?_push_size

end ScriptMachine
