/-!
# Doubles as exact binary numbers

Every number of the language is a double.  Here one is taken apart into its exact value, so that
its digits, its remainder and its use as an index are computed in whole numbers.

* `Binary`: not a number, an infinity, or `± mantissa * 2 ^ exponent`;
* `Binary.ofFloat`: the value of a double, read off its bits;
* `Binary.toFloat`: the double of a value;
* `Binary.natAbs?`: the whole number that a value is, up to its sign;
* `remainder`: what is left of a dividend, with the dividend's sign.
-/

namespace ScriptMachine

/-- the exact value of a double -/
inductive Binary where
  | nan
  | infinite (negative : Bool)
  | finite (negative : Bool) (mantissa : Nat) (exponent : Int)
  deriving DecidableEq, Repr

namespace Binary

/-- The fields of a double are its sign (1 bit), its exponent (11 bits) and its fraction (52 bits);
exponent 0 has no hidden bit, exponent 2047 is for infinities and not-a-number. -/
def ofBits (bits : UInt64) : Binary :=
  let n := bits.toNat
  let negative := n >>> 63 == 1
  let exponent : Nat := (n >>> 52) % (1 <<< 11)
  let fraction := n % (1 <<< 52)
  if exponent = 2047 then
    if fraction = 0 then .infinite negative else .nan
  else if exponent = 0 then .finite negative fraction (-1074)
  else .finite negative (1 <<< 52 + fraction) (exponent - 1075)

def ofFloat (x : Float) : Binary := ofBits x.toBits

/-- the double nearest to `mantissa * 2 ^ exponent`; below zero the power of two is written as a
power of ten, `2 ^ (-k) = 5 ^ k * 10 ^ (-k)` -/
def scaled (mantissa : Nat) (exponent : Int) : Float :=
  match exponent with
  | .ofNat k => Float.ofScientific (mantissa <<< k) false 0
  | .negSucc k => Float.ofScientific (mantissa * Nat.pow 5 (k + 1)) true (k + 1)

def toFloat : Binary → Float
  | .nan => 0 / 0
  | .infinite negative => if negative then -1 / 0 else 1 / 0
  | .finite negative mantissa exponent =>
    let size := scaled mantissa exponent
    if negative then -size else size

/-- the whole number that a finite value is, without its sign; nothing if it has a fraction -/
def natAbs? : Binary → Option Nat
  | .finite _ mantissa (.ofNat k) => some (mantissa <<< k)
  | .finite _ mantissa (.negSucc k) =>
    if mantissa % (1 <<< (k + 1)) = 0 then some (mantissa >>> (k + 1)) else none
  | _ => none

/-- the remainder of `m₁ * 2 ^ q₁` by `m₂ * 2 ^ q₂`, over the smaller of the two powers -/
def wholeRemainder (m₁ : Nat) (q₁ : Int) (m₂ : Nat) (q₂ : Int) : Nat × Int :=
  let q := min q₁ q₂
  (m₁ <<< (q₁ - q).toNat % m₂ <<< (q₂ - q).toNat, q)

end Binary

/-- What is left of `x` after taking `y` away as often as it fits, exactly, with the sign of `x`.
There is no remainder of an infinity or by zero; a finite `x` is its own remainder by an
infinity. -/
def remainder (x y : Float) : Float :=
  match Binary.ofFloat x, Binary.ofFloat y with
  | .finite negative m₁ q₁, .finite _ m₂ q₂ =>
    if m₂ = 0 then Binary.nan.toFloat
    else
      let (m, q) := Binary.wholeRemainder m₁ q₁ m₂ q₂
      (Binary.finite negative m q).toFloat
  | .finite _ _ _, .infinite _ => x
  | _, _ => Binary.nan.toFloat

end ScriptMachine
