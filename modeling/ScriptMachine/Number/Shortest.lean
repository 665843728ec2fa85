import ScriptMachine.Number.Binary

/-!
# The fewest digits that read back

A double stands for every real number that rounds to it.  Among the decimals in that interval the
text of the double is the one with the fewest digits, and of two such the nearer one.

* `Interval`: the reals that round to `mantissa * 2 ^ exponent`, in quarter units;
* `Decimal`: `digits * 10 ^ exponent`;
* `shortest`: grids of 1, 2, ... 17 digits are tried in turn, each at the value's two neighbours;
* `Decimal.positional`: the digits written out with a point and without an exponent.
-/

namespace ScriptMachine

/-- `digits * 10 ^ exponent` -/
structure Decimal where
  digits : Nat
  exponent : Int
  deriving DecidableEq, Repr

/-- A value and the ends of the interval of reals that round to it, as fractions with one
denominator. -/
structure Interval where
  low : Nat
  value : Nat
  high : Nat
  denominator : Nat
  /-- do the two ends round to the value, too? -/
  closed : Bool

namespace Interval

/-- The interval of `mantissa * 2 ^ exponent` reaches half a unit to both sides, and only a quarter
below a power of two, where the units below are half as large.  An end halfway to the neighbour
rounds to the even mantissa. -/
def ofBinary (mantissa : Nat) (exponent : Int) : Interval :=
  let below := if mantissa = 1 <<< 52 ∧ -1074 < exponent then 1 else 2
  let places := (exponent - 2).toNat
  { low := (4 * mantissa - below) <<< places
    value := (4 * mantissa) <<< places
    high := (4 * mantissa + 2) <<< places
    denominator := 1 <<< (2 - exponent).toNat
    closed := mantissa % 2 = 0 }

/-- the same interval in units of `10 ^ place` -/
def inUnits (i : Interval) (place : Int) : Interval :=
  let up := Nat.pow 10 (-place).toNat
  { i with
    low := i.low * up
    value := i.value * up
    high := i.high * up
    denominator := i.denominator * Nat.pow 10 place.toNat }

/-- does the whole number `n` lie in the interval? -/
def holds (i : Interval) (n : Nat) : Bool :=
  let x := n * i.denominator
  if i.closed then i.low ≤ x && x ≤ i.high else i.low < x && x < i.high

/-- The whole number in the interval that is nearest to the value, out of the value's two
neighbours; halfway between them the upper one. -/
def nearest? (i : Interval) : Option Nat :=
  let down := i.value / i.denominator
  let rest := i.value % i.denominator
  match i.holds down, i.holds (down + 1) with
  | true, true => some (if i.denominator ≤ 2 * rest then down + 1 else down)
  | true, false => some down
  | false, true => some (down + 1)
  | false, false => none

/-- the number of times the value can be multiplied by ten before it reaches one -/
def leadingZeros (numerator denominator : Nat) : Nat → Nat
  | 0 => 0
  | fuel + 1 =>
    if denominator ≤ numerator then 0 else leadingZeros (10 * numerator) denominator fuel + 1

/-- the place of the first digit: `10 ^ place ≤ value < 10 ^ (place + 1)` -/
def firstPlace (i : Interval) : Int :=
  let whole := i.value / i.denominator
  if whole = 0 then -(leadingZeros i.value i.denominator 400)
  else (Nat.toDigits 10 whole).length - 1

end Interval

namespace Decimal

/-- trailing zeros move into the exponent -/
def trimZeros (digits : Nat) (exponent : Int) : Nat → Decimal
  | 0 => ⟨digits, exponent⟩
  | fuel + 1 =>
    if digits ≠ 0 ∧ digits % 10 = 0 then trimZeros (digits / 10) (exponent + 1) fuel
    else ⟨digits, exponent⟩

/-- grids of ever more digits, from `place` downwards, until one has a point in the interval -/
def search (i : Interval) (place : Int) : Nat → Decimal
  | 0 => ⟨i.value / i.denominator, 0⟩
  | fuel + 1 =>
    match (i.inUnits place).nearest? with
    | some n => trimZeros n place 400
    | none => search i (place - 1) fuel

/-- The decimal with the fewest digits that rounds to `mantissa * 2 ^ exponent`.  Seventeen digits
tell all doubles apart. -/
def shortest (mantissa : Nat) (exponent : Int) : Decimal :=
  if mantissa = 0 then ⟨0, 0⟩
  else
    let i := Interval.ofBinary mantissa exponent
    search i i.firstPlace 18

def zeros (n : Nat) : List Char := List.replicate n '0'

/-- the digits written out around the point, never with an exponent -/
def positional (d : Decimal) : String :=
  let digits := Nat.toDigits 10 d.digits
  match d.exponent with
  | .ofNat k => String.ofList (digits ++ zeros (if d.digits = 0 then 0 else k))
  | .negSucc k =>
    let places := k + 1
    if places < digits.length then
      let whole := digits.length - places
      String.ofList (digits.take whole ++ '.' :: digits.drop whole)
    else
      String.ofList ('0' :: '.' :: (zeros (places - digits.length) ++ digits))

end Decimal

end ScriptMachine
