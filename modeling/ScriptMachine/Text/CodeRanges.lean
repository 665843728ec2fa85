/-!
# Sets of characters given by ranges of code points

* `CodeRanges`: closed ranges in increasing order;
* `CodeRanges.contains`: the test on characters, which stops at the first range above the
  character.
-/

namespace ScriptMachine.Text

/-- closed ranges of code points, in increasing order -/
structure CodeRanges where
  ranges : List (Nat × Nat)

namespace CodeRanges

/-- is the code point `n` in one of the ranges? -/
def covers : List (Nat × Nat) → Nat → Bool
  | [], _ => false
  | (lo, hi) :: rest, n => if n < lo then false else if n ≤ hi then true else covers rest n

def contains (r : CodeRanges) (c : Char) : Bool := covers r.ranges c.toNat

end CodeRanges

end ScriptMachine.Text
