import ScriptMachine.Number.Shortest

/-!
# The text of a number

* `NumberStyle`: how the values without digits are spelled;
* `NumberStyle.plain`: the style of literals and of the host;
* `NumberStyle.script`: the style in which scripts see numbers.
-/

namespace ScriptMachine

structure NumberStyle where
  infinity : String
  /-- is the sign of a negative zero written? -/
  signedZero : Bool

namespace NumberStyle

/-- `inf`, and a negative zero keeps its sign -/
def plain : NumberStyle := ⟨"inf", true⟩

/-- `Infinity`, and there is one zero -/
def script : NumberStyle := ⟨"Infinity", false⟩

/-- the text of an exact value: the fewest digits that read back, in positional form -/
def writeBinary (style : NumberStyle) : Binary → String
  | .nan => "NaN"
  | .infinite negative => if negative then "-" ++ style.infinity else style.infinity
  | .finite negative mantissa exponent =>
    let digits := (Decimal.shortest mantissa exponent).positional
    if negative && (mantissa ≠ 0 || style.signedZero) then "-" ++ digits else digits

def write (style : NumberStyle) (x : Float) : String := style.writeBinary (Binary.ofFloat x)

end NumberStyle

end ScriptMachine
