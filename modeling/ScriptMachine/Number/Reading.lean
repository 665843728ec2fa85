import ScriptMachine.Number.Binary

/-!
# Reading numbers

* `digitValue?`, `natOfDigits`: digits of a base;
* `decimalToFloat`: the double nearest to `digits * 10 ^ exponent`;
* `readFloat?`: a sign, digits with an optional point and an optional exponent, or one of the
  words `inf`, `infinity` and `nan` in any case.
-/

namespace ScriptMachine

/-- the value of a digit of base ten or sixteen -/
def digitValue (c : Char) : Nat :=
  if '0' ≤ c ∧ c ≤ '9' then c.toNat - '0'.toNat
  else if 'a' ≤ c ∧ c ≤ 'f' then c.toNat - 'a'.toNat + 10
  else if 'A' ≤ c ∧ c ≤ 'F' then c.toNat - 'A'.toNat + 10
  else 0

def natOfDigits (base : Nat) (digits : List Char) : Nat :=
  digits.foldl (fun n c => n * base + digitValue c) 0

def isDecimalDigit (c : Char) : Bool := '0' ≤ c && c ≤ '9'

def isHexDigit (c : Char) : Bool :=
  isDecimalDigit c || ('a' ≤ c && c ≤ 'f') || ('A' ≤ c && c ≤ 'F')

/-- The double nearest to `n * 10 ^ exponent`.  A number of `k` digits is below `10 ^ k`, so what is
far above the largest double is an infinity and what is far below the least one is zero, and
no large power is computed. -/
def decimalToFloat (n : Nat) (exponent : Int) : Float :=
  let places := (Nat.toDigits 10 n).length
  if n = 0 then 0
  else if 400 < exponent + places then 1 / 0
  else if exponent + places < -400 then 0
  else
    match exponent with
    | .ofNat k => Float.ofScientific n false k
    | .negSucc k => Float.ofScientific n true (k + 1)

/-- an exponent: a sign and at least one digit, to the end of the text -/
def readExponent? (text : List Char) : Option Int :=
  let (negative, digits) :=
    match text with
    | '-' :: rest => (true, rest)
    | '+' :: rest => (false, rest)
    | _ => (false, text)
  if digits ≠ [] ∧ digits.all isDecimalDigit then
    let n := natOfDigits 10 digits
    some (if negative then -n else n)
  else none

/-- `whole`, `whole.`, `whole.fraction` or `.fraction`, then an optional exponent -/
def readUnsigned? (text : List Char) : Option Float :=
  let whole := text.takeWhile isDecimalDigit
  let rest := text.dropWhile isDecimalDigit
  let (fraction, rest) :=
    match rest with
    | '.' :: more => (more.takeWhile isDecimalDigit, more.dropWhile isDecimalDigit)
    | _ => ([], rest)
  if whole = [] ∧ fraction = [] then none
  else
    let n := natOfDigits 10 (whole ++ fraction)
    match rest with
    | [] => some (decimalToFloat n (-fraction.length))
    | c :: more =>
      if c = 'e' ∨ c = 'E' then
        (readExponent? more).map fun e => decimalToFloat n (e - fraction.length)
      else none

/-- the words for the values without digits -/
def readWord? (text : List Char) : Option Float :=
  match String.ofList (text.map Char.toLower) with
  | "inf" => some (1 / 0)
  | "infinity" => some (1 / 0)
  | "nan" => some Binary.nan.toFloat
  | _ => none

/-- a number with an optional sign -/
def readFloat? (text : List Char) : Option Float :=
  let (negative, body) :=
    match text with
    | '-' :: rest => (true, rest)
    | '+' :: rest => (false, rest)
    | _ => (false, text)
  let size := (readUnsigned? body).orElse fun _ => readWord? body
  size.map fun x => if negative then -x else x

end ScriptMachine
