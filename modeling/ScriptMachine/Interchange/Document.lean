import ScriptMachine.Number.Reading

/-!
# Documents: the text form of plain data

* `Document`: nothing, truth values, numbers, texts, lists and objects;
* `Document.read?`: the document that a text spells, with at most 127 lists and objects inside each
  other;
* `readFraction?`: the number that digits, a point and an exponent stand for.
-/

namespace ScriptMachine

inductive Document where
  | null
  | bool (value : Bool)
  | number (value : Float)
  | string (value : String)
  | list (items : List Document)
  | object (fields : List (String × Document))

/-! ## numbers -/

/-- Digits before an exponent: those that fit into 64 bits, and by how many places the rest moves
the exponent. -/
structure Significand where
  digits : Nat
  exponent : Int

namespace Significand

/-- Takes digits behind those before.  From the first one on that does not fit any more, digits of
the whole part only count as places and digits of the fraction do not count at all. -/
def extend (s : Significand) (fraction full : Bool) : List Char → Significand
  | [] => s
  | c :: rest =>
    let next := s.digits * 10 + digitValue c
    if full || UInt64.size ≤ next then
      extend ⟨s.digits, if fraction then s.exponent else s.exponent + 1⟩ fraction true rest
    else extend ⟨next, if fraction then s.exponent - 1 else s.exponent⟩ fraction false rest

/-- Multiplies by a power of ten in floating-point steps.  Numbers beyond the largest double are no
numbers of a document. -/
def scale (x : Float) (exponent : Int) : Nat → Option Float
  | 0 => some x
  | steps + 1 =>
    if exponent.natAbs ≤ 308 then
      let power := decimalToFloat 1 exponent.natAbs
      if 0 ≤ exponent then
        let y := x * power
        if y == 1 / 0 then none else some y
      else some (x / power)
    else if x == 0 then some x
    else if 0 ≤ exponent then none
    else scale (x / 1e308) (exponent + 308) steps

def toFloat? (s : Significand) : Option Float :=
  scale (Float.ofNat s.digits) s.exponent (s.exponent.natAbs / 308 + 2)

end Significand

/-- the digits at the front of a text, at least one -/
def digits1? (text : List Char) : Option (List Char × List Char) :=
  match text.takeWhile isDecimalDigit with
  | [] => none
  | ds => some (ds, text.dropWhile isDecimalDigit)

/-- an exponent behind its mark -/
def exponent? (text : List Char) : Option (Int × List Char) :=
  match text with
  | '-' :: rest => (digits1? rest).map fun (ds, rest) => (-(natOfDigits 10 ds : Int), rest)
  | '+' :: rest => (digits1? rest).map fun (ds, rest) => ((natOfDigits 10 ds : Int), rest)
  | _ => (digits1? text).map fun (ds, rest) => ((natOfDigits 10 ds : Int), rest)

/-- a number without a sign: no leading zeros, digits behind a point, an exponent -/
def readFraction? (text : List Char) : Option (Float × List Char) := do
  let (whole, rest) ← match text with
    | '0' :: rest =>
      if (rest.head?.map isDecimalDigit).getD false then none else some (['0'], rest)
    | _ => digits1? text
  let s := Significand.extend ⟨0, 0⟩ false false whole
  let (s, rest) ← match rest with
    | '.' :: rest => (digits1? rest).map fun (ds, rest) => (s.extend true false ds, rest)
    | _ => some (s, rest)
  let (e, rest) ← match rest with
    | 'e' :: rest => exponent? rest
    | 'E' :: rest => exponent? rest
    | _ => some (0, rest)
  let x ← (Significand.mk s.digits (s.exponent + e)).toFloat?
  return (x, rest)

/-! ## texts -/

/-- four hexadecimal digits -/
def hex4? : List Char → Option (Nat × List Char)
  | a :: b :: c :: d :: rest =>
    if [a, b, c, d].all isHexDigit then some (natOfDigits 16 [a, b, c, d], rest) else none
  | _ => none

/-- a code point behind `\u`; two halves make one of the code points above 65535 -/
def escapedCode? (text : List Char) : Option (Char × List Char) := do
  let (n, rest) ← hex4? text
  if 0xd800 ≤ n ∧ n < 0xdc00 then
    match rest with
    | '\\' :: 'u' :: more =>
      let (low, rest) ← hex4? more
      if 0xdc00 ≤ low ∧ low < 0xe000 then
        return (Char.ofNat (0x10000 + (n - 0xd800) * 0x400 + (low - 0xdc00)), rest)
      else none
    | _ => none
  else if 0xdc00 ≤ n ∧ n < 0xe000 then none
  else return (Char.ofNat n, rest)

/-- the inside of a text up to its closing quote; each step takes one character at least -/
def readText? : Nat → List Char → Option (List Char × List Char)
  | 0, _ => none
  | fuel + 1, text =>
    let one (c : Char) (rest : List Char) : Option (List Char × List Char) :=
      (readText? fuel rest).map fun (cs, rest) => (c :: cs, rest)
    match text with
    | '"' :: rest => some ([], rest)
    | '\\' :: '"' :: rest => one '"' rest
    | '\\' :: '\\' :: rest => one '\\' rest
    | '\\' :: '/' :: rest => one '/' rest
    | '\\' :: 'b' :: rest => one '\x08' rest
    | '\\' :: 'f' :: rest => one '\x0c' rest
    | '\\' :: 'n' :: rest => one '\n' rest
    | '\\' :: 'r' :: rest => one '\r' rest
    | '\\' :: 't' :: rest => one '\t' rest
    | '\\' :: 'u' :: rest => (escapedCode? rest).bind fun (c, rest) => one c rest
    | '\\' :: _ => none
    | c :: rest => if c.toNat < 0x20 then none else one c rest
    | [] => none

/-! ## documents -/

def isDocumentBlank (c : Char) : Bool := c = ' ' || c = '\n' || c = '\t' || c = '\r'

def skipBlanks (text : List Char) : List Char := text.dropWhile isDocumentBlank

namespace Document

mutual

def value? (levels : Nat) : Nat → List Char → Option (Document × List Char)
  | 0, _ => none
  | fuel + 1, text =>
    match skipBlanks text with
    | 'n' :: 'u' :: 'l' :: 'l' :: rest => some (.null, rest)
    | 't' :: 'r' :: 'u' :: 'e' :: rest => some (.bool true, rest)
    | 'f' :: 'a' :: 'l' :: 's' :: 'e' :: rest => some (.bool false, rest)
    | '"' :: rest => (readText? (rest.length + 1) rest).map fun (cs, rest) =>
      (.string (String.ofList cs), rest)
    | '-' :: rest => (readFraction? rest).map fun (x, rest) => (.number (-x), rest)
    | '[' :: rest =>
      if levels ≤ 1 then none
      else
        match skipBlanks rest with
        | ']' :: rest => some (.list [], rest)
        | rest => (items? (levels - 1) fuel rest).map fun (xs, rest) => (.list xs, rest)
    | '\x7b' :: rest =>
      if levels ≤ 1 then none
      else
        match skipBlanks rest with
        | '\x7d' :: rest => some (.object [], rest)
        | rest => (fields? (levels - 1) fuel rest).map fun (xs, rest) => (.object xs, rest)
    | rest => (readFraction? rest).map fun (x, rest) => (.number x, rest)

/-- documents between commas up to a closing bracket, at least one -/
def items? (levels : Nat) : Nat → List Char → Option (List Document × List Char)
  | 0, _ => none
  | fuel + 1, text => do
    let (item, rest) ← value? levels fuel text
    match skipBlanks rest with
    | ']' :: rest => some ([item], rest)
    | ',' :: rest =>
      let (more, rest) ← items? levels fuel rest
      some (item :: more, rest)
    | _ => none

/-- named documents between commas up to a closing brace, at least one -/
def fields? (levels : Nat) : Nat → List Char → Option (List (String × Document) × List Char)
  | 0, _ => none
  | fuel + 1, text =>
    match skipBlanks text with
    | '"' :: rest => do
      let (name, rest) ← readText? (rest.length + 1) rest
      match skipBlanks rest with
      | ':' :: rest =>
        let (item, rest) ← value? levels fuel rest
        let field := (String.ofList name, item)
        match skipBlanks rest with
        | '\x7d' :: rest => some ([field], rest)
        | ',' :: rest =>
          let (more, rest) ← fields? levels fuel rest
          some (field :: more, rest)
        | _ => none
      | _ => none
    | _ => none

end

/-- the document that a whole text spells -/
def read? (text : String) : Option Document :=
  let chars := text.toList
  match value? 128 (chars.length + 2) chars with
  | some (d, rest) => if skipBlanks rest = [] then some d else none
  | none => none

end Document

end ScriptMachine
