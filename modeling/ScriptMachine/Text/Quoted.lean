import ScriptMachine.Text.Extender
import ScriptMachine.Text.Unprintable

/-!
# Quoted text

A text in double quotes, in which every character can be seen: controls, other unprintable
characters and marks that would join the character before them are written as escapes.

* `quotedChar`: a character inside quotes;
* `quoted`: a text in quotes.
-/

namespace ScriptMachine.Text

/-- `\u` and the code point in hexadecimal between braces -/
def codePointEscape (c : Char) : List Char :=
  '\\' :: 'u' :: '\x7b' :: (Nat.toDigits 16 c.toNat ++ ['\x7d'])

/-- A character inside double quotes.  The quote, the backslash and four controls have short
escapes. -/
def quotedChar (c : Char) : List Char :=
  if c = '"' then ['\\', '"']
  else if c = '\\' then ['\\', '\\']
  else if c = '\n' then ['\\', 'n']
  else if c = '\r' then ['\\', 'r']
  else if c = '\t' then ['\\', 't']
  else if c = '\x00' then ['\\', '0']
  else if isExtender c || isUnprintable c then codePointEscape c
  else [c]

def quoted (text : String) : String :=
  String.ofList ('"' :: (text.toList.flatMap quotedChar ++ ['"']))

end ScriptMachine.Text
