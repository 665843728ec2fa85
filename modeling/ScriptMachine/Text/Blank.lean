import ScriptMachine.Text.CodeRanges

/-!
# White space

* `blankRanges`: the code points with the property `White_Space`;
* `isBlank`: the test on characters.
-/

namespace ScriptMachine.Text

/-- the code points with the property `White_Space` -/
def blankRanges : CodeRanges :=
  ⟨[(0x9, 0xd), (0x20, 0x20), (0x85, 0x85), (0xa0, 0xa0), (0x1680, 0x1680), (0x2000, 0x200a),
   (0x2028, 0x2029), (0x202f, 0x202f), (0x205f, 0x205f), (0x3000, 0x3000)]⟩

/-- a blank: white space between tokens, and what is trimmed off a text before it is read as a
number -/
def isBlank (c : Char) : Bool := blankRanges.contains c

end ScriptMachine.Text
