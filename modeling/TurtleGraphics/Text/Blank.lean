/-!
# TurtleGraphics.Text.Blank

Blank characters, and trimming. Texts are scanned as lists of characters; a blank is any character
with the Unicode property `White_Space`, in formulas as well as in programs.
-/

namespace TurtleGraphics
namespace Text

/-- The Unicode property `White_Space`: 25 characters. -/
def isBlank (c : Char) : Bool :=
  let n := c.toNat
  (0x09 ≤ n && n ≤ 0x0D) || n == 0x20 || n == 0x85 || n == 0xA0 || n == 0x1680 ||
    (0x2000 ≤ n && n ≤ 0x200A) || n == 0x2028 || n == 0x2029 || n == 0x202F || n == 0x205F ||
    n == 0x3000

def trimStart (cs : List Char) : List Char :=
  cs.dropWhile isBlank

def trimEnd (cs : List Char) : List Char :=
  (cs.reverse.dropWhile isBlank).reverse

/-- Drops the blanks at both ends. -/
def trim (cs : List Char) : List Char :=
  trimEnd (trimStart cs)

def trimString (s : String) : String :=
  String.ofList (trim s.toList)

end Text
end TurtleGraphics
