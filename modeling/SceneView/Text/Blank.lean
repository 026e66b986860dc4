/-!
# Blank characters and trimming

The white space of every script. Attribute values and names are compared after it has been removed
from both ends, so two spellings that differ only there denote the same thing.
-/

namespace SceneView.Text

/-- Whether a character is white space: the controls from tab to carriage return, the space, and
the spaces and separators above ASCII. -/
def isBlank (c : Char) : Bool :=
  let n := c.toNat
  (9 ≤ n && n ≤ 13) || n == 32 || n == 0x85 || n == 0xA0 || n == 0x1680 ||
    (0x2000 ≤ n && n ≤ 0x200A) || n == 0x2028 || n == 0x2029 || n == 0x202F || n == 0x205F ||
    n == 0x3000

/-- Drops the characters of a class from both ends of a list. -/
def trimBy (p : Char → Bool) (cs : List Char) : List Char :=
  ((cs.dropWhile p).reverse.dropWhile p).reverse

def trim (s : String) : String :=
  String.ofList (trimBy isBlank s.toList)

/-- Splits at each separator; the result has one part more than there are separators. -/
def splitAt (separator : Char) : List Char → List (List Char)
  | [] => [[]]
  | c :: cs =>
    if c = separator then [] :: splitAt separator cs
    else
      match splitAt separator cs with
      | [] => [[c]]
      | part :: parts => (c :: part) :: parts

/-- The non-blank lines of a text, each without the white space at its ends. -/
def trimmedLines (s : String) : List String :=
  ((splitAt '\n' s.toList).map (trimBy isBlank)).filterMap fun line =>
    if line.isEmpty then none else some (String.ofList line)

end SceneView.Text
