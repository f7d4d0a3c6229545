/-!
# Blanks

The characters that separate words, and the removal of characters from both ends of a text.
-/

namespace EntityAtlas.Text

/-- A blank: the white space of every script, and the four information separators. -/
def isBlank (c : Char) : Bool :=
  let n := c.toNat
  (9 ≤ n && n ≤ 13) || (28 ≤ n && n ≤ 32) || n == 133 || n == 160 || n == 5760 || (8192 ≤ n && n ≤ 8202) ||
    n == 8232 || n == 8233 || n == 8239 || n == 8287 || n == 12288

/-- The text without the characters of a class at its two ends. -/
def trim (drop : Char → Bool) (cs : List Char) : List Char :=
  ((cs.dropWhile drop).reverse.dropWhile drop).reverse

/-- The text without blanks at its two ends. -/
def strip (s : String) : String :=
  String.ofList (trim isBlank s.toList)

end EntityAtlas.Text
