/-!
Blank characters and the removal of blanks around a text.
-/

namespace InstallScript.Text

/-- A blank character: the white space of every script, and the separators from U+001C to U+001F. -/
def isBlank (c : Char) : Bool :=
  let n := c.toNat
  (9 ≤ n && n ≤ 13) || (28 ≤ n && n ≤ 32) || n == 133 || n == 160 || n == 5760 ||
    (8192 ≤ n && n ≤ 8202) || n == 8232 || n == 8233 || n == 8239 || n == 8287 || n == 12288

/-- A blank that may stand around the digits of a whole number: all but the separators from U+001C to
U+001F. -/
def isNumberBlank (c : Char) : Bool :=
  isBlank c && !(28 ≤ c.toNat && c.toNat ≤ 31)

/-- The text without the characters of a class around it. -/
def trim (p : Char → Bool) (cs : List Char) : List Char :=
  ((cs.dropWhile p).reverse.dropWhile p).reverse

/-- The text without the blanks after it. -/
def stripEnd (cs : List Char) : List Char :=
  (cs.reverse.dropWhile isBlank).reverse

/-- The text without the blanks around it. -/
def strip (cs : List Char) : List Char :=
  trim isBlank cs

/-- The text without the blanks around it. -/
def stripped (s : String) : String :=
  String.ofList (strip s.toList)

end InstallScript.Text
