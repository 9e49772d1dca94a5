/-!
The lines of a text as a reader sees them. The set of line breaks is wider than the one that the
positions of a script count by: there only the line feed begins a new line.
-/

namespace InstallScript.Text

/-- A character that ends a line. -/
def isLineBreak (c : Char) : Bool :=
  let n := c.toNat
  (10 ≤ n && n ≤ 13) || (28 ≤ n && n ≤ 30) || n == 133 || n == 8232 || n == 8233

/-- The lines of a text, after the characters already read of its first one, last character
first. A carriage return and the line feed after it are one break, and a break at the end of the
text begins no further line. -/
def linesAfter : List Char → List Char → List (List Char)
  | read, [] => if read.isEmpty then [] else [read.reverse]
  | read, '\r' :: '\n' :: rest => read.reverse :: linesAfter [] rest
  | read, c :: rest =>
    if isLineBreak c then read.reverse :: linesAfter [] rest else linesAfter (c :: read) rest

/-- The lines of a text, without their breaks. -/
def lines (s : String) : List String :=
  (linesAfter [] s.toList).map String.ofList

/-- The line with a given number, counted from 1. -/
def line? (lines : List String) (number : Nat) : Option String :=
  if number = 0 then none else lines[number - 1]?

/-- Line endings of all three common forms become line feeds. -/
def unifyLineEnds : List Char → List Char
  | [] => []
  | '\r' :: '\n' :: rest => '\n' :: unifyLineEnds rest
  | c :: rest => (if c = '\r' then '\n' else c) :: unifyLineEnds rest

/-- The lines of a text with the line feed that ends each of them. -/
def linesKeepingEnds : List Char → List Char → List (List Char)
  | read, [] => if read.isEmpty then [] else [read.reverse]
  | read, c :: rest =>
    if c = '\n' then (c :: read).reverse :: linesKeepingEnds [] rest
    else linesKeepingEnds (c :: read) rest

end InstallScript.Text
