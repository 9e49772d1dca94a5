/-!
Places in a YAML text, and what can be seen from them: line breaks, gaps and comments, and the marks
between documents.
-/

namespace InstallScript.Yaml

/-- What is left of a text, with the number of characters before it and the line and the column of its
first character, all counted from 0. -/
structure Cursor where
  rest : List Char
  index : Nat := 0
  line : Nat := 0
  column : Nat := 0
  deriving Repr

/-- A byte order mark. It takes no column. -/
def orderMark : Char := '\uFEFF'

/-- A character that ends a line. -/
def isBreak (c : Char) : Bool :=
  c = '\n' || c = '\r' || c = '\x85' || c = '\u2028' || c = '\u2029'

/-- A space or a tab. -/
def isSpacing (c : Char) : Bool := c = ' ' || c = '\t'

/-- A character that ends a word: a space, a tab or a line break. -/
def isGap (c : Char) : Bool := isSpacing c || isBreak c

/-- A character that text may hold. -/
def isAllowed (c : Char) : Bool :=
  let n := c.toNat
  n = 9 || n = 10 || n = 13 || n = 0x85 || (0x20 ≤ n && n ≤ 0x7E) || (0xA0 ≤ n && n ≤ 0xD7FF) ||
    (0xE000 ≤ n && n ≤ 0xFFFD) || 0x10000 ≤ n

/-- A character between entries of a flow collection or at its ends. -/
def isFlowMark (c : Char) : Bool :=
  c = ',' || c = '[' || c = ']' || c = '{' || c = '}'

/-- Whether a gap or the end of the text is next. -/
def startsGap (cs : List Char) : Bool := cs.head?.all isGap

/-- Whether the end of the line or of the text is next, or a space before it. -/
def startsLineEnd (cs : List Char) : Bool := cs.head?.all fun c => c = ' ' || isBreak c

/-- What a line break stands for: most are line feeds. -/
def breakImage (c : Char) : Char :=
  if c = '\u2028' || c = '\u2029' then c else '\n'

namespace Cursor

/-- Whether the text is used up. -/
def atEnd (cur : Cursor) : Bool := cur.rest.isEmpty

/-- The place behind one more character. A carriage return and a line feed end one line. -/
def step (cur : Cursor) : Cursor :=
  match cur.rest with
  | [] => cur
  | c :: rest =>
    if isBreak c && !(c = '\r' && rest.head? = some '\n') then
      ⟨rest, cur.index + 1, cur.line + 1, 0⟩
    else ⟨rest, cur.index + 1, cur.line, if c = orderMark then cur.column else cur.column + 1⟩

/-- The place behind so many more characters. -/
def advance : Nat → Cursor → Cursor
  | 0, cur => cur
  | n + 1, cur => advance n cur.step

/-- What is left one character further on. -/
theorem rest_step (cur : Cursor) : cur.step.rest = cur.rest.drop 1 := by
  unfold step
  split
  · next h => simp [h]
  · next c rest h => split <;> simp [h]

/-- What is left some characters further on. -/
theorem rest_advance (n : Nat) (cur : Cursor) : (cur.advance n).rest = cur.rest.drop n := by
  induction n generalizing cur with
  | zero => rfl
  | succ n ih => rw [advance, ih, rest_step, List.drop_drop, Nat.add_comm]

/-- The place behind the characters of a class that are next. -/
def skipWhile (p : Char → Bool) (cur : Cursor) : Cursor :=
  cur.advance (cur.rest.takeWhile p).length

/-- The place behind spaces. -/
def skipSpaces (cur : Cursor) : Cursor := cur.skipWhile (· = ' ')

/-- The place at the end of the line. -/
def skipLine (cur : Cursor) : Cursor := cur.skipWhile fun c => !isBreak c

/-- The place behind a comment, if one is next. -/
def skipComment (cur : Cursor) : Cursor :=
  if cur.rest.head? = some '#' then cur.skipLine else cur

/-- What a line break that is next stands for, and the place behind it. -/
def lineBreak? (cur : Cursor) : Option (Char × Cursor) :=
  match cur.rest with
  | '\r' :: '\n' :: _ => some ('\n', cur.advance 2)
  | c :: _ => if isBreak c then some (breakImage c, cur.step) else none
  | [] => none

/-- The place behind spaces, comments and line breaks. -/
def skipLines : Nat → Cursor → Cursor
  | 0, cur => cur
  | fuel + 1, cur =>
    let next := cur.skipSpaces.skipComment
    match next.lineBreak? with
    | some (_, after) => skipLines fuel after
    | none => next

/-- The place of the next token. A byte order mark at the beginning of the text does not count. -/
def skip (cur : Cursor) : Cursor :=
  let start := if cur.index = 0 && cur.rest.head? = some orderMark then cur.step else cur
  start.skipLines (start.rest.length + 1)

/-- The end of a line on which nothing more than a comment stands, and the place behind it. -/
def lineEnd? (cur : Cursor) : Option Cursor :=
  let next := cur.skipSpaces.skipComment
  match next.lineBreak? with
  | some (_, after) => some after
  | none => if next.atEnd then some next else none

/-- Whether a mark of three equal characters stands at the beginning of a line. -/
def atMark (cur : Cursor) (c : Char) : Bool :=
  cur.column = 0 && cur.rest.take 3 == [c, c, c] && startsGap (cur.rest.drop 3)

/-- Whether a document begins or ends here. -/
def atDocumentMark (cur : Cursor) : Bool := cur.atMark '-' || cur.atMark '.'

end Cursor

end InstallScript.Yaml
