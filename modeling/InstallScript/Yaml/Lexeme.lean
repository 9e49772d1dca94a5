import InstallScript.Yaml.Cursor
import InstallScript.Yaml.Fault

/-!
Scalars as they are written: plain ones, those in quotes, and block scalars. Each function gives the
characters that a scalar stands for and the place behind it.
-/

namespace InstallScript.Yaml.Cursor

/-! ## Folding -/

/-- The line breaks of empty lines that follow, spaces (and tabs, where they count as such) aside,
the place behind them, and whether a mark between documents ends them. -/
def emptyLines (tabs : Bool) : Nat → Cursor → List Char × Cursor × Bool
  | 0, cur => ([], cur, false)
  | fuel + 1, cur =>
    if cur.atDocumentMark then ([], cur, true)
    else
      let next := cur.skipWhile fun c => c = ' ' || (tabs && c = '\t')
      match next.lineBreak? with
      | some (image, after) =>
        let (breaks, stop, marked) := emptyLines tabs fuel after
        (image :: breaks, stop, marked)
      | none => ([], next, false)

/-- What a line break and the empty lines after it stand for: a single line feed is a space, and
others keep the breaks of the empty lines. -/
def folded (lineBreak : Char) (breaks : List Char) : List Char :=
  if lineBreak ≠ '\n' then lineBreak :: breaks
  else if breaks.isEmpty then [' '] else breaks

/-! ## Plain scalars -/

/-- The length of the word of a plain scalar that comes next. -/
def wordLength (inFlow : Bool) : List Char → Nat
  | [] => 0
  | c :: rest =>
    if isGap c then 0
    else if c = ':' && (startsGap rest || (inFlow && rest.head?.any isFlowMark)) then 0
    else if inFlow && (isFlowMark c || c = '?') then 0
    else wordLength inFlow rest + 1

/-- What the gap behind a word of a plain scalar stands for, and the place behind it. It stands for
nothing where there is none or a mark between documents follows. -/
def plainGap (cur : Cursor) : List Char × Cursor :=
  let next := cur.skipSpaces
  match next.lineBreak? with
  | some (image, after) =>
    let (breaks, stop, marked) := after.emptyLines false (after.rest.length + 1)
    (if marked then [] else folded image breaks, stop)
  | none => (cur.rest.takeWhile (· = ' '), next)

/-- The words of a plain scalar with what stands between them, the place of what comes next, and
whether it is on a later line than the last word. Further lines have to be indented as far as
`indent` says. -/
def plainWords (inFlow : Bool) (indent : Nat) : Nat → Cursor → List Char × Cursor × Bool
  | 0, cur => ([], cur, false)
  | fuel + 1, cur =>
    let length := wordLength inFlow cur.rest
    let word := cur.rest.take length
    let behind := cur.advance length
    let (gap, next) := behind.plainGap
    if gap.isEmpty || next.rest.head? = some '#' || (!inFlow && next.column < indent) ||
        wordLength inFlow next.rest = 0 then
      (word, next, behind.line < next.line)
    else
      let (more, stop, broken) := plainWords inFlow indent fuel next
      (word ++ gap ++ more, stop, broken)

/-- A plain scalar, the place of what comes next, and whether it is on a later line. -/
def plain (inFlow : Bool) (indent : Nat) (cur : Cursor) : String × Cursor × Bool :=
  let (cs, stop, broken) := cur.plainWords inFlow indent (cur.rest.length + 1)
  (String.ofList cs, stop, broken)

/-- The characters that begin no plain scalar, or only one with something behind them. -/
def indicators : List Char := "-?:,[]\x7b\x7d#&*!|>'\"%@\x60".toList

/-- Whether a plain scalar may begin here. -/
def atPlain (inFlow : Bool) (cur : Cursor) : Bool :=
  match cur.rest with
  | [] => false
  | c :: rest =>
    if c = '-' then !startsGap rest
    else if c = '?' || c = ':' then !inFlow && !startsGap rest
    else !isGap c && !indicators.contains c

/-! ## Scalars in quotes -/

/-- The characters that an escape sequence of one character stands for. -/
def escapes : List (Char × Char) :=
  [('0', '\x00'), ('a', '\x07'), ('b', '\x08'), ('t', '\t'), ('\t', '\t'), ('n', '\n'),
    ('v', '\x0b'), ('f', '\x0c'), ('r', '\r'), ('e', '\x1b'), (' ', ' '), ('"', '"'),
    ('\\', '\\'), ('/', '/'), ('N', '\x85'), ('_', '\xa0'), ('L', '\u2028'), ('P', '\u2029')]

/-- The number of hexadecimal digits of an escape sequence. -/
def hexWidth? (c : Char) : Option Nat :=
  if c = 'x' then some 2 else if c = 'u' then some 4 else if c = 'U' then some 8 else none

/-- A hexadecimal digit. -/
def isHexDigit (c : Char) : Bool :=
  c.isDigit || ('a' ≤ c && c ≤ 'f') || ('A' ≤ c && c ≤ 'F')

/-- The value of so many hexadecimal digits, if they are next. -/
def hexValue? (width : Nat) (cs : List Char) : Option Nat :=
  let digits := cs.take width
  if digits.length = width && digits.all isHexDigit then
    some (digits.foldl (fun n c =>
      n * 16 + (if c.isDigit then c.toNat - 48 else c.toLower.toNat - 87)) 0)
  else none

/-- The second half of a character that is written as two escape sequences. -/
def lowHalf? : List Char → Option Nat
  | '\\' :: 'u' :: digits =>
    match hexValue? 4 digits with
    | some n => if 0xDC00 ≤ n && n < 0xE000 then some (n - 0xDC00) else none
    | none => none
  | _ => none

/-- The character with the given number, which is followed by the given characters, and how many of
these belong to it. Half of a character without the other half becomes the replacement character. -/
def numbered (n : Nat) (following : List Char) : Reading (Char × Nat) :=
  if 0x110000 ≤ n then .error (.noCharacter n)
  else if 0xD800 ≤ n && n < 0xDC00 then
    match lowHalf? following with
    | some low => .ok (Char.ofNat (0x10000 + 0x400 * (n - 0xD800) + low), 6)
    | none => .ok ('\ufffd', 0)
  else .ok (if 0xDC00 ≤ n && n < 0xE000 then '\ufffd' else Char.ofNat n, 0)

/-- The empty lines inside quotes. A mark between documents may not stand there. -/
def quotedLines (cur : Cursor) : Reading (List Char × Cursor) :=
  let (breaks, stop, marked) := cur.emptyLines true (cur.rest.length + 1)
  if marked then .error .illFormed else .ok (breaks, stop)

/-- What the escape sequence that begins here stands for, and the place behind it. -/
def escapeSequence (cur : Cursor) : Reading (List Char × Cursor) :=
  match cur.rest.drop 1 with
  | [] => .error .illFormed
  | e :: following =>
    match escapes.lookup e, hexWidth? e with
    | some image, _ => .ok ([image], cur.advance 2)
    | none, some width => do
      let n ← demand (hexValue? width following)
      let (c, more) ← numbered n (following.drop width)
      return ([c], cur.advance (2 + width + more))
    | none, none => do
      let (_, after) ← demand cur.step.lineBreak?
      after.quotedLines

/-- What the spaces, tabs and line breaks inside quotes stand for, and the place behind them. -/
def quotedGap (cur : Cursor) : Reading (List Char × Cursor) :=
  let next := cur.skipWhile isSpacing
  match next.lineBreak? with
  | some (image, after) => do
    let (breaks, stop) ← after.quotedLines
    return (folded image breaks, stop)
  | none => .ok (cur.rest.takeWhile isSpacing, next)

/-- The rest of a scalar in quotes, and the place behind the closing one. -/
def quotedRest (quote : Char) : Nat → Cursor → Reading (List Char × Cursor)
  | 0, _ => .error .illFormed
  | fuel + 1, cur =>
    let onward (found : List Char × Cursor) : Reading (List Char × Cursor) := do
      let (more, stop) ← quotedRest quote fuel found.2
      return (found.1 ++ more, stop)
    match cur.rest with
    | [] => .error .illFormed
    | c :: rest =>
      if c = quote then
        if quote = '\'' && rest.head? = some '\'' then onward (['\''], cur.advance 2)
        else .ok ([], cur.step)
      else if quote = '"' && c = '\\' then do onward (← cur.escapeSequence)
      else if isGap c then do onward (← cur.quotedGap)
      else onward ([c], cur.step)

/-- A scalar in quotes. -/
def quoted (cur : Cursor) : Reading (String × Cursor) := do
  let quote ← demand cur.rest.head?
  let (cs, stop) ← cur.step.quotedRest quote (cur.rest.length + 1)
  return (String.ofList cs, stop)

/-! ## Block scalars -/

/-- What is kept of the line breaks at the end of a block scalar: one, none or all. -/
inductive Chomping
  | clip
  | strip
  | keep
  deriving DecidableEq, Repr

/-- The chomping that a sign asks for. -/
def chomping? (c : Char) : Option Chomping :=
  if c = '+' then some .keep else if c = '-' then some .strip else none

/-- The indentation that a digit asks for, which is not zero. -/
def deepening? (c : Char) : Option Nat :=
  if c.isDigit && c ≠ '0' then some (c.toNat - 48) else none

/-- The chomping and the indentation that the header of a block scalar asks for, and the place of its
first line. -/
def blockHeader? (cur : Cursor) : Option (Chomping × Option Nat × Cursor) := do
  let marks := cur.rest.takeWhile fun c => c = '+' || c = '-' || c.isDigit
  let (chomping, deepening) ← match marks with
    | [] => some (.clip, none)
    | [c] => ((chomping? c).map (·, none)).or ((deepening? c).map (.clip, some ·))
    | [c, d] =>
      match chomping? c, deepening? c with
      | some chomping, _ => (deepening? d).map (chomping, some ·)
      | none, some deepening => (chomping? d).map (·, some deepening)
      | none, none => none
    | _ => none
  let next := cur.advance marks.length
  if startsLineEnd next.rest then return (chomping, deepening, ← next.lineEnd?) else none

/-- The line breaks before the first line of a block scalar that is not empty, the greatest column
that spaces reach, and the place behind them. -/
def leadingLines : Nat → Cursor → List Char × Nat × Cursor
  | 0, cur => ([], 0, cur)
  | fuel + 1, cur =>
    let next := cur.skipSpaces
    match next.lineBreak? with
    | some (image, after) =>
      let (breaks, column, stop) := leadingLines fuel after
      (image :: breaks, max next.column column, stop)
    | none => ([], next.column, next)

/-- The line breaks of the lines of a block scalar that are empty, and the place behind them and the
indentation. -/
def blockBreaks (indent : Nat) : Nat → Cursor → List Char × Cursor
  | 0, cur => ([], cur)
  | fuel + 1, cur =>
    let spaces := (cur.rest.takeWhile (· = ' ')).length
    let next := cur.advance (min spaces (indent - cur.column))
    match next.lineBreak? with
    | some (image, after) =>
      let (breaks, stop) := blockBreaks indent fuel after
      (image :: breaks, stop)
    | none => ([], next)

/-- The text of a block scalar in the given column up to the break of its last line, that break, the
breaks after it, and the place behind them. The breaks before the first line are given. -/
def blockLines (folds : Bool) (indent : Nat) :
    Nat → List Char → Cursor → List Char × List Char × List Char × Cursor
  | 0, before, cur => ([], [], before, cur)
  | fuel + 1, before, cur =>
    if cur.atEnd || cur.column ≠ indent then ([], [], before, cur)
    else
      let line := cur.rest.takeWhile fun c => !isBreak c
      let behind := cur.skipLine
      let (last, after) := match behind.lineBreak? with
        | some (image, after) => ([image], after)
        | none => ([], behind)
      let (breaks, next) := after.blockBreaks indent (after.rest.length + 1)
      if next.atEnd || next.column ≠ indent then (before ++ line, last, breaks, next)
      else
        let foldsHere := folds && last = ['\n'] && !line.head?.any isSpacing &&
          !next.rest.head?.any isSpacing
        let joint := if !foldsHere then last else if breaks.isEmpty then [' '] else []
        let (text, tail) := blockLines folds indent fuel breaks next
        (before ++ line ++ joint ++ text, tail)

/-- A block scalar inside a collection that is indented by `outer` columns (-1 at the root). -/
def block? (folds : Bool) (outer : Int) (cur : Cursor) : Option (String × Cursor) := do
  let (chomping, deepening, start) ← cur.step.blockHeader?
  let least := max 1 (outer + 1).toNat
  let fuel := start.rest.length + 1
  let (before, first, indent) := match deepening with
    | some more =>
      let (breaks, stop) := start.blockBreaks (least + more - 1) fuel
      (breaks, stop, least + more - 1)
    | none =>
      let (breaks, column, stop) := start.leadingLines fuel
      (breaks, stop, max least column)
  let (text, last, breaks, stop) := first.blockLines folds indent fuel before
  let kept := match chomping with
    | .clip => last
    | .strip => []
    | .keep => last ++ breaks
  return (String.ofList (text ++ kept), stop)

end InstallScript.Yaml.Cursor
