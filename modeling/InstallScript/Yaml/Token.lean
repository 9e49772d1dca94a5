import InstallScript.Number.Text
import InstallScript.Yaml.Lexeme

/-!
Tokens of a YAML text. Indentation shows as marks at the beginning and the end of block collections;
what turns out to be a key by the colon behind it gets its mark when that colon is met, so the
scanner remembers where such a key may have begun (`Candidate`).

A text that cannot be scanned to its end gives the tokens up to the first that could still have been
a key, and the fault.
-/

namespace InstallScript.Yaml

/-- A token. -/
inductive Token
  | version (major : Nat)
  | tagHandle (handle stem : String)
  /-- A directive of another name. -/
  | otherDirective
  | documentStart
  | documentEnd
  | blockListStart
  | blockMappingStart
  | blockEnd
  | flowListStart
  | flowListEnd
  | flowMappingStart
  | flowMappingEnd
  | item
  | comma
  | key
  | value
  | alias (name : String)
  | anchor (name : String)
  | tag (handle : Option String) (suffix : String)
  /-- A scalar. Only the meaning of a plain one depends on its form. -/
  | scalar (text : String) (isPlain : Bool)
  | textEnd
  /-- The text cannot be read any further. -/
  | fault (fault : Fault)
  deriving DecidableEq, Repr

/-! ## Names -/

namespace Cursor

/-- A character of a name. -/
def isNameChar (c : Char) : Bool := c.isAlphanum || c = '-' || c = '_'

/-- The name that is next, which has at least one character, and the place behind it. -/
def name? (cur : Cursor) : Option (String × Cursor) :=
  let name := cur.rest.takeWhile isNameChar
  if name.isEmpty then none else some (String.ofList name, cur.advance name.length)

/-- The name of an anchor or an alias, whose mark is next. -/
def anchorName? (cur : Cursor) : Option (String × Cursor) := do
  let (name, stop) ← cur.step.name?
  if startsGap stop.rest || stop.rest.head?.any "?:,]\x7d%@\x60".toList.contains then
    return (name, stop)
  else none

/-- A character of the name of a tag. -/
def isTagChar (c : Char) : Bool :=
  c.isAlphanum || "-;/?:@&=+$,_.!~*'()[]".toList.contains c

/-- What a tag says behind its handle; it has at least one character. -/
def tagSuffix? (cur : Cursor) : Option (String × Cursor) :=
  let suffix := cur.rest.takeWhile isTagChar
  if suffix.isEmpty then none else some (String.ofList suffix, cur.advance suffix.length)

/-- A handle of tags: one exclamation mark, or two with a word between them that may be empty. -/
def longHandle? (cur : Cursor) : Option (String × Cursor) :=
  let word := (cur.rest.drop 1).takeWhile isNameChar
  if cur.rest.head? = some '!' && (cur.rest.drop (1 + word.length)).head? = some '!' then
    some (String.ofList ('!' :: word ++ ['!']), cur.advance (2 + word.length))
  else none

/-- A handle, as a directive names it. -/
def handle? (cur : Cursor) : Option (String × Cursor) :=
  if cur.rest.take 2 = ['!', ' '] then some ("!", cur.step) else cur.longHandle?

/-- The handle of the tag that begins here, what it says behind that, and the place behind it. -/
def tagParts? (cur : Cursor) : Option (Option String × String × Cursor) :=
  let behind := cur.rest.drop 1
  if behind.head? = some '<' then do
    let (suffix, stop) ← (cur.advance 2).tagSuffix?
    if stop.rest.head? = some '>' then return (none, suffix, stop.step) else none
  else if startsGap behind then some (none, "!", cur.step)
  else do
    let word := behind.takeWhile fun c => c ≠ ' ' && !isBreak c
    let (handle, start) ← if word.contains '!' then cur.longHandle? else some ("!", cur.step)
    let (suffix, stop) ← start.tagSuffix?
    return (some handle, suffix, stop)

/-- The tag that begins here. -/
def tag? (cur : Cursor) : Option (Token × Cursor) := do
  let (handle, suffix, stop) ← cur.tagParts?
  if startsLineEnd stop.rest then return (.tag handle suffix, stop) else none

/-- A number of the version of the format. -/
def versionNumber? (cur : Cursor) : Option (Nat × Cursor) :=
  let digits := cur.rest.takeWhile Char.isDigit
  if digits.isEmpty then none else some (digitsValue digits, cur.advance digits.length)

/-- The directive that begins here, and the place behind its line. -/
def directive? (cur : Cursor) : Option (Token × Cursor) := do
  let (name, stop) ← cur.step.name?
  if !startsLineEnd stop.rest then none
  else if name = "YAML" then do
    let (major, point) ← stop.skipSpaces.versionNumber?
    if point.rest.head? ≠ some '.' then none
    else do
      let (_, last) ← point.step.versionNumber?
      if startsLineEnd last.rest then return (.version major, ← last.lineEnd?) else none
  else if name = "TAG" then do
    let (handle, middle) ← stop.skipSpaces.handle?
    if middle.rest.head? ≠ some ' ' then none
    else do
      let (stem, last) ← middle.skipSpaces.tagSuffix?
      if startsLineEnd last.rest then return (.tagHandle handle stem, ← last.lineEnd?) else none
  else return (.otherDirective, ← stop.skipLine.lineEnd?)

end Cursor

/-! ## The scanner -/

/-- Where a key may have begun. -/
structure Candidate where
  /-- The number of flow collections around it. -/
  depth : Nat
  /-- The number of tokens before it. -/
  number : Nat
  /-- Nothing but a key may stand there. -/
  required : Bool
  start : Cursor

/-- How far a text has been scanned. -/
structure Scanner where
  cursor : Cursor
  tokens : Array Token := #[]
  /-- The number of flow collections around the cursor. -/
  depth : Nat := 0
  /-- The column of the innermost block collection, -1 outside of all. -/
  indent : Int := -1
  /-- The columns of the block collections around it. -/
  outer : List Int := []
  /-- A key may begin at the next token. -/
  keyAllowed : Bool := true
  /-- At most one for each number of flow collections. -/
  candidates : List Candidate := []

namespace Scanner

/-- The longest text of a key on its line. -/
def keyLimit : Nat := 1024

/-- Whether a place is too far from a candidate for a key to end there. -/
def isStale (cur : Cursor) (c : Candidate) : Bool :=
  c.start.line ≠ cur.line || keyLimit < cur.index - c.start.index

/-- Gives up the candidates of a kind; it is a fault if one of them is required. -/
def dropWhere (p : Candidate → Bool) (s : Scanner) : Reading Scanner :=
  if s.candidates.any fun c => p c && c.required then .error .illFormed
  else .ok { s with candidates := s.candidates.filter fun c => !p c }

/-- Gives up the candidates that are too far away. -/
def dropStale (s : Scanner) : Reading Scanner := s.dropWhere (isStale s.cursor)

/-- Gives up the candidate in the innermost flow collection. -/
def dropHere (s : Scanner) : Reading Scanner := s.dropWhere fun c => c.depth = s.depth

/-- Notes that a key may begin at the next token. -/
def noteCandidate (s : Scanner) : Reading Scanner :=
  if !s.keyAllowed then .ok s
  else do
    let s ← s.dropHere
    let c : Candidate :=
      { depth := s.depth, number := s.tokens.size, start := s.cursor
        required := s.depth = 0 && s.indent = s.cursor.column }
    return { s with candidates := c :: s.candidates }

/-- Closes block collections that are indented by more than the given columns. -/
def unwindFrom (column : Int) : List Int → Int → Array Token → Array Token × Int × List Int
  | outer :: more, indent, tokens =>
    if column < indent then unwindFrom column more outer (tokens.push .blockEnd)
    else (tokens, indent, outer :: more)
  | [], indent, tokens => (tokens, indent, [])

/-- Closes block collections that are indented by more than the given columns. Inside a flow collection
indentation does not count. -/
def unwind (column : Int) (s : Scanner) : Scanner :=
  if s.depth ≠ 0 then s
  else
    let (tokens, indent, outer) := unwindFrom column s.outer s.indent s.tokens
    { s with tokens, indent, outer }

/-- Opens a block collection in the given column, if it is indented by more than the one around it;
its mark goes in front of the token of the given number. -/
def openBlock (mark : Token) (column number : Nat) (s : Scanner) : Scanner :=
  if s.depth ≠ 0 || column ≤ s.indent then s
  else
    { s with
      tokens := s.tokens.insertIdxIfInBounds number mark
      indent := column
      outer := s.indent :: s.outer }

/-- Adds a token that ends at the given place. -/
def push (t : Token) (stop : Cursor) (s : Scanner) : Scanner :=
  { s with tokens := s.tokens.push t, cursor := stop }

/-- Sets whether a key may begin at the next token. -/
def allowKey (allowed : Bool) (s : Scanner) : Scanner := { s with keyAllowed := allowed }

/-! ### Tokens by their beginnings -/

/-- The end of the text. -/
def finish (s : Scanner) : Reading Scanner := do
  let s ← (s.unwind (-1)).dropHere
  return { s with tokens := s.tokens.push .textEnd, candidates := [] }

/-- A directive. -/
def pushDirective (s : Scanner) : Reading Scanner := do
  let s ← (s.unwind (-1)).dropHere
  let (t, stop) ← demand s.cursor.directive?
  return (s.push t stop).allowKey false

/-- A mark between documents. -/
def pushDocumentMark (t : Token) (s : Scanner) : Reading Scanner := do
  let s ← (s.unwind (-1)).dropHere
  return (s.push t (s.cursor.advance 3)).allowKey false

/-- The beginning of a flow collection, which may be a key. -/
def pushFlowStart (t : Token) (s : Scanner) : Reading Scanner := do
  let s ← s.noteCandidate
  return { (s.push t s.cursor.step).allowKey true with depth := s.depth + 1 }

/-- The end of a flow collection. -/
def pushFlowEnd (t : Token) (s : Scanner) : Reading Scanner := do
  let s ← s.dropHere
  return { (s.push t s.cursor.step).allowKey false with depth := s.depth - 1 }

/-- A comma between entries of a flow collection. -/
def pushComma (s : Scanner) : Reading Scanner := do
  let s ← s.dropHere
  return (s.push .comma s.cursor.step).allowKey true

/-- The mark of an item of a block list, or of a key by a question mark. It may stand only where a key
may begin. -/
def pushBlockMark (t opening : Token) (allowsKey : Bool) (s : Scanner) : Reading Scanner := do
  if s.depth = 0 && !s.keyAllowed then .error .illFormed
  else
    let s ← (s.openBlock opening s.cursor.column s.tokens.size).dropHere
    return (s.push t s.cursor.step).allowKey allowsKey

/-- The mark of a value. If a key may have begun before it, the key gets its mark. -/
def pushValue (s : Scanner) : Reading Scanner :=
  match s.candidates.find? fun c => c.depth = s.depth with
  | some c =>
    let keyed := { s with
      tokens := s.tokens.insertIdxIfInBounds c.number .key
      candidates := s.candidates.filter fun d => d.depth ≠ s.depth }
    let opened := keyed.openBlock .blockMappingStart c.start.column c.number
    .ok ((opened.push .value s.cursor.step).allowKey false)
  | none => s.pushBlockMark .value .blockMappingStart (s.depth = 0)

/-- A token that may be a key, found at the cursor. -/
def pushNode (found : Cursor → Reading (Token × Cursor)) (s : Scanner) : Reading Scanner := do
  let s ← s.noteCandidate
  let (t, stop) ← found s.cursor
  return (s.push t stop).allowKey false

/-- A block scalar. A key may begin behind it. -/
def pushBlockScalar (folds : Bool) (s : Scanner) : Reading Scanner := do
  let s ← s.dropHere
  let (text, stop) ← demand (s.cursor.block? folds s.indent)
  return (s.push (.scalar text false) stop).allowKey true

/-- A plain scalar. A key may begin behind it on a later line. -/
def pushPlain (s : Scanner) : Reading Scanner := do
  let s ← s.noteCandidate
  let (text, stop, broken) := s.cursor.plain (s.depth ≠ 0) (s.indent + 1).toNat
  return (s.push (.scalar text true) stop).allowKey broken

/-! ### Scanning -/

/-- Whether a mark of one character is next. In a block, something has to part it from what
follows. -/
def atLoneMark (c : Char) (s : Scanner) : Bool :=
  s.cursor.rest.head? = some c && (s.depth ≠ 0 || startsGap (s.cursor.rest.drop 1))

/-- Adds the token at the cursor, which begins with the given character. -/
def pushToken (c : Char) (s : Scanner) : Reading Scanner :=
  let cur := s.cursor
  if c = '%' && cur.column = 0 then s.pushDirective
  else if cur.atMark '-' then s.pushDocumentMark .documentStart
  else if cur.atMark '.' then s.pushDocumentMark .documentEnd
  else if c = '[' then s.pushFlowStart .flowListStart
  else if c = '{' then s.pushFlowStart .flowMappingStart
  else if c = ']' then s.pushFlowEnd .flowListEnd
  else if c = '}' then s.pushFlowEnd .flowMappingEnd
  else if c = ',' then s.pushComma
  else if c = '-' && startsGap (cur.rest.drop 1) then
    s.pushBlockMark .item .blockListStart true
  else if s.atLoneMark '?' then s.pushBlockMark .key .blockMappingStart (s.depth = 0)
  else if s.atLoneMark ':' then s.pushValue
  else if c = '*' then s.pushNode fun cur => do
    let (name, stop) ← demand cur.anchorName?
    return (.alias name, stop)
  else if c = '&' then s.pushNode fun cur => do
    let (name, stop) ← demand cur.anchorName?
    return (.anchor name, stop)
  else if c = '!' then s.pushNode fun cur => demand cur.tag?
  else if c = '|' && s.depth = 0 then s.pushBlockScalar false
  else if c = '>' && s.depth = 0 then s.pushBlockScalar true
  else if c = '\'' || c = '"' then s.pushNode fun cur => do
    let (text, stop) ← cur.quoted
    return (.scalar text false, stop)
  else if cur.atPlain (s.depth ≠ 0) then s.pushPlain
  else .error .illFormed

/-- The place of the next token. Behind a line break in a block a key may begin. -/
def skip (s : Scanner) : Scanner :=
  let next := s.cursor.skip
  { s with cursor := next
           keyAllowed := s.keyAllowed || (s.depth = 0 && s.cursor.line < next.line) }

/-- Adds what comes next. -/
def advance (s : Scanner) : Reading Scanner := do
  let s ← s.skip.dropStale
  let s := s.unwind s.cursor.column
  match s.cursor.rest with
  | [] => s.finish
  | c :: _ => s.pushToken c

/-- The tokens before all that may still turn out to be keys. -/
def settled (s : Scanner) : List Token :=
  s.tokens.toList.take (s.candidates.foldl (fun n c => min n c.number) s.tokens.size)

/-- The tokens of the rest of a text. -/
def run : Nat → Scanner → List Token
  | 0, s => s.settled ++ [.fault .illFormed]
  | fuel + 1, s =>
    match s.dropStale with
    | .error f => s.settled ++ [.fault f]
    | .ok s =>
      match s.advance with
      | .error f => s.settled ++ [.fault f]
      | .ok next =>
        if next.tokens.back? = some .textEnd then next.tokens.toList else run fuel next

end Scanner

/-- The tokens of a text. The last one is the end of the text or a fault. -/
def Token.ofText (cs : List Char) : List Token :=
  Scanner.run (cs.length + 2) { cursor := ⟨cs, 0, 0, 0⟩ }

end InstallScript.Yaml
