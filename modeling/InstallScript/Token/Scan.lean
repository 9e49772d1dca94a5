import InstallScript.Fault
import InstallScript.Grammar
import InstallScript.Text.Blank
import InstallScript.Text.Letter

/-!
What a script text begins with. `scan` looks at a text that does not begin with white space and
finds one token or comment, by its number of characters, or what is wrong with the text.
-/

namespace InstallScript

/-- The finding at the head of a text. -/
inductive Scan
  /-- A token or comment of the given number of characters. -/
  | token (kind : TokenKind) (value : TokenValue) (length : Nat)
  /-- A fault about the characters from `lead` up to `length`, where reading stops. -/
  | fault (fault : Fault) (lead length : Nat)
  deriving DecidableEq, Repr

/-- White space between tokens. -/
def isGap (c : Char) : Bool :=
  c = ' ' || c = '\t' || c = '\r' || c = '\n' || c = '\ufeff'

/-- May begin a name. -/
def isNameStart (c : Char) : Bool :=
  Text.isLetter c || c = '_'

/-- May stand in a name. -/
def isNamePart (c : Char) : Bool :=
  Text.isAlphanumeric c || c = '_'

/-! ## Comments -/

/-- The number of characters up to the end of the comments that are open, if all of them end. -/
def commentLength? : Nat → List Char → Option Nat
  | 0, _ => some 0
  | depth + 1, '/' :: '*' :: rest => (commentLength? (depth + 2) rest).map (· + 2)
  | depth + 1, '*' :: '/' :: rest => (commentLength? depth rest).map (· + 2)
  | depth + 1, _ :: rest => (commentLength? (depth + 1) rest).map (· + 1)
  | _ + 1, [] => none

/-- A comment up to the end of the line, after its mark. -/
def scanLineComment (rest : List Char) : Scan :=
  let body := rest.takeWhile (· ≠ '\n')
  .token .comment (.text (String.ofList (Text.strip body))) (body.length + 1)

/-- A comment between marks, after the opening mark. Such comments may be nested. -/
def scanBlockComment (rest : List Char) : Scan :=
  match commentLength? 1 rest with
  | some length =>
    .token .comment (.text (String.ofList (Text.strip (rest.take (length - 2))))) (length + 2)
  | none => .fault .unterminatedComment 0 (rest.length + 2)

/-! ## Strings -/

/-- The part of a string that has been read, or where it went wrong. -/
inductive StringScan
  | closed (value : List Char) (length : Nat)
  | fault (fault : Fault) (lead length : Nat)
  deriving DecidableEq, Repr

/-- A finding that has further characters in front of it. -/
def StringScan.after (length : Nat) : StringScan → StringScan
  | closed value n => closed value (length + n)
  | fault f lead n => fault f (length + lead) (length + n)

/-- A finding that has further characters in front of it which stand for one character. -/
def StringScan.prepend (c : Char) (length : Nat) : StringScan → StringScan
  | closed value n => closed (c :: value) (length + n)
  | fault f lead n => fault f (length + lead) (length + n)

/-- The value of a hexadecimal digit. -/
def hexValue? (c : Char) : Option Nat :=
  if '0' ≤ c ∧ c ≤ '9' then some (c.toNat - 48)
  else if 'a' ≤ c ∧ c ≤ 'f' then some (c.toNat - 87)
  else if 'A' ≤ c ∧ c ≤ 'F' then some (c.toNat - 55)
  else none

/-- The value of a string of hexadecimal digits. -/
def hexNumber? (digits : List Char) : Option Nat :=
  digits.foldlM (fun n c => (hexValue? c).map (n * 16 + ·)) 0

/-- The character with a given number; half of a surrogate pair becomes the replacement
character. -/
def charOfNumber (n : Nat) : Char :=
  if 0xD800 ≤ n ∧ n ≤ 0xDFFF then '\ufffd' else Char.ofNat n

/-- The character that a single letter after a backslash stands for. -/
def escaped? (c : Char) : Option Char :=
  [('n', '\n'), ('t', '\t'), ('r', '\r'), ('\\', '\\'), ('"', '"'), ('\'', '\''),
    ('0', '\x00')].lookup c

/-- An escape that stands for nothing: the letter after the backslash and the characters that were
to be hexadecimal digits, null characters for those that the text lacks. -/
def badNumericEscape (letter : Char) (width : Nat) (rest : List Char) : StringScan :=
  let read := rest.take width
  let missing := List.replicate (width - read.length) '\x00'
  .fault (.invalidEscape (String.ofList (letter :: read ++ missing))) 1 (2 + read.length)

/-- The rest of a string after its opening quote, up to and with the closing one. -/
def scanString (quote : Char) : List Char → StringScan
  | [] => .fault .unterminatedString 0 0
  | '\\' :: [] => .fault (.invalidEscape "") 1 1
  | '\\' :: 'x' :: rest =>
    match rest with
    | a :: b :: rest' =>
      match hexNumber? [a, b] with
      | some n => (scanString quote rest').prepend (charOfNumber n) 4
      | none => badNumericEscape 'x' 2 rest
    | _ => badNumericEscape 'x' 2 rest
  | '\\' :: 'u' :: rest =>
    match rest with
    | a :: b :: c :: d :: rest' =>
      match hexNumber? [a, b, c, d] with
      | some n => (scanString quote rest').prepend (charOfNumber n) 6
      | none => badNumericEscape 'u' 4 rest
    | _ => badNumericEscape 'u' 4 rest
  | '\\' :: c :: rest =>
    match escaped? c with
    | some meaning => (scanString quote rest).prepend meaning 2
    | none => .fault (.invalidEscape (String.singleton c)) 1 2
  | c :: rest =>
    if c = quote then .closed [] 1
    else if c = '\n' then .fault .unterminatedString 0 0
    else (scanString quote rest).prepend c 1

/-- A string literal, after its opening quote. A string that does not end on its line is a fault
from its opening quote on; a bad escape is one from behind the backslash on. -/
def scanQuoted (quote : Char) (rest : List Char) : Scan :=
  match scanString quote rest with
  | .closed value length => .token .stringLiteral (.text (String.ofList value)) (length + 1)
  | .fault .unterminatedString _ length => .fault .unterminatedString 0 (length + 1)
  | .fault fault lead length => .fault fault (lead + 1) (length + 1)

/-! ## Numbers and names -/

/-- The point and the digits of a fraction, if at least one digit follows the point. -/
def takeFraction : List Char → List Char
  | '.' :: d :: rest => if d.isDigit then '.' :: d :: rest.takeWhile Char.isDigit else []
  | _ => []

/-- The letter and the sign of an exponent. -/
def takeExponentMark : List Char → List Char
  | e :: s :: _ =>
    if e = 'e' ∨ e = 'E' then (if s = '+' ∨ s = '-' then [e, s] else [e]) else []
  | [e] => if e = 'e' ∨ e = 'E' then [e] else []
  | [] => []

/-- The number that a literal stands for; with a fraction or an exponent it has double
precision. -/
def literalNumber (whole fraction mark exponent : List Char) : Number :=
  if fraction.isEmpty && mark.isEmpty then .int (digitsValue whole)
  else
    let power : Int :=
      if mark.contains '-' then -(digitsValue exponent : Int) else digitsValue exponent
    .float (Binary64.ofDecimal false (Decimal.ofParts whole (fraction.drop 1) power))

/-- A number literal. No letter may follow it, an exponent needs a digit, and the value has to be
finite. -/
def scanNumber (cs : List Char) : Scan :=
  let whole := cs.takeWhile Char.isDigit
  let afterWhole := cs.drop whole.length
  let fraction := takeFraction afterWhole
  let afterFraction := afterWhole.drop fraction.length
  let mark := takeExponentMark afterFraction
  let afterMark := afterFraction.drop mark.length
  let exponent := if mark.isEmpty then [] else afterMark.takeWhile Char.isDigit
  let lexeme := whole ++ fraction ++ mark ++ exponent
  let bad (lexeme : List Char) : Scan :=
    .fault (.invalidNumber (String.ofList lexeme)) 0 lexeme.length
  let rest := afterMark.drop exponent.length
  if !mark.isEmpty && exponent.isEmpty then bad lexeme
  else if rest.head?.any isNameStart then bad (lexeme ++ rest.takeWhile isNamePart)
  else
    match literalNumber whole fraction mark exponent with
    | .float (.infinite _) => bad lexeme
    | number => .token .numberLiteral (.number number) lexeme.length

/-- A name or a keyword. -/
def scanWord (g : Grammar) (cs : List Char) : Scan :=
  let lexeme := cs.takeWhile isNamePart
  let word := String.ofList lexeme
  match g.keyword? word with
  | none => .token .identifier (.text word) lexeme.length
  | some .boolLiteral => .token .boolLiteral (.bool (lowerAscii word = "true")) lexeme.length
  | some kind => .token kind (.text (lowerAscii word)) lexeme.length

/-! ## Symbols -/

/-- The symbols of two characters. -/
def doubleSymbol? (a b : Char) : Option TokenKind :=
  [(('=', '='), TokenKind.eq), (('!', '='), .ne), (('<', '>'), .ne), (('<', '='), .le),
    (('>', '='), .ge)].lookup (a, b)

/-- The symbols of one character. -/
def singleSymbol? (c : Char) : Option TokenKind :=
  [('+', TokenKind.plus), ('-', .minus), ('*', .star), ('/', .slash), ('%', .percent), ('<', .lt),
    ('>', .gt), ('=', .assign), ('(', .leftParen), (')', .rightParen), (',', .comma),
    (';', .semicolon)].lookup c

/-- A symbol of one character, or a character that begins no token. -/
def scanSingle (c : Char) : Scan :=
  match singleSymbol? c with
  | some kind => .token kind (.text (String.singleton c)) 1
  | none => .fault (.unexpectedCharacter c) 0 1

/-- A symbol, the longest one that fits. -/
def scanSymbol (c : Char) : List Char → Scan
  | [] => scanSingle c
  | d :: _ =>
    match doubleSymbol? c d with
    | some kind => .token kind (.text (String.ofList [c, d])) 2
    | none => scanSingle c

/-! ## All together -/

/-- What a text begins with, given its first character and the rest. -/
def scan (g : Grammar) (c : Char) (rest : List Char) : Scan :=
  if c = '#' then scanLineComment rest
  else if c = '/' ∧ rest.head? = some '*' then scanBlockComment (rest.drop 1)
  else if c = '"' ∨ c = '\'' then scanQuoted c rest
  else if c.isDigit then scanNumber (c :: rest)
  else if isNameStart c then scanWord g (c :: rest)
  else scanSymbol c rest

end InstallScript
