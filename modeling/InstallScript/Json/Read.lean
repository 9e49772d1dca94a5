import InstallScript.Json
import InstallScript.Number.Text

/-!
Reading a JSON document (`Json.ofText?`). A reader takes the characters that remain and gives back
what it read with those that remain then. Numbers are whole numbers, and a list or an object may not
end with a comma.

Two calls at most look at the same first character, so twice the number of characters bounds the
depth of the calls.
-/

namespace InstallScript.Json

/-- What remains after blanks. -/
def skipBlanks (cs : List Char) : List Char :=
  cs.dropWhile fun c => c = ' ' || c = '\n' || c = '\r' || c = '\t'

/-- What a letter after a backslash stands for. -/
def unescaped : Char → Char
  | 'n' => '\n'
  | 'r' => '\r'
  | 't' => '\t'
  | 'b' => '\x08'
  | 'f' => '\x0c'
  | c => c

/-- The value of a hexadecimal digit. -/
def hexValue (c : Char) : Nat :=
  if c.isDigit then c.toNat - 48 else c.toLower.toNat - 87

/-- The units of a string up to its closing quote, those already read last one first. A unit is a
code point, or one half of a character beyond 0xFFFF. -/
def readUnits (done : List Nat) : List Char → Option (List Nat × List Char)
  | '"' :: rest => some (done.reverse, rest)
  | '\\' :: 'u' :: a :: b :: c :: d :: rest =>
    readUnits (([a, b, c, d].foldl (fun n digit => 16 * n + hexValue digit) 0) :: done) rest
  | '\\' :: c :: rest => readUnits ((unescaped c).toNat :: done) rest
  | c :: rest => readUnits (c.toNat :: done) rest
  | [] => none

/-- The characters of units. Two halves that follow each other are one character. -/
def ofUnits (done : List Char) : List Nat → List Char
  | [] => done.reverse
  | [unit] => (Char.ofNat unit :: done).reverse
  | high :: low :: rest =>
    if 0xD800 ≤ high && high < 0xDC00 && 0xDC00 ≤ low && low < 0xE000 then
      ofUnits (Char.ofNat (0x10000 + 0x400 * (high - 0xD800) + (low - 0xDC00)) :: done) rest
    else ofUnits (Char.ofNat high :: done) (low :: rest)

/-- Reads a string, whose opening quote has been read. -/
def readString (cs : List Char) : Option (String × List Char) :=
  (readUnits [] cs).map fun (units, rest) => (String.ofList (ofUnits [] units), rest)

/-- Reads a whole number. -/
def readNumber (cs : List Char) : Option (Json × List Char) :=
  let (digits, rest) := cs.span fun c => c.isDigit || c = '-'
  (readInteger? (String.ofList digits)).map fun n => (int n, rest)

mutual

/-- Reads a document. -/
def readValue : Nat → List Char → Option (Json × List Char)
  | 0, _ => none
  | fuel + 1, cs =>
    match skipBlanks cs with
    | 'n' :: 'u' :: 'l' :: 'l' :: rest => some (null, rest)
    | 't' :: 'r' :: 'u' :: 'e' :: rest => some (bool true, rest)
    | 'f' :: 'a' :: 'l' :: 's' :: 'e' :: rest => some (bool false, rest)
    | '"' :: rest => (readString rest).map fun (s, rest) => (str s, rest)
    | '[' :: rest =>
      match skipBlanks rest with
      | ']' :: rest => some (arr [], rest)
      | rest => readItems fuel [] rest
    | '{' :: rest =>
      match skipBlanks rest with
      | '}' :: rest => some (obj [], rest)
      | rest => readMembers fuel [] rest
    | rest => readNumber rest

/-- Reads the items of a list up to its end, after those already read, last one first. -/
def readItems : Nat → List Json → List Char → Option (Json × List Char)
  | 0, _, _ => none
  | fuel + 1, done, cs =>
    match readValue fuel cs with
    | none => none
    | some (item, rest) =>
      match skipBlanks rest with
      | ',' :: rest => readItems fuel (item :: done) rest
      | ']' :: rest => some (arr (item :: done).reverse, rest)
      | _ => none

/-- Reads the members of an object up to its end, after those already read, last one first. -/
def readMembers : Nat → List (String × Json) → List Char → Option (Json × List Char)
  | 0, _, _ => none
  | fuel + 1, done, cs =>
    match skipBlanks cs with
    | '"' :: rest =>
      match readString rest with
      | none => none
      | some (name, rest) =>
        match skipBlanks rest with
        | ':' :: rest =>
          match readValue fuel rest with
          | none => none
          | some (value, rest) =>
            match skipBlanks rest with
            | ',' :: rest => readMembers fuel ((name, value) :: done) rest
            | '}' :: rest => some (obj ((name, value) :: done).reverse, rest)
            | _ => none
        | _ => none
    | _ => none

end

/-- The document that a text holds. -/
def ofText? (text : String) : Option Json :=
  let cs := text.toList
  match readValue (2 * cs.length + 1) cs with
  | some (value, rest) => if (skipBlanks rest).isEmpty then some value else none
  | none => none

end InstallScript.Json
