import InstallScript.Ini
import InstallScript.Text.Lines

/-!
Reading settings files. A line is a comment, a header, an option with its value, or the continuation
of a value, which is indented further than the option; empty lines may belong to a value. Lines that
are none of these are collected, and the file is refused when all of it has been read; other faults
end the reading at once.
-/

namespace InstallScript

/-- How far the reading of a settings file has come. The lines of a value come last one first. -/
structure IniReading where
  file : IniFile (List String) := {}
  /-- The header at hand. -/
  header : Option String := none
  /-- The option at hand. -/
  option : Option String := none
  /-- The indentation of the last line that was no continuation. -/
  indent : Nat := 0
  badLines : List (Nat × String) := []

/-- The text between the first character, a bracket, and the last closing bracket. -/
def iniHeader? : List Char → Option String
  | '[' :: rest =>
    let inside := (rest.reverse.dropWhile (· ≠ ']')).drop 1
    if inside.isEmpty then none else some (String.ofList inside.reverse)
  | _ => none

/-- A character between an option and its value. -/
def isIniDelimiter (c : Char) : Bool := c = '=' || c = ':'

/-- The name and the value of an option. -/
def iniOption? (cs : List Char) : Option (String × String) :=
  match cs.dropWhile fun c => !isIniDelimiter c with
  | [] => none
  | _ :: value =>
    let name := cs.takeWhile fun c => !isIniDelimiter c
    some (String.ofList (Text.stripEnd name), String.ofList (Text.strip value))

namespace IniReading

/-- The option at hand with the header it is under; an option without a name does not count. -/
def openOption? (r : IniReading) : Option (String × String) :=
  match r.header, r.option with
  | some header, some option => if option = "" then none else some (header, option)
  | _, _ => none

/-- Adds a line to the value at hand. -/
def continueValue (r : IniReading) (header option line : String) : IniReading :=
  { r with file := r.file.mapOptions header fun options => options.adjust option (line :: ·) }

/-- Takes note of a line that is neither header nor option. -/
def addBadLine (r : IniReading) (number : Nat) (line : String) : IniReading :=
  { r with badLines := r.badLines ++ [(number, line)] }

/-- Reads a header. The default section may be opened more than once. -/
def readHeader (r : IniReading) (number : Nat) (header : String) : Except IniFault IniReading :=
  let opened := { r with header := some header, option := none }
  if (r.file.sections.lookup header).isSome then .error (.duplicateSection header number)
  else if header = defaultHeader then .ok opened
  else .ok { opened with file := r.file.addSection header }

/-- Reads an option. One without a name is a bad line, but is read all the same. -/
def readOption (r : IniReading) (number : Nat) (line header name value : String) :
    Except IniFault IniReading :=
  let noted := if name = "" then r.addBadLine number line else r
  if (r.file.get? header name).isSome then .error (.duplicateOption header name number)
  else .ok { noted with
    file := r.file.mapOptions header fun options => options.set name [value]
    option := some name }

/-- Reads a line that is neither a comment nor empty nor the continuation of a value. -/
def readItem (r : IniReading) (number : Nat) (line : String) (trimmed : List Char) :
    Except IniFault IniReading :=
  match iniHeader? trimmed with
  | some header => r.readHeader number header
  | none =>
    match r.header with
    | none => .error (.noHeader number line)
    | some header =>
      match iniOption? trimmed with
      | some (name, value) => r.readOption number line header name value
      | none => .ok (r.addBadLine number line)

/-- Reads a line. -/
def readLine (r : IniReading) (number : Nat) (line : List Char) : Except IniFault IniReading :=
  let indent := (line.takeWhile Text.isBlank).length
  match Text.strip line, r.openOption? with
  | [], some (header, option) => .ok (r.continueValue header option "")
  | [], none => .ok r
  | c :: rest, opened =>
    if c = '#' || c = ';' then .ok r
    else
      let item := { r with indent }.readItem number (String.ofList line) (c :: rest)
      match opened with
      | some (header, option) =>
        if r.indent < indent then
          .ok (r.continueValue header option (String.ofList (c :: rest)))
        else item
      | none => item

/-- Reads lines, the first of which has the given number. -/
def readLines : IniReading → Nat → List (List Char) → Except IniFault IniReading
  | r, _, [] => .ok r
  | r, number, line :: rest =>
    match r.readLine number line with
    | .ok r' => r'.readLines (number + 1) rest
    | .error fault => .error fault

/-- The value that lines make up, the last one first. Blanks at its end do not count. -/
def joinedValue (lines : List String) : String :=
  String.ofList (Text.stripEnd ("\n".intercalate lines.reverse).toList)

end IniReading

namespace Ini

/-- The lines of a text with the line feeds that end them. -/
def linesOf (cs : List Char) : List (List Char) :=
  Text.linesKeepingEnds [] (Text.unifyLineEnds cs)

/-- Reads lines from the first on. -/
def readLines (lines : List (List Char)) : Except IniFault IniReading :=
  ({} : IniReading).readLines 1 lines

/-- The settings that a text holds. -/
def ofText (cs : List Char) : Except IniFault Ini :=
  match readLines (linesOf cs) with
  | .error fault => .error fault
  | .ok r =>
    if r.badLines.isEmpty then .ok (r.file.mapValues IniReading.joinedValue)
    else .error (.badLines r.badLines)

/-- The lines of a text that have certainly ended: a carriage return that comes last may be half of a
line end. -/
def endedLines (cs : List Char) : List (List Char) :=
  let certain := if cs.getLast? = some '\r' then cs.dropLast else cs
  (linesOf certain).filter fun line => line.getLast? = some '\n'

/-- The settings that bytes hold. If the last character is cut off, the lines that have ended before
it are read first. -/
def ofBytes (bytes : List UInt8) : Except IniFault Ini :=
  match Text.decodeArriving bytes with
  | .error e => .error (.undecodable e)
  | .ok (cs, none) => ofText cs
  | .ok (cs, some e) =>
    match readLines (endedLines cs) with
    | .error fault => .error fault
    | .ok _ => .error (.undecodable e)

end Ini

end InstallScript
