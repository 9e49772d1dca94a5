import InstallScript.Token

/-!
Versions of the script language. A version fixes the words that are keywords and whether scripts may
have loops and keyword arguments.
-/

namespace InstallScript

/-- A version of the language. -/
structure Grammar where
  version : Int
  keywords : List (String × TokenKind)
  caseInsensitive : Bool := true
  loops : Bool := false
  keywordArguments : Bool := false
  /-- Comments become tokens. -/
  retainComments : Bool := false
  deriving DecidableEq, Repr

/-- ASCII capitals become small letters. No keyword has a letter that is the small form of a
character outside ASCII, so this finds the same keywords as a full mapping. -/
def lowerAscii (s : String) : String :=
  String.ofList (s.toList.map Char.toLower)

namespace Grammar

/-- The words of every version. -/
def coreKeywords : List (String × TokenKind) :=
  [("if", .ifWord), ("then", .thenWord), ("elseif", .elseifWord), ("else", .elseWord),
    ("endif", .endifWord), ("begin", .beginWord), ("end", .endWord), ("let", .letWord),
    ("set", .setWord), ("return", .returnWord), ("and", .andWord), ("or", .orWord),
    ("not", .notWord), ("true", .boolLiteral), ("false", .boolLiteral)]

/-- The words of loops. -/
def loopKeywords : List (String × TokenKind) :=
  [("while", .whileWord), ("do", .doWord), ("endwhile", .endwhileWord), ("for", .forWord),
    ("to", .toWord), ("step", .stepWord), ("endfor", .endforWord)]

/-- Version 1 has neither loops nor keyword arguments. -/
def first : Grammar where
  version := 1
  keywords := coreKeywords

/-- Version 2 has both. -/
def second : Grammar where
  version := 2
  keywords := coreKeywords ++ loopKeywords
  loops := true
  keywordArguments := true

/-- The kind of the keyword that a word is. -/
def keyword? (g : Grammar) (word : String) : Option TokenKind :=
  g.keywords.lookup (if g.caseInsensitive then lowerAscii word else word)

/-- The same version with comments as tokens. -/
def withComments (g : Grammar) : Grammar := { g with retainComments := true }

/-- The version with a given number. -/
def ofVersion? (version : Int) : Option Grammar :=
  if version = 1 then some first else if version = 2 then some second else none

/-- The version that a piece of data asks for: equal numbers ask for the same version, and a truth
value counts as 0 or 1. -/
def ofDatum? : Datum → Option Grammar
  | .number n => if n.same (.int 1) then some first else if n.same (.int 2) then some second else none
  | .bool b => if b then some first else none
  | _ => none

end Grammar

/-- No version answers to what was asked for. -/
def unknownVersionMessage (asked : Datum) : String :=
  s!"unknown grammar version {asked.shown} (known: [1, 2])"

end InstallScript
