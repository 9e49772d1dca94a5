import InstallScript.Defect
import InstallScript.Number.Text
import InstallScript.Text.CaseFold

/-!
Versions of games. A version is a text of parts between dots, hyphens and underscores. Parts that
are made of digits compare as numbers and stand before all others, which compare as folded text;
zeros at the end do not count.
-/

namespace InstallScript

/-- A part of a version. -/
inductive VersionPart
  | number (value : Nat)
  | text (folded : String)
  deriving DecidableEq, Repr

/-- Characters between the parts of a version. -/
def isVersionSeparator (c : Char) : Bool := c = '.' || c = '-' || c = '_'

/-- The pieces of a text between separators, after the characters already read of the first one,
last character first. -/
def versionPieces : List Char → List Char → List (List Char)
  | read, [] => [read.reverse]
  | read, c :: rest =>
    if isVersionSeparator c then read.reverse :: versionPieces [] rest
    else versionPieces (c :: read) rest

namespace VersionPart

/-- The part that a piece is. A piece of digits may fail to be a number. -/
def ofPiece (piece : List Char) : Except Defect VersionPart :=
  if piece.all Text.isDigit then
    match readDigits? true 0 piece with
    | some n => .ok (number n)
    | none => .error (.notInteger (String.ofList piece))
  else .ok (text (Text.fold (String.ofList piece)))

/-- The order of two parts. -/
def compare : VersionPart → VersionPart → Ordering
  | number m, number n => Ord.compare m n
  | number _, text _ => .lt
  | text _, number _ => .gt
  | text a, text b => Ord.compare a b

end VersionPart

/-- The parts of a version, up to zeros at the end. -/
abbrev VersionKey := List VersionPart

namespace VersionKey

/-- The parts without zeros at the end. -/
def dropZeros (parts : List VersionPart) : VersionKey :=
  (parts.reverse.dropWhile (· = .number 0)).reverse

/-- The key of a version. -/
def ofString (version : String) : Except Defect VersionKey := do
  let pieces := versionPieces [] (Text.strip version.toList)
  let parts ← (pieces.filter (!·.isEmpty)).mapM VersionPart.ofPiece
  return dropZeros parts

/-- The order of two keys; one that ends first comes first. -/
def compare : VersionKey → VersionKey → Ordering
  | [], [] => .eq
  | [], _ :: _ => .lt
  | _ :: _, [] => .gt
  | a :: rest, b :: others =>
    match a.compare b with
    | .eq => compare rest others
    | order => order

end VersionKey

/-- An order as a number. -/
def orderSign : Ordering → Int
  | .lt => -1
  | .eq => 0
  | .gt => 1

/-- -1, 0 or 1 as one version is older than another, equal to it or newer. -/
def compareVersions (left right : String) : Except Defect Int := do
  let a ← VersionKey.ofString left
  let b ← VersionKey.ofString right
  return orderSign (a.compare b)

end InstallScript
