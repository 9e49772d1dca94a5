/-!
Sets of characters given as sorted lists of code point ranges, both ends included. The properties of
characters in this folder are the ones of version 14 of the Unicode Character Database.
-/

namespace InstallScript.Text

/-- Sorted, disjoint ranges of code points; both ends belong to a range. -/
abbrev Ranges := List (Nat × Nat)

/-- Membership. The search stops at the first range that begins above the code point. -/
def Ranges.contains : Ranges → Nat → Bool
  | [], _ => false
  | (low, high) :: rest, n => if n < low then false else n ≤ high || Ranges.contains rest n

end InstallScript.Text
