/-! # Sets of characters

A set of characters is given by a list of ranges of code points, in increasing order and
with both ends included. -/

namespace StrategyDoc.Text

/-- Ranges of code points, in increasing order. -/
abbrev Ranges := List (Nat × Nat)

/-- A code point lies in one of the ranges. -/
def Ranges.contains : Ranges → Nat → Bool
  | [], _ => false
  | (first, last) :: rest, n =>
    if n < first then false else if n ≤ last then true else Ranges.contains rest n

end StrategyDoc.Text
