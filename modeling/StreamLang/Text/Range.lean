/-!
Sets of characters, given by ranges of code points.
-/

namespace StreamLang.Text

/-- The code points from `first` to `last`, both included. -/
structure CodeRange where
  first : Nat
  last : Nat
deriving DecidableEq, Repr

/-- The character is in one of the ranges. -/
def inRanges (ranges : Array CodeRange) (c : Char) : Bool :=
  ranges.any fun r => r.first ≤ c.toNat && c.toNat ≤ r.last

/-- No range is empty, and each ends before the next begins. -/
def isAscending : List CodeRange → Bool
  | [] => true
  | [r] => decide (r.first ≤ r.last)
  | r :: s :: rest => decide (r.first ≤ r.last ∧ r.last < s.first) && isAscending (s :: rest)

theorem inRanges_iff {ranges : Array CodeRange} {c : Char} :
    inRanges ranges c = true ↔ ∃ r ∈ ranges, r.first ≤ c.toNat ∧ c.toNat ≤ r.last := by
  rw [inRanges, Array.any_eq_true']
  simp

end StreamLang.Text
